import Duel.Dice.Combo
import Duel.Fault
import Duel.Stacks

namespace Duel

open Duel.Field

structure Ability where
  combo : Combo
  damage : Int
  ultimate : Bool := false
  /-- The stacks granted when the ability lands. -/
  grants : Ledger Int := .empty
  label : Option String := none

namespace Ability

def ofDocument : Reader Ability :=
  record (Ability.mk <$> required "combo" (choice Combo.named) <*> required "damage" whole <*>
    optional "ultimate" false truth <*> optional "apply" .empty (ledgerOf whole) <*>
    maybe "label" text)

def displayName (a : Ability) : String := (Event.spoken a.label).getD a.combo.name

/-- Ultimates first, then damage, then the number of statuses granted. -/
def beats (a b : Ability) : Bool :=
  if a.ultimate != b.ultimate then a.ultimate
  else if a.damage ≠ b.damage then b.damage < a.damage
  else decide (b.grants.entries.length < a.grants.entries.length)

def best? : List Ability → Option Ability
  | [] => none
  | a :: rest => some (rest.foldl (fun best b => if b.beats best then b else best) a)

end Ability

structure Defense.Tier where
  minRoll : Int
  block : Int := 0
  reflect : Int := 0
  heal : Int := 0
  deriving DecidableEq, Repr

def Defense.Tier.ofDocument : Reader Defense.Tier :=
  record (Defense.Tier.mk <$> required "min_roll" whole <*> optional "block" 0 whole <*>
    optional "reflect" 0 whole <*> optional "heal" 0 whole)

structure Defense.Values where
  roll : Int
  block : Int := 0
  reflect : Int := 0
  heal : Int := 0
  deriving DecidableEq, Repr

def Defense.Values.ofDocument : Reader Defense.Values :=
  record (Defense.Values.mk <$> required "roll" whole <*> optional "block" 0 whole <*>
    optional "reflect" 0 whole <*> optional "heal" 0 whole)

/-- How a side without a player decides which dice to keep. -/
inductive Strategy
  | mostFrequent
  | straightHunter
  deriving DecidableEq, Repr

namespace Strategy

def name : Strategy → String
  | mostFrequent => "most_frequent"
  | straightHunter => "straight_hunter"

def named : List (String × Strategy) := [mostFrequent, straightHunter].map fun s => (s.name, s)

end Strategy

structure Hero where
  id : String
  name : String
  maxHp : Int := 30
  abilities : List Ability := []
  defense : List Defense.Tier := []
  strategy : Strategy := .mostFrequent

namespace Hero

def title : String := "Hero"

def repeated : List Combo → List Combo → List Combo
  | _, [] => []
  | seen, c :: rest =>
    if seen.contains c then c :: repeated seen rest else repeated (c :: seen) rest

def rules (h : Hero) : List String :=
  (if h.maxHp ≤ 0 then ["max_hp must be > 0"] else []) ++
  (repeated [] (h.abilities.map (·.combo))).map fun c => "duplicate ability combo " ++ c.name

def form : Form Hero :=
  (Hero.mk <$> required "id" text <*> required "name" text <*>
    optional "max_hp" 30 whole <*> optional "abilities" [] (listOf Ability.ofDocument) <*>
    optional "defense" [] (listOf Defense.Tier.ofDocument) <*>
    optional "ai_strategy" .mostFrequent (choice Strategy.named)).obeying rules

def ofDocument : Reader Hero := record form

def read (d : Document) : Except Invalid Hero := readAs title ofDocument d

def abilityFor (h : Hero) (c : Combo) : Option Ability := h.abilities.find? (·.combo == c)

def defend (h : Hero) (roll : Int) : Defense.Values :=
  let tiers := h.defense.mergeSort fun a b => decide (b.minRoll ≤ a.minRoll)
  match tiers.find? fun t => t.minRoll ≤ roll with
  | some t => ⟨roll, t.block, t.reflect, t.heal⟩
  | none => { roll }

def legal (h : Hero) (dice : List Int) : List Ability :=
  h.abilities.filter fun a => a.combo.holds dice

def best (h : Hero) (dice : List Int) : Option Ability := Ability.best? (h.legal dice)

def selected (h : Hero) (dice : List Int) (combo : String) : Except Fault (Option Ability) :=
  match Combo.named.lookup combo with
  | none => .error (.unknownCombo combo)
  | some c => .ok (if c.holds dice then h.abilityFor c else none)

end Hero

structure Player where
  side : Side
  hero : Hero
  hp : Int
  statuses : Stacks := .empty

namespace Player

def ofDocument : Reader Player :=
  record (Player.mk <$> required "side" (choice Side.named) <*> required "hero" Hero.ofDocument <*>
    required "hp" whole <*> optional "statuses" .empty (ledgerOf whole))

def defeated (p : Player) : Bool := p.hp ≤ 0

def fresh (side : Side) (hero : Hero) : Player := { side, hero, hp := hero.maxHp }

end Player

end Duel
