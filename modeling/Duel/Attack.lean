import Duel.Defense
import Duel.Status.Totals

namespace Duel

namespace Attack

/-- One attack, with what both sides have spent on it. -/
structure Context (R : Type) where
  attackerSide : Side
  defenderSide : Side
  attacker : Player
  defender : Player
  damage : Int
  ability : Option Ability := none
  spends : List (Spend.Summary R) := []
  defense : Option (Defense.Resolution R) := none
  /-- Milliseconds until the turn ends. -/
  delay : Int := 700

inductive Outcome
  | goesOn
  | attackerDefeated
  | defenderDefeated
  deriving DecidableEq, Repr

def Outcome.name : Outcome → String
  | goesOn => "continue"
  | attackerDefeated => "attacker_defeated"
  | defenderDefeated => "defender_defeated"

inductive Effect.Kind
  | hit
  | reflect
  deriving DecidableEq, Repr

def Effect.Kind.name : Effect.Kind → String
  | hit => "hit"
  | reflect => "reflect"

structure Effect where
  side : Side
  amount : Int
  kind : Effect.Kind
  deriving DecidableEq, Repr

structure TurnEnd where
  next : Side
  delay : Int
  deriving DecidableEq, Repr

structure Summary where
  damage : Int
  dealt : Int
  blocked : Int
  reflected : Int
  healed : Int := 0
  negated : Bool := false
  attackerDefeated : Bool := false
  defenderDefeated : Bool := false
  deriving DecidableEq, Repr

structure Resolution where
  attacker : Player
  defender : Player
  summary : Summary
  effects : List Effect
  turnEnd : Option TurnEnd
  outcome : Outcome
  next : Side
  logs : List String

variable {R : Type}

def Summary.outcome (s : Summary) : Outcome :=
  if s.defenderDefeated then .defenderDefeated
  else if s.attackerDefeated then .attackerDefeated
  else .goesOn

def lines (ctx : Context R) (s : Summary) (attack defense : Spend.Totals R) :
    Except Double.Fault (List String) := do
  let attacker := ctx.attacker.hero.name
  let defender := ctx.defender.hero.name
  let defenseLogs := match ctx.defense with
    | some d => d.logs
    | none => []
  let amount (word : String) (n : Int) : Except Double.Fault (List String) := do
    if 0 < n then return [word ++ " " ++ (← Number.digits n) ++ "."] else return []
  let opening ← ctx.ability.mapM fun a => do
    return attacker ++ " uses " ++ a.displayName ++ " (" ++ (← Number.digits ctx.damage) ++ " dmg)."
  let hit := "Hit for " ++ (← Number.digits s.dealt) ++ " dmg (blocked " ++
    (← Number.digits s.blocked) ++ ")."
  let parts := hit :: (← amount "Reflected" s.reflected) ++ (← amount "Healed" s.healed)
  return opening.toList ++
    (attack.logs ++ defenseLogs ++ defense.logs).map (" > " ++ ·) ++
    (if s.negated then [defender ++ " negates the attack."] else []) ++
    [" ".intercalate parts] ++
    (match s.outcome with
    | .defenderDefeated => [defender ++ " is defeated."]
    | .attackerDefeated => [attacker ++ " is defeated."]
    | .goesOn => [])

def effects (ctx : Context R) (s : Summary) : List Effect :=
  (if 0 < s.dealt then [⟨ctx.defenderSide, s.dealt, .hit⟩] else []) ++
  (if 0 < s.reflected then [⟨ctx.attackerSide, s.reflected, .reflect⟩] else [])

variable [Scalar R]

/-- The damage that comes through: block first, then negation, then the least factor. -/
def dealt (damage blocked : Int) (totals : Spend.Totals R) : Except Double.Fault Int :=
  let through := if totals.negates then 0 else max 0 (damage - blocked)
  match totals.factor with
  | some f => Scalar.scaleDown through f
  | none => .ok through

def endure (p : Player) (damage heal : Int) : Int × Int :=
  let hp := max 0 (p.hp - damage)
  if 0 < heal then
    let healed := min p.hero.maxHp (hp + heal)
    (healed, healed - hp)
  else (hp, 0)

def recoil (defense : Option (Defense.Resolution R)) (damage : Int) : Except Double.Fault Int :=
  match defense with
  | none => .ok 0
  | some d => do
    let part : R := Scalar.clampUnit d.retaliate
    let back ← if Scalar.less Scalar.zero part then Scalar.scaleDown damage part else .ok 0
    return max 0 d.reflect + back

/-- Carries an attack out. `blocked` is the whole block, even beyond the damage. -/
def resolve (ctx : Context R) : Except Double.Fault Resolution := do
  let attack := Spend.Totals.ofSummaries ctx.spends
  let defense := Spend.Totals.ofSummaries ((ctx.defense.map (·.spends)).getD [])
  let damage := max 0 (ctx.damage + attack.damage)
  let blocked := max 0 ((ctx.defense.map (·.block)).getD 0) + defense.block
  let dealt ← dealt damage blocked defense
  let (defenderHp, healed) := endure ctx.defender dealt ((ctx.defense.map (·.heal)).getD 0)
  let recoil ← recoil ctx.defense dealt
  let attackerHp := max 0 (ctx.attacker.hp - recoil)
  let reflected := if 0 < ctx.attacker.hp then max 0 (ctx.attacker.hp - attackerHp) else 0
  let summary : Summary := {
    damage, dealt, blocked, reflected, healed, negated := defense.negates
    attackerDefeated := decide (attackerHp ≤ 0), defenderDefeated := decide (defenderHp ≤ 0) }
  return {
    attacker := { ctx.attacker with hp := attackerHp }
    defender := { ctx.defender with hp := defenderHp }
    summary
    effects := effects ctx summary
    turnEnd := if summary.outcome = .goesOn then some ⟨ctx.defenderSide, ctx.delay⟩ else none
    outcome := summary.outcome
    next := ctx.defenderSide
    logs := ← lines ctx summary attack defense }

end Attack

end Duel
