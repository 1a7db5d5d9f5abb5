import Duel.Attack
import Duel.Buff.Grants
import Duel.Cue.Desk
import Duel.Dice.Roll
import Duel.Record
import Duel.Settings
import Duel.Status.Cleanse
import Duel.Status.Tick

namespace Duel

structure Sides (α : Type) where
  you : α
  ai : α
  deriving Repr

namespace Sides

variable {α : Type}

def get (s : Sides α) : Side → α
  | .you => s.you
  | .ai => s.ai

def set (s : Sides α) (side : Side) (a : α) : Sides α :=
  match side with
  | .you => { s with you := a }
  | .ai => { s with ai := a }

@[simp] theorem get_set_self (s : Sides α) (side : Side) (a : α) :
    (s.set side a).get side = a := by cases side <;> rfl

@[simp] theorem get_set_other (s : Sides α) (side : Side) (a : α) :
    (s.set side a).get side.other = s.get side.other := by cases side <;> rfl

end Sides

/-- Where cues are shown. In the pause between two turns they are held back. -/
structure Stage (R : Type) where
  paused : Bool := false
  /-- All cues that were shown, repeats included. -/
  shown : List (Cue.Active R) := []

instance {R : Type} : Cue.Listener R (Stage R) where
  defers s _ := s.paused
  note s notice := { s with shown := s.shown ++ notice.toList }
  next _ _ _ := none
  credit _ := 0
  resume s := { s with paused := false }

/-- A match; its dice come from a generator of type `G`. -/
structure Match (R G : Type) where
  settings : Settings R
  registry : Registry R
  dice : G
  desk : Cue.Desk R (Stage R)
  players : Sides Player
  /-- The statuses that can be rolled off now. -/
  prompts : Sides (List Tick.Prompt) := ⟨[], []⟩
  buffs : List Buff := []
  /-- The formulas that were used so far. -/
  formulas : Formula.Cache := {}
  round : Int := 0
  /-- How many turns there were, this one included. -/
  turns : Nat := 0
  active : Side := .you
  winner : Option Side := none
  /-- The hit points of the active player before the tick. -/
  startHp : Int := 0
  /-- The damage of the tick. -/
  upkeep : Int := 0
  /-- A record of each turn, if they are kept. -/
  records : Option (List Record) := none
  /-- Every change of a status. -/
  history : List Event := []
  /-- What was told while the match played itself. -/
  trace : List String := []

namespace Match

variable {R G : Type}

abbrev Step (R G α : Type) := EStateM Fault (Match R G) α

def player (m : Match R G) (side : Side) : Player := m.players.get side

def turn (m : Match R G) : String := if m.turns = 0 then "" else "t" ++ toString m.turns

def isPaused (m : Match R G) : Bool := m.desk.listener.paused

def start [Scalar R] (settings : Settings R) (registry : Registry R) (dice : G)
    (heroes : Sides Hero) (keepsRecords : Bool) : Match R G where
  settings
  registry
  dice
  desk := ⟨{ now := Scalar.measured Scalar.zero },
    ⟨.empty settings.cueRoom (Scalar.ofInt settings.cueLength) (Scalar.ofInt settings.cueWindow),
      {}⟩⟩
  players := ⟨.fresh .you heroes.you, .fresh .ai heroes.ai⟩
  records := if keepsRecords then some [] else none

def tell {α : Type} (x : Traced α) : Step R G α := do
  modify fun m => { m with history := m.history ++ x.events }
  return x.value

def ofExcept {α : Type} : Except Fault α → Step R G α
  | .ok a => return a
  | .error fault => throw fault

/-- Works on stacks; what was told of before a failure is noted all the same. -/
def work {α : Type} (x : Stacks.Work α) : Step R G α := do ofExcept (← tell x.run)

def digits (n : Int) : Step R G String := ofExcept ((Number.digits n).mapError .number)

/-- Plays by rules that can fail; what happened before that is noted all the same. -/
def play {α : Type} (x : Defense.Play α) : Step R G α := do
  let (result, formulas) ← tell (x.run.run (← get).formulas)
  modify fun m => { m with formulas }
  ofExcept result

def setPlayer (side : Side) (p : Player) : Step R G Unit :=
  modify fun m => { m with players := m.players.set side p }

def setStatuses (side : Side) (held : Stacks) : Step R G Unit :=
  modify fun m =>
    { m with players := m.players.set side { m.player side with statuses := held } }

def rollDie [Dice.Source G] : Step R G Int :=
  modifyGet fun m =>
    let (n, dice) := Dice.roll m.dice
    (n, { m with dice })

def faultOf : Clock.Fault Field.Invalid → Fault
  | .number cause => .number cause
  | .job cause => .invalid cause

def atDesk (x : Cue.Desk.Work R (Stage R) Unit) : Step R G Unit := fun m =>
  match x m.desk with
  | .ok a desk => .ok a { m with desk }
  | .error fault desk => .error (faultOf fault) { m with desk }

def ask [Scalar R] (r : Cue.Request R) : Step R G Unit := atDesk (Cue.Desk.run r)

def announce [Scalar R] (key : String) (cue : Cue R) : Step R G Unit := do
  let length := (← get).settings.lengthOf key
  let length ← ofExcept (((Cue.measure "duration_ms" length).mapError
    (Field.Invalid.mk Cue.formTitle)).mapError Fault.invalid)
  ask (.enqueue { cue with duration := some length })

def useBuff (moment : Buff.Moment) (b : Buff) : Step R G String := do
  let m ← get
  setStatuses b.owner (← tell (b.apply (m.player b.owner).statuses m.registry))
  return "[Buff] " ++ b.owner.name ++ " gains " ++ b.status ++ " +" ++ toString b.count ++
    " (" ++ moment.name ++ ")"

def expiryLine (b : Buff) (why : Buff.Ending) : String :=
  "[Buff] " ++ b.status ++ " for " ++ b.owner.name ++ " expired: " ++ why.text

/-- Lets the buffs know of a moment: some are used, some expire and the others stay. The moment
can be nobody's. -/
def trigger (moment : Buff.Moment) (owner : Option Side) : Step R G (List String) := do
  let m ← get
  let parts := Buff.Partition.ofTrigger m.buffs ⟨moment, owner, m.turn, m.round⟩
  let gains ← parts.ready.mapM (useBuff moment)
  modify fun m => { m with buffs := parts.pending }
  return gains ++ parts.expired.map fun (b, why) => expiryLine b why

def grant (side : Side) (id : String) (n : Int) (ability : Combo) : Step R G Unit := do
  let m ← get
  setStatuses side (← tell ((m.player side).statuses.add id n m.registry (some {
    kind := .grant, owner := side.name
    source := .ofList [("ability", .text ability.name)] })))

def keep (r : Record) : Step R G Unit :=
  modify fun m => { m with records := m.records.map (· ++ [r]) }

def keepUpkeep (side : Side) (outcome : Attack.Outcome) : Step R G Unit := do
  let m ← get
  keep {
    round := m.round, turn := m.turn, attacker := side, defender := side.other
    damage := { tick := m.upkeep }
    attackerChange := (m.player side).hp - m.startHp
    outcome := outcome.name }

end Match

end Duel
