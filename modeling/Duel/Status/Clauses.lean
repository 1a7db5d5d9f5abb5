import Duel.Status.Draft

namespace Duel

namespace Spend

/-- What spending brings in a phase, for rolls and damage from some size on. -/
structure Clause (R : Type) where
  phase : Option String := none
  leastRoll : Option Int := none
  leastDamage : Option Int := none
  result : Option (Result R)

/-- What is not known counts as nought. -/
def Clause.fits {R : Type} (c : Clause R) (ctx : Context) : Bool :=
  let reaches (n least : Option Int) : Bool := least.all fun k => decide (k ≤ n.getD 0)
  c.phase.all (· == ctx.phase.name) && reaches ctx.roll c.leastRoll &&
    reaches ctx.damage c.leastDamage

def byClauses {R : Type} (clauses : List (Clause R)) (ctx : Context) :
    Except Fault (Option (Result R)) :=
  .ok ((clauses.find? (·.fits ctx)).bind (·.result))

/-- What becomes known for each of several attempts; where a list ends, what was known before stays
so. -/
structure Attempts where
  rolls : List (Option Int) := []
  damages : List (Option Int) := []
  blocks : List (Option Int) := []

def Attempts.context (a : Attempts) (i : Nat) (ctx : Context) : Context :=
  { ctx with
    roll := a.rolls.getD i ctx.roll
    damage := a.damages.getD i ctx.damage
    block := a.blocks.getD i ctx.block }

end Spend

namespace Tick

structure Clause where
  least : Int := 0
  /-- What the stacks come to, if it is not some of them that are lost. -/
  next : Option Int := none
  loss : Int := 0
  damage : Int := 0
  log : Option String := none
  prompt : Bool := false
  /-- Whether nothing happens at all. -/
  silent : Bool := false

def Clause.result (c : Clause) (n : Int) : Option Result :=
  if c.silent then none
  else some {
    next := c.next.getD (n - c.loss), damage := c.damage, log := c.log, prompt := c.prompt }

def byClauses (clauses : List Clause) (n : Int) : Except Fault (Option Result) :=
  .ok ((clauses.find? fun c => decide (c.least ≤ n)).bind (·.result n))

end Tick

namespace Modifier

structure Shift where
  silent : Bool := false
  stance : Option String := none
  perStack : Bool := false
  damage : Option Int := none
  block : Option Int := none
  /-- What is said before the numbers that the shift starts from. -/
  log : Option String := none

def Shift.line (count : Int) (ctx : Context) (said : String) : Formula.Kept String := do
  let part (name : String) (n : Int) : Formula.Kept String :=
    return " " ++ name ++ "=" ++ (← Formula.Kept.ofOutcome (Formula.Store.wholeText n))
  if said.isEmpty then return said
  else return said ++ (← part "damage" ctx.damage) ++ (← part "block" ctx.block) ++
    (← part "stacks" count)

def Shift.apply (s : Shift) (count : Int) (ctx : Context) : Formula.Kept (Option Result) := do
  if s.silent || s.stance.any (· != ctx.stance.name) then return none
  else
    let times := if s.perStack then count else 1
    return some {
      damage := s.damage.map fun n => ctx.damage + n * times
      block := s.block.map fun n => ctx.block + n * times
      log := ← s.log.mapM (Shift.line count ctx) }

end Modifier

namespace Cleanse

/-- Rolls from some size on succeed; stacks are lost either way. -/
structure Odds where
  threshold : Int
  loss : Int
  lossOnFailure : Int := 0
  log : String

def Odds.roll (o : Odds) (roll current : Int) : Except Fault Result :=
  let success := decide (o.threshold ≤ roll)
  .ok ⟨success, current - (if success then o.loss else o.lossOnFailure), o.log⟩

end Cleanse

end Duel
