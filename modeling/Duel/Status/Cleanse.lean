import Duel.Stacks

namespace Duel

namespace Cleanse

structure Outcome where
  next : Stacks
  result : Result

def Rule.outcome (rule : Rule) (name : String) (roll current : Int) :
    Except Double.Fault Result := do
  let rolled := "(roll " ++ (← Number.digits roll) ++ ")"
  if rule.threshold ≤ roll then return ⟨true, 0, name ++ " cleanse success " ++ rolled⟩
  else return ⟨false, current, name ++ " cleanse failed " ++ rolled⟩

def Rule.roll (rule : Rule) (name : String) (roll current : Int) : Except Fault Result :=
  match rule.resolve with
  | some resolve => resolve roll current
  | none => (rule.outcome name roll current).mapError .number

end Cleanse

namespace Stacks

variable {R : Type}

/-- Rolls against the cleanse rule of a status; the event tells the roll. -/
def cleanse (held : Stacks) (id : String) (roll : Int) (reg : Registry R)
    (owner : Option String) : Work (Option Cleanse.Outcome) :=
  match reg.get? id with
  | none => pure none
  | some status =>
    match status.cleanse with
    | none => pure none
    | some rule => do
      let result ← ofExcept (rule.roll status.name roll (held.count id))
      let next ← ExceptT.lift (held.assign id result.next reg
        (causeFor owner .cleanse none result.log))
      return some ⟨next, result⟩

end Stacks

end Duel
