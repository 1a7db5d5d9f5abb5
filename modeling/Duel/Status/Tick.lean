import Duel.Stacks

namespace Duel

namespace Tick

/-- A status that can be rolled off now. -/
structure Prompt where
  id : String
  count : Int
  deriving DecidableEq, Repr

structure Outcome where
  next : Stacks
  damage : Int
  logs : List String
  prompts : List Prompt

end Tick

namespace Status

variable {R : Type} [Scalar R]

def tick (s : Status R) (n : Int) : Except Fault (Option Tick.Result) :=
  firstAnswer (s.onTick.elim (.ok none) fun hook => hook n)
    (s.behavior.elim (.ok none) fun b => (b.tick s.name n).mapError .number)

end Status

namespace Tick.Outcome

variable {R : Type}

/-- Enters the result of one status. A prompt needs stacks that are left. -/
def enter (o : Outcome) (reg : Registry R) (owner : Option String) (id : String) (r : Result) :
    Traced Outcome := do
  let next ← o.next.assign id r.next reg (Stacks.causeFor owner .tick "upkeep" none)
  let left := next.count id
  return {
    next
    damage := o.damage + max 0 r.damage
    logs := o.logs ++ (Event.spoken r.log).toList
    prompts := if r.prompt && decide (0 < left) then o.prompts ++ [⟨id, left⟩] else o.prompts }

end Tick.Outcome

namespace Stacks

variable {R : Type} [Scalar R]

def tickEntry (reg : Registry R) (owner : Option String) (o : Tick.Outcome) (e : String × Int) :
    Work Tick.Outcome :=
  match reg.get? e.1 with
  | none => pure o
  | some status => do
    match ← ofExcept (status.tick e.2) with
    | none => return o
    | some r => ExceptT.lift (o.enter reg owner e.1 r)

/-- Every status that is there ticks once, in the order of the stacks. -/
def tick (held : Stacks) (reg : Registry R) (owner : Option String) :
    Work Tick.Outcome :=
  held.entries.foldlM (tickEntry reg owner) ⟨held, 0, [], []⟩

end Stacks

end Duel
