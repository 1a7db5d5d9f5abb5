import Duel.Status.Registry

namespace Duel

abbrev Stacks := Ledger Int

namespace Stacks

abbrev Work (α : Type) := ExceptT Fault Traced α

def ofExcept {α : Type} (x : Except Fault α) : Work α := ExceptT.mk (pure x)

variable {R : Type}

def count (held : Stacks) (id : String) : Int := (held.get? id).getD 0

def write (held : Stacks) (id : String) (n : Int) : Stacks :=
  if n ≤ 0 then held.erase id else held.put id n

/-- Sets a count, as far as the status allows. Nothing happens where there is nothing to remove. -/
def assign (held : Stacks) (id : String) (n : Int) (reg : Registry R) (cause : Option Cause) :
    Traced Stacks :=
  if n ≤ 0 ∧ !held.has id then pure held
  else
    let after := Status.clamp (reg.get? id) n
    ⟨held.write id after, Event.ofChange cause id (held.count id) after⟩

def add (held : Stacks) (id : String) (amount : Int) (reg : Registry R) (cause : Option Cause) :
    Traced Stacks :=
  if amount = 0 then pure held
  else
    let before := held.count id
    let after := Status.clamp (reg.get? id) (before + amount)
    ⟨held.write id after, Event.ofChange cause id before after⟩

def causeFor (owner : Option String) (kind : Event.Kind) (phase note : Option String) :
    Option Cause :=
  (Event.spoken owner).map fun o => { kind, owner := some o, phase, note }

end Stacks

end Duel
