import Duel.Document
import Duel.Ledger

namespace Duel

/-- Why the count of a status changes. -/
inductive Event.Kind
  | grant
  | spend
  | tick
  | consume
  | expire
  | cleanse
  | other (name : String)
  deriving DecidableEq, Repr

namespace Event.Kind

def name : Kind → String
  | grant => "grant"
  | spend => "spend"
  | tick => "tick"
  | consume => "consume"
  | expire => "expire"
  | cleanse => "cleanse"
  | other name => name

def named : List (String × Kind) :=
  [grant, spend, tick, consume, expire, cleanse].map fun k => (k.name, k)

def ofName (name : String) : Kind := (named.lookup name).getD (other name)

end Event.Kind

structure Cause where
  kind : Event.Kind
  owner : Option String := none
  phase : Option String := none
  source : Ledger Document := .empty
  note : Option String := none

/-- A change of the count of one status. -/
structure Event extends Cause where
  status : String
  before : Int
  after : Int

namespace Event

def delta (e : Event) : Int := e.after - e.before

def spoken : Option String → Option String
  | some s => if s.isEmpty then none else some s
  | none => none

def line (e : Event) : Except Double.Fault String := do
  let sign := if 0 ≤ e.delta then "+" else ""
  let owner := match spoken e.owner with
    | some o => " (" ++ o ++ ")"
    | none => ""
  let note := match spoken e.note with
    | some n => ": " ++ n
    | none => ""
  return "[Status] " ++ e.kind.name ++ " " ++ e.status ++ " " ++ sign ++
    (← Number.digits e.delta) ++ " -> " ++ (← Number.digits e.after) ++ owner ++ note

/-- The event of a change, if there is a cause to tell of and anything changed. -/
def ofChange (cause : Option Cause) (status : String) (before after : Int) : List Event :=
  match cause with
  | none => []
  | some c => if before = after then [] else [{ c with status, before, after }]

end Event

/-- A value together with the events that led to it. -/
structure Traced (α : Type) where
  value : α
  events : List Event

namespace Traced

variable {α β : Type}

instance : Monad Traced where
  pure a := ⟨a, []⟩
  bind x f := ⟨(f x.value).value, x.events ++ (f x.value).events⟩

def tell (events : List Event) : Traced Unit := ⟨(), events⟩

@[simp] theorem value_pure (a : α) : (pure a : Traced α).value = a := rfl

@[simp] theorem events_pure (a : α) : (pure a : Traced α).events = [] := rfl

@[simp] theorem value_bind (x : Traced α) (f : α → Traced β) :
    (x >>= f).value = (f x.value).value := rfl

@[simp] theorem events_bind (x : Traced α) (f : α → Traced β) :
    (x >>= f).events = x.events ++ (f x.value).events := rfl

end Traced

end Duel
