import Duel.Clock.Advance

namespace Duel.Clock

inductive Command (R : Type)
  | schedule (name : String) (delay : R) (job : List (Command R))
  /-- Cancels the latest timer of a name. -/
  | cancel (name : String)
  | advance (ms : R)
  | runAll (limit : Nat)
  deriving Repr

structure Fired (R : Type) where
  name : String
  now : R
  pending : Nat
  deriving Repr

structure Job (R : Type) where
  name : String
  commands : List (Command R)

/-- What the commands keep in mind: the timers by name, and those that went off. -/
structure Record (R : Type) where
  handles : List (String × Nat) := []
  fired : List (Fired R) := []

/-- A name that no timer was set under. -/
structure Unknown where
  name : String
  deriving DecidableEq, Repr

abbrev Script (R : Type) := Timed R (Job R) (Record R)

mutual

/-- How many timers a command can set, its jobs included. -/
def Command.weight {R : Type} : Command R → Nat
  | .schedule _ _ job => 1 + weights job
  | .cancel _ | .advance _ | .runAll _ => 0

def weights {R : Type} : List (Command R) → Nat
  | [] => 0
  | c :: rest => c.weight + weights rest

end

namespace Script

variable {R : Type} [Scalar R]

/-- How many timers can still go off. -/
def weight (s : Script R) : Nat :=
  s.clock.timers.foldr (fun t n => 1 + weights t.job.commands + n) 0

def start (now : R) : Script R := ⟨{ now }, {}⟩

abbrev Work (R : Type) := Timed.Work Unknown R (Job R) (Record R)

def log (job : Job R) : Work R Unit :=
  modify fun s =>
    { s with state.fired := s.state.fired ++ [⟨job.name, s.clock.now, s.clock.pending⟩] }

def schedule (name : String) (delay : R) (job : List (Command R)) : Work R Unit := do
  let number ← Timed.schedule delay ⟨name, job⟩
  modify fun s => { s with state.handles := (name, number) :: s.state.handles }

def cancel (name : String) : Work R Unit := do
  let s ← get
  match s.state.handles.lookup name with
  | some number => Timed.setClock (s.clock.cancel number)
  | none => throw (.job ⟨name⟩)

def perform (fire : Job R → Work R Unit) (fuel : Nat) : Command R → Work R Unit
  | .schedule name delay job => schedule name delay job
  | .cancel name => cancel name
  | .advance ms => Timed.advance fire fuel ms
  | .runAll limit => Timed.runAll fire fuel limit

/-- Runs a job. Jobs that go off while it runs are one level down, which bounds how deep they
can go. -/
def fire : Nat → Job R → Work R Unit
  | 0, _ => return ()
  | level + 1, job => do
    log job
    job.commands.forM (perform (fire level) (level + 1))

/-- Carries out a command on its own. No more jobs can go off than there is weight. -/
def run (c : Command R) : Work R Unit := do
  let fuel := weight (← get) + c.weight + 1
  perform (fire fuel) fuel c

end Script

end Duel.Clock
