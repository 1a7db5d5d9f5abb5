import Duel.Clock.Basic

namespace Duel

/-- A clock together with what its jobs work on. -/
structure Timed (R J S : Type) where
  clock : Clock R J
  state : S

/-- Why work on a clock breaks off. -/
inductive Clock.Fault (E : Type)
  /-- A time cannot be reckoned. -/
  | number (cause : Double.Fault)
  /-- A job fails for a reason of its own. -/
  | job (cause : E)
  deriving DecidableEq, Repr

namespace Timed

variable {E R J S : Type}

abbrev Work (E R J S α : Type) := EStateM (Clock.Fault E) (Timed R J S) α

def reckon {α : Type} : Except Double.Fault α → Work E R J S α
  | .ok a => return a
  | .error fault => throw (.number fault)

def setClock (c : Clock R J) : Work E R J S Unit := modify fun s => { s with clock := c }

def setNow (now : R) : Work E R J S Unit := modify fun s => { s with clock.now := now }

variable [Scalar R]

def schedule (delay : R) (job : J) : Work E R J S Nat := do
  let (number, clock) ← reckon ((← get).clock.schedule delay job)
  setClock clock
  return number

/-- Runs the jobs of a batch, except for those that are cancelled by then. A job finds the clock
at its due time, or later if the clock has gone past it. -/
def fireAll (fire : J → Work E R J S Unit) : List (Timer R J) → Work E R J S Unit
  | [] => return ()
  | t :: rest => do
    let clock := (← get).clock
    if clock.isLive t then
      setNow (Scalar.larger clock.now t.due)
      fire t.job
    fireAll fire rest

def drainAll (fire : J → Work E R J S Unit) (limit : R) : Nat → Work E R J S Unit
  | 0 => return ()
  | fuel + 1 => do
    let (batch, clock) := (← get).clock.drain limit
    setClock clock
    if batch.isEmpty then return ()
    fireAll fire batch
    drainAll fire limit fuel

/-- Moves the clock on. Jobs may set timers that are due before the clock stops. -/
def advance (fire : J → Work E R J S Unit) (fuel : Nat) (ms : R) : Work E R J S Unit := do
  let target ← reckon (Scalar.add (← get).clock.now (Scalar.positivePart ms))
  drainAll fire target fuel
  setNow target

/-- Goes from timer to timer, at most `limit` times. -/
def runAll (fire : J → Work E R J S Unit) (fuel : Nat) : Nat → Work E R J S Unit
  | 0 => return ()
  | limit + 1 => do
    let clock := (← get).clock
    match Scalar.least? (clock.live.map (·.due)) with
    | none => return ()
    | some due =>
      advance fire fuel (← reckon (Scalar.sub due clock.now))
      runAll fire fuel limit

end Timed

end Duel
