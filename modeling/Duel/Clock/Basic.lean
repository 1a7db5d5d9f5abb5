import Duel.Number

namespace Duel

structure Timer (R J : Type) where
  due : R
  /-- Timers are numbered in the order in which they were set. -/
  number : Nat
  job : J
  deriving Repr

structure Clock (R J : Type) where
  now : R
  timers : List (Timer R J) := []
  next : Nat := 0
  cancelled : List Nat := []

namespace Timer

variable {R J : Type} [Scalar R]

/-- By due time, and then by number. -/
def atMost (a b : Timer R J) : Bool :=
  Scalar.less a.due b.due || (!Scalar.less b.due a.due && decide (a.number ≤ b.number))

end Timer

namespace Clock

variable {R J : Type}

def isLive (c : Clock R J) (t : Timer R J) : Bool := !c.cancelled.contains t.number

def live (c : Clock R J) : List (Timer R J) := c.timers.filter c.isLive

def pending (c : Clock R J) : Nat := c.live.length

def cancel (c : Clock R J) (number : Nat) : Clock R J :=
  { c with cancelled := number :: c.cancelled }

variable [Scalar R]

/-- Sets a timer; a delay below zero counts as none. The number of the timer cancels it. -/
def schedule (c : Clock R J) (delay : R) (job : J) : Except Double.Fault (Nat × Clock R J) := do
  let due ← Scalar.add c.now (Scalar.positivePart delay)
  return (c.next, { c with timers := c.timers ++ [⟨due, c.next, job⟩], next := c.next + 1 })

/-- Takes the timers that are due by a time off the clock, in the order in which they are due.
Those that were cancelled go too. -/
def drain (c : Clock R J) (limit : R) : List (Timer R J) × Clock R J :=
  let isDue (t : Timer R J) : Bool := Scalar.atMost t.due limit
  ((c.live.filter isDue).mergeSort Timer.atMost,
    { c with timers := c.live.filter (!isDue ·) })

end Clock

end Duel
