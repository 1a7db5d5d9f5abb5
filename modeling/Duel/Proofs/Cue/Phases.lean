import Duel.Cue.Desk
import Duel.Proofs.Work

namespace Duel.Cue

/-- What a listener can ask for while it is told of something: all but to move the clock. -/
inductive Request.Inner {R : Type} : Request R → Prop
  | enqueue (c : Cue R) : Inner (.enqueue c)
  | interrupt : Inner .interrupt
  | clear : Inner .clear
  | poke : Inner .poke
  | nothing : Inner .nothing

/-- A listener whose credit pays for what it asks, and that leaves the clock alone. -/
structure Modest (L : Type) [Listener Rat L] : Prop where
  pays {l l' : L} {notice : Option (Active Rat)} {place after : Nat} {r : Request Rat}
    (h : Listener.next l notice place = some (r, after, l')) :
    Listener.credit l' < Listener.credit l
  notes (l : L) (notice : Option (Active Rat)) :
    Listener.credit (Listener.note l notice) ≤ Listener.credit l
  asks {l l' : L} {notice : Option (Active Rat)} {place after : Nat} {r : Request Rat}
    (h : Listener.next l notice place = some (r, after, l')) : r.Inner

namespace Desk

variable {L : Type}

/-- No timer can go off, and the queue knows of none. -/
def Quiet (d : Desk Rat L) : Prop :=
  d.queue.timer = none ∧ d.clock.live = []

/-- One timer can go off: the one for the end of this cue. -/
def Awaits (a : Active Rat) (d : Desk Rat L) : Prop :=
  ∃ n, d.queue.timer = some n ∧ d.clock.live = [⟨a.endsAt, n, .finish a.id⟩] ∧ n < d.clock.next

/-- A cue that is shown is to end, and nothing else is. -/
def Due (d : Desk Rat L) : Prop :=
  match d.active with
  | none => d.Quiet
  | some a => d.Awaits a ∧ 0 < a.length

/-- What holds at any time; all ids of cues are above `floor`. -/
structure Sound (floor : Nat) (d : Desk Rat L) : Prop where
  cancelled : ∀ n ∈ d.clock.cancelled, n < d.clock.next
  length : 0 ≤ d.queue.defaultLength
  above : floor ≤ d.queue.lastId
  ids : ∀ b, d.active = some b → floor < b.id ∧ b.id ≤ d.queue.lastId

variable {B : Prop} {floor floor' most most' : Nat} {time : Rat}
  {P P' : Active Rat → Prop} {d : Desk Rat L}

/-- At rest a cue that is shown has exactly one timer, for its end; and without one there is
none. -/
structure Settled (d : Desk Rat L) : Prop where
  sound : d.Sound 0
  phase : d.queue.starting = false
  due : d.Due

variable [Listener Rat L]

/-- What is shown is due to end or, if `B`, may be shown for ever. -/
structure Steady (B : Prop) (starting : Bool) (floor most : Nat) (d : Desk Rat L) : Prop where
  sound : d.Sound floor
  credit : Listener.credit d.listener ≤ most
  phase : d.queue.starting = starting
  due : d.Due ∨ (B ∧ d.Quiet)

/-- A cue is being started; it has no timer yet, or none any more. -/
structure Busy (time : Rat) (P : Active Rat → Prop) (floor most : Nat) (d : Desk Rat L) :
    Prop where
  sound : d.Sound floor
  credit : Listener.credit d.listener ≤ most
  phase : d.queue.starting = true
  quiet : d.Quiet
  now : d.clock.now = time
  shown : ∀ b, d.active = some b → P b

def Closed (P : Active Rat → Prop) : Prop :=
  ∀ b n t, P b → P { b with repeats := n, mergedAt := t }

omit [Listener Rat L] in
theorem due_of_none (h : d.active = none) : d.Due ↔ d.Quiet := by
  rw [Due, h]

omit [Listener Rat L] in
theorem due_of_some {a : Active Rat} (h : d.active = some a) :
    d.Due ↔ d.Awaits a ∧ 0 < a.length := by
  rw [Due, h]

omit [Listener Rat L] in
theorem quiet_of_none (h : d.Due ∨ (B ∧ d.Quiet)) (ha : d.active = none) : d.Quiet :=
  h.elim (due_of_none ha).mp (·.2)

omit [Listener Rat L] in
theorem Sound.mono (h : d.Sound floor) (hf : floor' ≤ floor) : d.Sound floor' :=
  ⟨h.cancelled, h.length, Nat.le_trans hf h.above,
    fun b hb => ⟨Nat.lt_of_le_of_lt hf (h.ids b hb).1, (h.ids b hb).2⟩⟩

theorem Steady.mono {s : Bool} (h : d.Steady B s floor most) (hf : floor' ≤ floor)
    (hm : most ≤ most') : d.Steady B s floor' most' :=
  ⟨h.sound.mono hf, Nat.le_trans h.credit hm, h.phase, h.due⟩

theorem Busy.mono (h : d.Busy time P floor most) (hP : ∀ b, P b → P' b) (hm : most ≤ most') :
    d.Busy time P' floor most' :=
  ⟨h.sound, Nat.le_trans h.credit hm, h.phase, h.quiet, h.now, fun b hb => hP b (h.shown b hb)⟩

end Desk

end Duel.Cue
