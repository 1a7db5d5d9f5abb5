import Duel.Proofs.Cue.Pending
import Duel.Proofs.Cue.Phases
import Duel.Proofs.Clock.Timers

namespace Duel.Cue

namespace Queue

theorem merges_ok {q : Queue Rat} {c : Cue Rat} {last : Rat} {key : String} {now : Rat} :
    ∃ b, q.merges c last key now = .ok b := by
  rw [merges]
  split
  · exact ⟨_, rfl⟩
  · exact ⟨_, rfl⟩

theorem receive_eq {R : Type} {q q' : Queue R} {c : Cue R} (h : q.receive c = some q') :
    ∃ pending, q' = { q with lastNumber := q.lastNumber + 1, pending } := by
  obtain ⟨pending, -, rfl⟩ := Option.map_eq_some_iff.mp h
  exact ⟨pending, rfl⟩

end Queue

namespace Desk

variable {R L : Type}

section

variable {d : Desk R L}

def callOff (d : Desk R L) (n : Nat) : Desk R L :=
  { clock := d.clock.cancel n
    state := { d.state with queue := { d.queue with timer := none } } }

def withActive (d : Desk R L) (a : Option (Active R)) : Desk R L :=
  { d with state.queue := { d.queue with active := a } }

def withLine (d : Desk R L) (pending : List (Queued R)) (number : Nat) : Desk R L :=
  { d with state.queue := { d.queue with pending, lastNumber := number } }

theorem cancelTimer_of_none (h : d.queue.timer = none) : cancelTimer d = .ok () d := by
  refine (get_bind _ d).trans ?_
  rw [h]
  rfl

theorem cancelTimer_of_some {n : Nat} (h : d.queue.timer = some n) :
    cancelTimer d = .ok () (d.callOff n) := by
  refine (get_bind _ d).trans ?_
  rw [h]
  rfl

theorem lastly_ends {f : Queue R → Queue R} {x : Work R L Unit} {Q : Unit → Desk R L → Prop}
    (h : Ends x d fun u (t : Desk R L) => Q u { t with state.queue := f t.state.queue }) :
    Ends (lastly f x) d Q := by
  obtain ⟨u, t, hx, hq⟩ := h
  refine ⟨u, { t with state.queue := f t.state.queue }, ?_, hq⟩
  rw [lastly, hx]

end

theorem reckon_of_ok {E J S α : Type} {x : Except Double.Fault α} {a : α} (h : x = .ok a)
    (t : Timed R J S) : (Timed.reckon x : Timed.Work E R J S α) t = .ok a t := by
  rw [h]
  rfl

theorem live_cancel {c : Clock Rat Job} {t : Timer Rat Job} (h : c.live = [t]) :
    (c.cancel t.number).live = [] := by
  refine List.filter_eq_nil_iff.mpr fun u hu hl => ?_
  simp only [Clock.isLive, Clock.cancel, List.contains_cons, Bool.not_or, Bool.and_eq_true,
    Bool.not_eq_true', beq_eq_false_iff_ne] at hl
  have hm : u ∈ c.live := List.mem_filter.mpr ⟨hu, by simpa [Clock.isLive] using hl.2⟩
  rw [h] at hm
  exact hl.1 (List.mem_singleton.mp hm ▸ rfl)

variable {d : Desk Rat L} {B : Prop} {s : Bool} {floor most : Nat} {time : Rat}
  {P : Active Rat → Prop} {T : Tell Rat L}

theorem Sound.withLine (h : d.Sound floor) (pending : List (Queued Rat)) (number : Nat) :
    (d.withLine pending number).Sound floor :=
  ⟨h.cancelled, h.length, h.above, h.ids⟩

variable [Listener Rat L]

theorem enqueue_rule {Q : Unit → Desk Rat L → Prop} {c : Cue Rat}
    (hm : ∀ a n t, d.active = some a →
      Ends (T (some { a with repeats := n, mergedAt := t }))
        (d.withActive (some { a with repeats := n, mergedAt := t })) Q)
    (hw : ∀ pending number, Q () (d.withLine pending number))
    (hs : ∀ pending number, Ends (startNext T) (d.withLine pending number) Q) :
    Ends (enqueue T c) d Q := by
  refine Ends.get ?_
  obtain hn | ⟨a, ha, he⟩ := d.queue.mergeActive_ok c.key d.clock.now
    fun _ _ => Queue.merges_ok
  · refine Ends.after (reckon_of_ok hn d) ?_
    obtain ⟨merged, hp⟩ := d.queue.mergePending_ok c.key d.clock.now d.queue.pending
      fun _ _ => Queue.merges_ok
    refine Ends.after (reckon_of_ok hp d) ?_
    cases merged with
    | some pending => exact ⟨_, _, rfl, hw pending d.queue.lastNumber⟩
    | none =>
      cases hr : d.queue.receive c with
      | none => exact ⟨_, _, rfl, hw d.queue.pending d.queue.lastNumber⟩
      | some q =>
        obtain ⟨pending, rfl⟩ := Queue.receive_eq hr
        exact hs _ _
  · exact Ends.after (reckon_of_ok he d) (Ends.modify (hm a _ _ ha))

def shownAs (d : Desk Rat L) (c : Queued Rat) : Active Rat :=
  { c.toCue with
    id := d.queue.lastId + 1, repeats := c.repeats, length := d.queue.length c.duration
    startedAt := d.clock.now, endsAt := d.clock.now + d.queue.length c.duration
    mergedAt := c.mergedAt }

def showing (d : Desk Rat L) (c : Queued Rat) (pending : List (Queued Rat)) : Desk Rat L :=
  { d with
    state.queue := { d.queue with
      lastId := d.queue.lastId + 1, active := some (d.shownAs c), pending, starting := true } }

def Leaves (a : Active Rat) (d : Desk Rat L) : Prop :=
  d.active = none ∨ d.queue.shows a = true

/-- Work that ends, and that keeps a desk as it is while a cue is being started, and else. -/
structure Keeps (B : Prop) (most : Nat) (x : Work Rat L Unit) : Prop where
  busy {time : Rat} {P : Active Rat → Prop} {floor : Nat} {d : Desk Rat L} (hP : Closed P)
    (h : d.Busy time P floor most) : Ends x d fun _ (t : Desk Rat L) => t.Busy time P floor most
  steady {floor : Nat} {d : Desk Rat L} (h : d.Steady B false floor most) :
    Ends x d fun _ (t : Desk Rat L) => t.Steady B false floor most

/-- What the desk relies on when it tells its listener of something. -/
structure Fair (B : Prop) (most : Nat) (T : Tell Rat L) : Prop where
  keeps (notice : Option (Active Rat)) : Keeps B most (T notice)
  leaves (hB : ¬B) {d : Desk Rat L} {c : Queued Rat} {pending : List (Queued Rat)}
    (hs : d.Sound 0) (hm : Listener.credit d.listener ≤ most) (hq : d.Quiet)
    (ha : d.active = none)
    (hf : Queue.takeFirst (Listener.defers d.listener) d.queue.pending = some (c, pending)) :
    Ends (T (some (d.shownAs c))) (d.showing c pending) fun _ (t : Desk Rat L) =>
      t.Leaves (d.shownAs c)

theorem Busy.withActive {P' : Active Rat → Prop} (h : d.Busy time P floor most)
    {a : Option (Active Rat)} (hi : ∀ b, a = some b → floor < b.id ∧ b.id ≤ d.queue.lastId)
    (hP : ∀ b, a = some b → P' b) : (d.withActive a).Busy time P' floor most :=
  ⟨⟨h.sound.cancelled, h.sound.length, h.sound.above, hi⟩, h.credit, h.phase, h.quiet, h.now,
    hP⟩

theorem Busy.withLine (h : d.Busy time P floor most) (pending : List (Queued Rat))
    (number : Nat) : (d.withLine pending number).Busy time P floor most :=
  ⟨h.sound.withLine pending number, h.credit, h.phase, h.quiet, h.now, h.shown⟩

theorem Busy.retire_ends (hT : Fair B most T) (h : d.Busy time P floor most) :
    Ends (retire T) d fun _ (t : Desk Rat L) => t.Busy time (fun _ => False) floor most := by
  have h : (d.withActive none).Busy time (fun _ => False) floor most :=
    h.withActive (by simp) (by simp)
  exact Ends.modify ((hT.keeps _).busy (fun _ _ _ hb => hb) h)

theorem Busy.startNext_ends (h : d.Busy time P floor most) :
    Ends (startNext T) d fun _ (t : Desk Rat L) => t.Busy time P floor most := by
  refine Ends.get ?_
  rw [h.phase]
  exact Ends.pure h

theorem Busy.enqueue_ends (hT : Fair B most T) (hP : Closed P) (h : d.Busy time P floor most)
    (c : Cue Rat) :
    Ends (enqueue T c) d fun _ (t : Desk Rat L) => t.Busy time P floor most := by
  refine enqueue_rule (fun a n t ha => (hT.keeps _).busy hP ?_) h.withLine
    fun pending number => (h.withLine pending number).startNext_ends
  refine h.withActive ?_ ?_
  · rintro b ⟨⟩
    exact h.sound.ids a ha
  · rintro b ⟨⟩
    exact hP a n t (h.shown a ha)

theorem Busy.interrupt_ends (hT : Fair B most T) (h : d.Busy time P floor most) :
    Ends (interrupt T) d fun _ (t : Desk Rat L) => t.Busy time P floor most := by
  refine Ends.get ?_
  cases ha : d.active.isNone with
  | true => exact Ends.pure h
  | false =>
    refine Ends.after (cancelTimer_of_none h.quiet.1) ?_
    refine (h.retire_ends hT).bind fun _ t ht => ?_
    exact ht.startNext_ends.mono fun _ _ hu => hu.mono (fun _ => False.elim) (Nat.le_refl _)

theorem Busy.clear_ends (hT : Fair B most T) (h : d.Busy time P floor most) :
    Ends (clear T) d fun _ (t : Desk Rat L) => t.Busy time P floor most := by
  refine Ends.after (cancelTimer_of_none h.quiet.1) (Ends.modify (Ends.get ?_))
  have h : (d.withLine [] d.queue.lastNumber).Busy time P floor most := h.withLine [] _
  split
  · exact (h.retire_ends hT).mono fun _ _ hu => hu.mono (fun _ => False.elim) (Nat.le_refl _)
  · exact Ends.pure h

theorem Busy.perform_ends (hT : Fair B most T) (hP : Closed P) (h : d.Busy time P floor most)
    {r : Request Rat} (hr : r.Inner) :
    Ends (perform T r) d fun _ (t : Desk Rat L) => t.Busy time P floor most := by
  cases hr with
  | enqueue c => exact h.enqueue_ends hT hP c
  | interrupt => exact h.interrupt_ends hT
  | clear => exact h.clear_ends hT
  | poke => exact h.startNext_ends
  | nothing => exact Ends.pure h

theorem cancelTimer_ends (h : d.Steady B s floor most) :
    Ends cancelTimer d fun _ (t : Desk Rat L) => t.Steady True s floor most ∧ t.Quiet := by
  by_cases hq : d.Quiet
  · exact ⟨_, _, cancelTimer_of_none hq.1, ⟨h.sound, h.credit, h.phase, .inr ⟨⟨⟩, hq⟩⟩, hq⟩
  · have hd : d.Due := h.due.resolve_right fun hb => hq hb.2
    cases ha : d.active with
    | none => exact absurd ((due_of_none ha).mp hd) hq
    | some a =>
      obtain ⟨⟨n, hn, hl, hlt⟩, -⟩ := (due_of_some ha).mp hd
      have hq' : (d.callOff n).Quiet := ⟨rfl, live_cancel hl⟩
      have hs : (d.callOff n).Sound floor := by
        refine ⟨fun m hm => ?_, h.sound.length, h.sound.above, h.sound.ids⟩
        rcases List.mem_cons.mp hm with rfl | hm
        · exact hlt
        · exact h.sound.cancelled m hm
      exact ⟨_, _, cancelTimer_of_some hn, ⟨hs, h.credit, h.phase, .inr ⟨⟨⟩, hq'⟩⟩, hq'⟩

end Desk

end Duel.Cue
