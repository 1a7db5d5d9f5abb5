import Duel.Proofs.Cue.Inner

namespace Duel.Cue

theorem Queue.length_nonneg {q : Queue Rat} (h : 0 ≤ q.defaultLength) (given : Option Rat) :
    0 ≤ q.length given := by
  unfold length
  split
  · split
    · rename_i x hx
      have hx : Scalar.less x Scalar.zero = false := by
        simpa using (Bool.and_eq_true_iff.mp hx).2
      have hx : ¬ x < 0 := of_decide_eq_false hx
      grind
    · exact h
  · exact h

namespace Desk

variable {L : Type} {d : Desk Rat L} {T : Tell Rat L}

def keep (T : Tell Rat L) (a : Active Rat) : Work Rat L Unit := do
  if !(← desk).queue.shows a then return ()
  if Scalar.atMost a.length Scalar.zero && Scalar.atMost Scalar.zero a.length then retire T
  else await a.length a

def withPhase (d : Desk Rat L) (starting : Bool) : Desk Rat L :=
  { d with state.queue := { d.queue with starting } }

theorem Sound.withPhase {floor : Nat} (h : d.Sound floor) (s : Bool) :
    (d.withPhase s).Sound floor :=
  ⟨h.cancelled, h.length, h.above, h.ids⟩

theorem present_eq (c : Queued Rat) (pending : List (Queued Rat))
    (h : d.queue.starting = true) :
    present T c (d.withLine pending d.queue.lastNumber) =
      (do T (some (d.shownAs c)); keep T (d.shownAs c)) (d.showing c pending) := by
  rw [showing, ← h]
  rfl

theorem present_of_lost {c : Queued Rat} {pending : List (Queued Rat)} {t : Desk Rat L}
    (h : d.queue.starting = true) (ht : T (some (d.shownAs c)) (d.showing c pending) = .ok () t)
    (hs : t.queue.shows (d.shownAs c) = false) :
    present T c (d.withLine pending d.queue.lastNumber) = .ok () t := by
  rw [present_eq c pending h]
  refine (bind_of_ok ht _).trans ((get_bind _ t).trans ?_)
  rw [hs]
  rfl

def awaiting (d : Desk Rat L) (a : Active Rat) : Desk Rat L :=
  { clock := { d.clock with
      timers := d.clock.timers ++
        [⟨d.clock.now + Scalar.positivePart a.length, d.clock.next, .finish a.id⟩]
      next := d.clock.next + 1 }
    state := { d.state with queue := { d.queue with timer := some d.clock.next } } }

theorem await_eq (a : Active Rat) : await a.length a d = .ok () (d.awaiting a) :=
  rfl

theorem live_awaiting (a : Active Rat) (hc : ∀ n ∈ d.clock.cancelled, n < d.clock.next) :
    (d.awaiting a).clock.live = d.clock.live ++
      [⟨d.clock.now + Scalar.positivePart a.length, d.clock.next, .finish a.id⟩] := by
  refine (List.filter_append ..).trans (congrArg _ ?_)
  refine List.filter_eq_self.mpr fun t ht => ?_
  obtain rfl := List.mem_singleton.mp ht
  have hn : d.clock.next ∉ d.clock.cancelled := fun hm => Nat.lt_irrefl _ (hc _ hm)
  simpa [Clock.isLive, awaiting] using hn

variable [Listener Rat L] {B : Prop} {floor most : Nat} {time : Rat} {a : Active Rat}

def Same (a b : Active Rat) : Prop :=
  b.id = a.id ∧ b.endsAt = a.endsAt ∧ b.length = a.length

theorem await_ends (h : d.Busy time (Same a) floor most) {b : Active Rat} (hb : d.active = some b)
    (he : a.endsAt = time + a.length) (hl : 0 < a.length) :
    Ends (await a.length a) d fun _ (t : Desk Rat L) => t.Steady B true floor most := by
  obtain ⟨hid, hend, hlen⟩ := h.shown b hb
  have hlive : (d.awaiting a).clock.live = [⟨b.endsAt, d.clock.next, .finish b.id⟩] := by
    rw [live_awaiting a h.sound.cancelled, h.quiet.2, List.nil_append,
      Clock.positivePart_of_nonneg (Rat.le_of_lt hl), h.now, ← he, hend, hid]
  have hw : (d.awaiting a).Awaits b := ⟨d.clock.next, rfl, hlive, Nat.lt_succ_self _⟩
  have hdue : (d.awaiting a).Due := (due_of_some (d := d.awaiting a) hb).mpr ⟨hw, hlen ▸ hl⟩
  refine ⟨_, _, await_eq a, ⟨?_, h.sound.length, h.sound.above, h.sound.ids⟩, h.credit, h.phase,
    .inl hdue⟩
  exact fun n hn => Nat.lt_succ_of_lt (h.sound.cancelled n hn)

theorem keep_ends (hT : Fair B most T) (h : d.Busy time (Same a) floor most)
    (he : a.endsAt = time + a.length) (hl : 0 ≤ a.length) (ha : ¬B → d.Leaves a) :
    Ends (keep T a) d fun _ (t : Desk Rat L) => t.Steady B true floor most := by
  have hlost (hs : d.queue.shows a = false) : d.Due ∨ (B ∧ d.Quiet) := by
    by_cases hB : B
    · exact .inr ⟨hB, h.quiet⟩
    · have hn : d.active = none := (ha hB).resolve_right (by simp [hs])
      exact .inl ((due_of_none hn).mpr h.quiet)
  refine Ends.get ?_
  cases hs : d.queue.shows a with
  | false => exact Ends.pure ⟨h.sound, h.credit, h.phase, hlost hs⟩
  | true =>
    obtain ⟨b, hb, -⟩ := (Option.any_eq_true _ _).mp hs
    by_cases hz : a.length = 0
    · rw [hz]
      refine (h.retire_ends hT).mono fun _ (t : Desk Rat L) ht => ?_
      have hn : t.active = none := Option.eq_none_iff_forall_ne_some.mpr fun b hb => ht.shown b hb
      exact ⟨ht.sound, ht.credit, ht.phase, .inl ((due_of_none hn).mpr ht.quiet)⟩
    · have hl : 0 < a.length := by grind
      have hc : Scalar.atMost a.length Scalar.zero = false :=
        decide_eq_false (Rat.not_le.mpr hl)
      rw [hc, Bool.false_and]
      exact await_ends h hb he hl

theorem Steady.showing {s : Bool} (h : d.Steady B s floor most) (ha : d.active = none)
    (c : Queued Rat) (pending : List (Queued Rat)) :
    (d.showing c pending).Busy d.clock.now (Same (d.shownAs c)) floor most := by
  have hq : d.Quiet := quiet_of_none h.due ha
  refine ⟨⟨h.sound.cancelled, h.sound.length, ?_, ?_⟩, h.credit, rfl, hq, rfl, ?_⟩
  · exact Nat.le_succ_of_le h.sound.above
  · rintro b ⟨⟩
    exact ⟨Nat.lt_succ_of_le h.sound.above, Nat.le_refl _⟩
  · rintro b ⟨⟩
    exact ⟨rfl, rfl, rfl⟩

theorem same_closed (a : Active Rat) : Closed (Same a) :=
  fun _ _ _ h => h

theorem present_ends (hT : Fair B most T) (h : d.Steady B true floor most)
    (ha : d.active = none) {c : Queued Rat} {pending : List (Queued Rat)}
    (hf : Queue.takeFirst (Listener.defers d.listener) d.queue.pending = some (c, pending)) :
    Ends (present T c) (d.withLine pending d.queue.lastNumber) fun _ (t : Desk Rat L) =>
      t.Steady B true floor most := by
  have hl : 0 ≤ (d.shownAs c).length := Queue.length_nonneg h.sound.length _
  obtain ⟨_, t, ht, hb⟩ :=
    (hT.keeps (some (d.shownAs c))).busy (same_closed _) (h.showing ha c pending)
  rw [Ends, present_eq c pending h.phase]
  refine Ends.after ht (keep_ends hT hb rfl hl fun hB => ?_)
  have hs : d.Sound 0 := h.sound.mono (Nat.zero_le _)
  exact (hT.leaves hB hs h.credit (quiet_of_none h.due ha) ha hf).of_ok ht

theorem startLoop_of_active (h : d.active.isSome = true) (fuel : Nat) :
    startLoop T fuel d = .ok () d := by
  cases fuel with
  | zero => rfl
  | succ fuel =>
    refine (get_bind _ d).trans ?_
    rw [if_pos h]
    rfl

theorem startLoop_of_takeFirst (ha : d.active = none) {c : Queued Rat}
    {pending : List (Queued Rat)}
    (hf : Queue.takeFirst (Listener.defers d.listener) d.queue.pending = some (c, pending))
    (fuel : Nat) :
    startLoop T (fuel + 1) d =
      (do present T c; startLoop T fuel) (d.withLine pending d.queue.lastNumber) := by
  refine (get_bind _ d).trans ?_
  rw [if_neg (by simp [ha]), hf]
  rfl

theorem startLoop_ends (hT : Fair B most T) (fuel : Nat) (h : d.Steady B true floor most) :
    Ends (startLoop T fuel) d fun _ (t : Desk Rat L) => t.Steady B true floor most := by
  induction fuel generalizing d with
  | zero => exact Ends.pure h
  | succ fuel ih =>
    cases ha : d.active with
    | some a => exact ⟨_, _, startLoop_of_active (by rw [ha]; rfl) _, h⟩
    | none =>
      cases hf : Queue.takeFirst (Listener.defers d.listener) d.queue.pending with
      | none =>
        refine Ends.get ?_
        rw [if_neg (by simp [ha]), hf]
        exact Ends.pure h
      | some p =>
        obtain ⟨c, pending⟩ := p
        rw [Ends, startLoop_of_takeFirst ha hf]
        exact (present_ends hT h ha hf).bind fun _ t ht => ih ht

theorem Steady.withPhase {s : Bool} (h : d.Steady B s floor most) (s' : Bool) :
    (d.withPhase s').Steady B s' floor most :=
  ⟨h.sound.withPhase s', h.credit, rfl, h.due⟩

theorem Steady.startNext_ends (hT : Fair B most T) (h : d.Steady B false floor most) :
    Ends (startNext T) d fun _ (t : Desk Rat L) => t.Steady B false floor most := by
  refine Ends.get ?_
  rw [h.phase]
  refine Ends.modify (lastly_ends ?_)
  exact (startLoop_ends hT _ (h.withPhase true)).mono fun _ _ ht => ht.withPhase false

variable {s : Bool} {floor' : Nat}

theorem Steady.withLine (h : d.Steady B s floor most) (pending : List (Queued Rat))
    (number : Nat) : (d.withLine pending number).Steady B s floor most :=
  ⟨h.sound.withLine pending number, h.credit, h.phase, h.due⟩

theorem Steady.withNone (h : d.Steady True s floor most) (hq : d.Quiet)
    (hf : floor' ≤ d.queue.lastId) : (d.withActive none).Steady B s floor' most :=
  ⟨⟨h.sound.cancelled, h.sound.length, hf, by rintro _ ⟨⟩⟩, h.credit, h.phase, .inl hq⟩

theorem Steady.retire_ends (hT : Fair B most T)
    (h : (d.withActive none).Steady B false floor most) :
    Ends (retire T) d fun _ (t : Desk Rat L) => t.Steady B false floor most :=
  Ends.modify ((hT.keeps none).steady h)

theorem Steady.enqueue_ends (hT : Fair B most T) (h : d.Steady B false floor most) (c : Cue Rat) :
    Ends (enqueue T c) d fun _ (t : Desk Rat L) => t.Steady B false floor most := by
  refine enqueue_rule (fun b n time hb => (hT.keeps _).steady ?_) h.withLine
    fun pending number => (h.withLine pending number).startNext_ends hT
  refine ⟨⟨h.sound.cancelled, h.sound.length, h.sound.above, ?_⟩, h.credit, h.phase, ?_⟩
  · rintro _ ⟨⟩
    exact h.sound.ids b hb
  · exact h.due.imp_left (due_of_some hb).mp

theorem Steady.interrupt_ends (hT : Fair B most T) (h : d.Steady B false floor most) :
    Ends (interrupt T) d fun _ (t : Desk Rat L) => t.Steady B false floor most := by
  refine Ends.get ?_
  cases ha : d.active.isNone with
  | true => exact Ends.pure h
  | false =>
    refine (cancelTimer_ends h).bind fun _ t ⟨ht, hq⟩ => ?_
    refine ((ht.withNone hq ht.sound.above).retire_ends hT).bind fun _ u hu => ?_
    exact hu.startNext_ends hT

theorem Steady.clear_ends (hT : Fair B most T) (h : d.Steady B false floor most) :
    Ends (clear T) d fun _ (t : Desk Rat L) => t.Steady B false floor most := by
  refine (cancelTimer_ends h).bind fun _ (t : Desk Rat L) ⟨ht, hq⟩ => Ends.modify (Ends.get ?_)
  have ht : (t.withLine [] t.queue.lastNumber).Steady True false floor most := ht.withLine [] _
  split
  · exact (ht.withNone hq ht.sound.above).retire_ends hT
  · rename_i hs
    have hn : t.active = none := Option.not_isSome_iff_eq_none.mp hs
    exact Ends.pure ⟨ht.sound, ht.credit, ht.phase, .inl ((due_of_none hn).mpr hq)⟩

theorem Steady.perform_ends (hT : Fair B most T) (h : d.Steady B false floor most)
    {r : Request Rat} (hr : r.Inner) :
    Ends (perform T r) d fun _ (t : Desk Rat L) => t.Steady B false floor most := by
  cases hr with
  | enqueue c => exact h.enqueue_ends hT c
  | interrupt => exact h.interrupt_ends hT
  | clear => exact h.clear_ends hT
  | poke => exact h.startNext_ends hT
  | nothing => exact Ends.pure h

theorem perform_keeps (hT : Fair B most T) {r : Request Rat} (hr : r.Inner) :
    Keeps B most (perform T r) where
  busy hP h := h.perform_ends hT hP hr
  steady h := h.perform_ends hT hr

theorem finish_ends (hT : Fair B most T) (hs : d.Sound floor)
    (hm : Listener.credit d.listener ≤ most) (hp : d.queue.starting = false)
    (hl : d.clock.live = []) (ha : d.active = some a) :
    Ends (finish T a.id) d fun _ (t : Desk Rat L) => t.Steady B false a.id most := by
  have hany : d.active.any (·.id == a.id) = true := by simp [ha]
  refine Ends.get ?_
  rw [if_pos hany]
  refine Ends.modify ((Steady.retire_ends hT ?_).bind fun _ u hu => hu.startNext_ends hT)
  exact ⟨⟨hs.cancelled, hs.length, (hs.ids a ha).2, by rintro _ ⟨⟩⟩, hm, hp, .inl ⟨rfl, hl⟩⟩

theorem drain_nil {c : Clock Rat Job} (h : c.live = []) (limit : Rat) :
    c.drain limit = ([], { c with timers := [] }) := by
  simp [Clock.drain, h]

theorem drain_due {c : Clock Rat Job} {t : Timer Rat Job} (h : c.live = [t]) {limit : Rat}
    (ht : t.due ≤ limit) : c.drain limit = ([t], { c with timers := [] }) := by
  simp [Clock.drain, h, Scalar.atMost, ht]

theorem drain_later {c : Clock Rat Job} {t : Timer Rat Job} (h : c.live = [t]) {limit : Rat}
    (ht : limit < t.due) : c.drain limit = ([], { c with timers := [t] }) := by
  simp [Clock.drain, h, Scalar.atMost, Rat.not_le.mpr ht]

omit [Listener Rat L] in
theorem Sound.withClock (h : d.Sound floor) {c : Clock Rat Job} (hn : c.next = d.clock.next)
    (hk : c.cancelled = d.clock.cancelled) : Sound floor (d.withClock c) :=
  ⟨hk ▸ hn ▸ h.cancelled, h.length, h.above, h.ids⟩

theorem Steady.withClock (h : d.Steady B s floor most) {c : Clock Rat Job}
    (hl : c.live = d.clock.live) (hn : c.next = d.clock.next)
    (hk : c.cancelled = d.clock.cancelled) : Steady B s floor most (d.withClock c) := by
  refine ⟨h.sound.withClock hn hk, h.credit, h.phase, ?_⟩
  have hd := h.due
  simp only [Due, Quiet, Awaits, ← hl, ← hn] at hd
  exact hd

theorem mem_live {c : Clock Rat Job} {t : Timer Rat Job} (h : c.live = [t]) :
    c.isLive t = true :=
  (List.mem_filter.mp (h ▸ List.mem_singleton_self t : t ∈ c.live)).2

theorem drainAll_stops {limit : Rat} (hl : d.clock.live = [] ∨
      ∃ t, d.clock.live = [t] ∧ limit < t.due) (fuel : Nat) {Q : Unit → Desk Rat L → Prop}
    (hQ : ∀ c : Clock Rat Job, c.live = d.clock.live → c.next = d.clock.next →
      c.cancelled = d.clock.cancelled → c.now = d.clock.now → Q () (d.withClock c)) :
    Ends (Timed.drainAll (fire T) limit (fuel + 1)) d Q := by
  rw [Timed.drainAll]
  refine Ends.get ?_
  obtain hl | ⟨t, hl, ht⟩ := hl
  · rw [drain_nil hl]
    exact Ends.modify (Ends.pure (hQ _ hl.symm rfl rfl rfl))
  · rw [drain_later hl ht]
    have hlive : Clock.isLive { d.clock with timers := [t] } t = true :=
      (mem_live hl : d.clock.isLive t = true)
    refine Ends.modify (Ends.pure (hQ _ (Eq.trans ?_ hl.symm) rfl rfl rfl))
    exact List.filter_eq_self.mpr fun u hu => by rwa [List.mem_singleton.mp hu]

theorem drainAll_fires {t : Timer Rat Job} (hl : d.clock.live = [t]) {limit : Rat}
    (ht : t.due ≤ limit) {fuel : Nat} {M : Desk Rat L → Prop} {Q : Unit → Desk Rat L → Prop}
    (hf : Ends (fire T t.job)
      (d.withClock { d.clock with timers := [], now := Scalar.larger d.clock.now t.due })
      fun _ => M)
    (hQ : ∀ u, M u → Ends (Timed.drainAll (fire T) limit fuel) u Q) :
    Ends (Timed.drainAll (fire T) limit (fuel + 1)) d Q := by
  rw [Timed.drainAll]
  refine Ends.get ?_
  rw [drain_due hl ht]
  refine Ends.modify (Ends.bind (Q := fun _ => M) (Ends.get ?_) fun _ u => hQ u)
  have hlive : Clock.isLive { d.clock with timers := [] } t = true :=
    (mem_live hl : d.clock.isLive t = true)
  rw [if_pos hlive]
  exact Ends.modify (hf.bind fun _ _ hu => Ends.pure hu)

theorem drainAll_due (hT : Fair B most T) (h : d.Steady B false floor most)
    (ha : d.active = some a) (hw : d.Awaits a) {limit : Rat} (he : a.endsAt ≤ limit) {fuel : Nat}
    {Q : Unit → Desk Rat L → Prop}
    (hQ : ∀ t : Desk Rat L, t.Steady B false a.id most →
      Ends (Timed.drainAll (fire T) limit fuel) t Q) :
    Ends (Timed.drainAll (fire T) limit (fuel + 1)) d Q := by
  obtain ⟨n, -, hl, -⟩ := hw
  refine drainAll_fires hl he ?_ hQ
  exact finish_ends hT (h.sound.withClock rfl rfl) h.credit h.phase rfl ha

theorem drainAll_ends (hT : Fair B most T) (limit : Rat) (fuel : Nat)
    (h : d.Steady B false floor most) :
    Ends (Timed.drainAll (fire T) limit fuel) d fun _ (t : Desk Rat L) =>
      t.Steady B false floor most := by
  induction fuel generalizing d with
  | zero => exact Ends.pure h
  | succ fuel ih =>
    have hq (c : Clock Rat Job) (hc : c.live = d.clock.live) (hn : c.next = d.clock.next)
        (hk : c.cancelled = d.clock.cancelled) (_ : c.now = d.clock.now) :
        Steady B false floor most (d.withClock c) := h.withClock hc hn hk
    by_cases hl : d.clock.live = []
    · exact drainAll_stops (.inl hl) fuel hq
    · have hd : d.Due := h.due.resolve_right fun hb => hl hb.2.2
      cases ha : d.active with
      | none => exact absurd ((due_of_none ha).mp hd).2 hl
      | some a =>
        obtain ⟨hw, -⟩ := (due_of_some ha).mp hd
        by_cases he : a.endsAt ≤ limit
        · refine drainAll_due hT h ha hw he fun t ht => ih (ht.mono ?_ (Nat.le_refl _))
          exact Nat.le_of_lt (h.sound.ids a ha).1
        · obtain ⟨n, -, hl, -⟩ := hw
          exact drainAll_stops (.inr ⟨_, hl, Rat.not_le.mp he⟩) fuel hq

theorem advance_rule {fuel : Nat} {ms : Rat}
    (h : Ends (Timed.drainAll (fire T) (d.clock.now + Scalar.positivePart ms) fuel) d
      fun _ (t : Desk Rat L) => t.Steady B false floor most) :
    Ends (Timed.advance (fire T) fuel ms) d fun _ (t : Desk Rat L) =>
      t.Steady B false floor most := by
  refine Ends.get (Ends.after rfl (h.bind fun _ t ht => ?_))
  exact ⟨_, _, rfl, ht.withClock rfl rfl rfl⟩

theorem advance_ends (hT : Fair B most T) (h : d.Steady B false floor most) (fuel : Nat)
    (ms : Rat) :
    Ends (Timed.advance (fire T) fuel ms) d fun _ (t : Desk Rat L) =>
      t.Steady B false floor most :=
  advance_rule (drainAll_ends hT _ fuel h)

theorem advance_passes (hT : Fair B most T) (h : d.Steady B false floor most)
    (ha : d.active = some a) (hw : d.Awaits a) (fuel : Nat) {ms : Rat}
    (he : a.endsAt ≤ d.clock.now + Scalar.positivePart ms) :
    Ends (Timed.advance (fire T) (fuel + 1) ms) d fun _ (t : Desk Rat L) =>
      t.Steady B false a.id most :=
  advance_rule (drainAll_due hT h ha hw he fun _ ht => drainAll_ends hT _ fuel ht)

end Desk

end Duel.Cue
