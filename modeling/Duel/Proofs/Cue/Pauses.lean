import Duel.Proofs.Cue.Stirring
import Duel.Proofs.Double.Running

namespace Duel

open Scalar (Running)
open Scalar.Dated (atMost_trans)
open Scalar.Running (Reads atMost_refl)

variable {R J : Type} [Scalar R] {limit : R} {t : Timer R J} {batch : List (Timer R J)}

namespace Clock

variable {c c' : Clock R J}

theorem mem_drain (h : c.drain limit = (batch, c')) :
    t ∈ batch ↔ t ∈ c.live ∧ Scalar.atMost t.due limit = true := by
  obtain ⟨rfl, -⟩ := Prod.mk.inj h
  rw [List.mem_mergeSort, List.mem_filter]

theorem mem_drain_live (h : c.drain limit = (batch, c')) :
    t ∈ c'.live ↔ t ∈ c.live ∧ Scalar.atMost t.due limit = false := by
  obtain ⟨-, rfl⟩ := Prod.mk.inj h
  rw [live, List.mem_filter, List.mem_filter, Bool.not_eq_true']
  exact and_iff_left_of_imp fun ht => (List.mem_filter.mp ht.1).2

variable [Running R]

/-- The clock may have gone on, and timers may have been lost. -/
structure Passes (c c' : Clock R J) : Prop where
  now : Scalar.atMost c.now c'.now = true
  reads : Reads c'.now
  timers : ∀ t ∈ c'.timers, t ∈ c.timers
  next : c'.next = c.next
  cancelled : ∀ n ∈ c.cancelled, n ∈ c'.cancelled

theorem Passes.isLive (h : c.Passes c') (ht : c'.isLive t = true) : c.isLive t = true := by
  simp only [Clock.isLive, Bool.not_eq_true', List.contains_eq_mem, decide_eq_false_iff_not] at *
  exact fun hn => ht (h.cancelled _ hn)

theorem passes_cancel (h : Reads c.now) (n : Nat) : c.Passes (c.cancel n) :=
  ⟨atMost_refl h, h, fun _ ht => ht, rfl, fun _ hn => List.mem_cons_of_mem n hn⟩

theorem passes_now (hr : Reads limit) (h : Scalar.atMost c.now limit = true) :
    c.Passes { c with now := limit } :=
  ⟨h, hr, fun _ ht => ht, rfl, fun _ hn => hn⟩

theorem passes_drain (hr : Reads c.now) (h : c.drain limit = (batch, c')) : c.Passes c' := by
  obtain ⟨-, rfl⟩ := Prod.mk.inj h
  refine ⟨atMost_refl hr, hr, fun t ht => ?_, rfl, fun _ hn => hn⟩
  exact (List.mem_filter.mp (List.mem_filter.mp ht).1).1

end Clock

namespace Cue.Desk

variable {d e u : Desk R (Stage R)} {time bound ms target : R} {floor k fuel : Nat}
  {t : Timer R Job} {batch : List (Timer R Job)}

section

variable [Running R]

/-- What holds at a desk whenever nothing is being done there. -/
structure AtRest (floor : Nat) (d : Desk R (Stage R)) : Prop where
  starting : d.queue.starting = false
  room : 0 < d.queue.room
  above : floor ≤ d.queue.lastId
  ids : ∀ a ∈ d.showings, a.id ≤ d.queue.lastId
  keyed : d.Keyed
  reads : Reads d.clock.now
  dues : ∀ t ∈ d.clock.timers, Reads t.due

theorem AtRest.stirs (h : d.AtRest floor) (hs : d.Stirs u) : u.AtRest floor := by
  refine ⟨hs.starting.trans h.starting, hs.room ▸ h.room, Nat.le_trans h.above hs.lastId,
    fun a ha => ?_, hs.keyed h.keyed, hs.now ▸ h.reads, fun t ht => ?_⟩
  · obtain ⟨b, hb, hab⟩ | ⟨-, hi⟩ := hs.shows a ha
    · exact hab.1 ▸ Nat.le_trans (h.ids b hb) hs.lastId
    · exact hi
  · obtain ht | ⟨-, ms, hdue⟩ := hs.timers t ht
    · exact h.dues t ht
    · exact (Running.reads_add h.reads hdue).1

theorem AtRest.passes (h : d.AtRest floor) {c : Clock R Job} (hc : d.clock.Passes c) :
    AtRest floor (d.withClock c) := by
  refine ⟨h.starting, h.room, h.above, h.ids, ⟨fun t ht => ?_, fun n hn => ?_⟩, hc.reads,
    fun t ht => h.dues t (hc.timers t ht)⟩
  · exact hc.next.symm ▸ h.keyed.below t (hc.timers t ht)
  · obtain ⟨hlt, hfree⟩ := h.keyed.timer n hn
    exact ⟨hc.next.symm ▸ hlt, fun t ht => hfree t (hc.timers t ht)⟩

/-- From `time` on, and until `bound`, cues are held back; those that have been started since, with
ids above `floor`, have been started at `bound` or later. -/
structure Guarded (time bound : R) (floor : Nat) (d : Desk R (Stage R)) : Prop
    extends AtRest floor d where
  since : Scalar.atMost time d.clock.now = true
  held : Scalar.atMost bound d.clock.now = true ∨ d.listener.paused = true ∧
    ∀ t ∈ d.clock.timers, d.clock.isLive t = true → t.job = .resume →
      Scalar.atMost bound t.due = true
  late : ∀ a ∈ d.showings, floor < a.id → a.inTransition = false →
    Scalar.atMost bound a.startedAt = true

/-- At rest any time that has come serves as a bound. -/
theorem AtRest.guarded (h : d.AtRest floor) :
    d.Guarded d.clock.now d.clock.now d.queue.lastId where
  toAtRest := { h with above := Nat.le_refl _ }
  since := atMost_refl h.reads
  held := .inl (atMost_refl h.reads)
  late a ha hid := absurd (h.ids a ha) (Nat.not_le.mpr hid)

namespace Guarded

/-- No pause ends too early with these timers, which have been taken off the clock. -/
def Patient (bound : R) (batch : List (Timer R Job)) (d : Desk R (Stage R)) : Prop :=
  Scalar.atMost bound d.clock.now = true ∨
    ∀ t ∈ batch, t.job = .resume → Scalar.atMost bound t.due = true

theorem stirs (h : d.Guarded time bound floor) (hs : d.Stirs u) : u.Guarded time bound floor where
  toAtRest := h.toAtRest.stirs hs
  since := hs.now ▸ h.since
  held := by
    rw [hs.now, hs.paused]
    refine h.held.imp_right fun ⟨hp, ht⟩ => ⟨hp, fun t hm hl hj => ?_⟩
    obtain hm | ⟨hn, -⟩ := hs.timers t hm
    · exact ht t hm (by rwa [Clock.isLive, hs.cancelled] at hl) hj
    · exact absurd hj hn
  late a ha hf hi := by
    obtain ⟨b, hb, hab⟩ | ⟨hn, -⟩ := hs.shows a ha
    · exact hab.2.1 ▸ h.late b hb (hab.1 ▸ hf) (hab.2.2 ▸ hi)
    · obtain hnow : d.clock.now = a.startedAt :=
        Option.some.inj ((Running.measure?_eq h.reads).symm.trans hn.now)
      refine hnow ▸ h.held.resolve_right fun hp => ?_
      have hfree := hn.free
      simp [hi, hp.1] at hfree

theorem passes (h : d.Guarded time bound floor) {c : Clock R Job} (hc : d.clock.Passes c) :
    Guarded time bound floor (d.withClock c) where
  toAtRest := h.toAtRest.passes hc
  since := atMost_trans h.since hc.now
  held := h.held.imp (fun hb => atMost_trans hb hc.now) fun ⟨hp, ht⟩ =>
    ⟨hp, fun t hm hl hj => ht t (hc.timers t hm) (hc.isLive hl) hj⟩
  late := h.late

theorem callsOff (h : d.Guarded time bound floor) (he : d.CallsOff e) :
    e.Guarded time bound floor := by
  obtain rfl | ⟨n, -, rfl⟩ := he
  · exact h
  · exact (h.passes (Clock.passes_cancel h.reads n)).stirs
      (stirs_withQueue rfl rfl rfl (Nat.le_refl _) fun n hn => by cases hn)

theorem facing (h : d.Guarded time bound floor) (job : Job)
    (hb : job = .resume → Scalar.atMost bound d.clock.now = true) :
    (d.facing job).Guarded time bound floor := by
  cases job with
  | finish id => exact h
  | resume =>
    exact ⟨⟨h.starting, h.room, h.above, h.ids, ⟨h.keyed.below, h.keyed.timer⟩, h.reads, h.dues⟩,
      h.since, .inl (hb rfl), h.late⟩

theorem fireAll_comes (h : d.Guarded time bound floor) (hp : Patient bound batch d)
    (hn : Scalar.atMost d.clock.now limit = true)
    (hb : ∀ t ∈ batch, Reads t.due ∧ Scalar.atMost t.due limit = true) :
    Comes (Timed.fireAll (fire (tell k)) batch) d
      (fun _ (u : Desk R (Stage R)) =>
        u.Guarded time bound floor ∧ Scalar.atMost u.clock.now limit = true)
      (Guarded time bound floor) := by
  induction batch generalizing d with
  | nil => exact Comes.pure ⟨h, hn⟩
  | cons t batch ih =>
    obtain ⟨⟨hdue, hlimit⟩, hb⟩ := List.forall_mem_cons.mp hb
    have hrest : Patient bound batch d := hp.imp_right fun hp => (List.forall_mem_cons.mp hp).2
    refine Comes.get ?_
    dsimp only
    split
    · have hle : Scalar.atMost d.clock.now (d.turnTo t).clock.now = true :=
        Running.le_larger_left h.reads t.due
      have hturn : Guarded time bound floor (d.turnTo t) :=
        h.passes (Clock.passes_now (Running.reads_larger h.reads hdue) hle)
      -- The clock shows the time of the timer by now: if it ends the pause, that is late enough.
      have hg : (Desk.facing (d.turnTo t) t.job).Guarded time bound floor := by
        refine hturn.facing t.job fun hj => hp.elim (atMost_trans · hle) fun hp => ?_
        exact atMost_trans (hp t List.mem_cons_self hj) (Running.le_larger_right h.reads hdue)
      refine Comes.modify (Comes.bind ((fire_stirs (d.turnTo t) t.job).mono (fun _ _ hv => hv)
        fun _ hv => hg.stirs hv) fun _ v hv => ?_)
      have hv' : v.clock.now = (d.turnTo t).clock.now := by
        rw [hv.now]
        cases t.job <;> rfl
      refine ih (hg.stirs hv) ?_ ?_ hb
      · exact hrest.imp_left fun hb => hv' ▸ atMost_trans hb hle
      · exact hv' ▸ Scalar.larger_le hn hlimit
    · exact ih h hrest hn hb

theorem drainAll_comes (h : d.Guarded time bound floor)
    (hn : Scalar.atMost d.clock.now limit = true) (fuel : Nat) :
    Comes (Timed.drainAll (fire (tell k)) limit fuel) d
      (fun _ (u : Desk R (Stage R)) =>
        u.Guarded time bound floor ∧ Scalar.atMost u.clock.now limit = true)
      (Guarded time bound floor) := by
  induction fuel generalizing d with
  | zero => exact Comes.pure ⟨h, hn⟩
  | succ fuel ih =>
    rcases hd : d.clock.drain limit with ⟨ts, c⟩
    have hc : c.now = d.clock.now := by rw [← (Prod.mk.inj hd).2]
    have hg : Guarded time bound floor (d.withClock c) := h.passes (Clock.passes_drain h.reads hd)
    have htaken {t : Timer R Job} (ht : t ∈ ts) := List.mem_filter.mp ((Clock.mem_drain hd).mp ht).1
    -- What is taken off the clock was live there, so `held` speaks of it.
    have hp : Patient bound ts (d.withClock c) := by
      refine h.held.imp (fun hb => (congrArg _ hc).trans hb) fun hh t ht hj => ?_
      exact hh.2 t (htaken ht).1 (htaken ht).2 hj
    refine Comes.get ?_
    rw [hd]
    refine Comes.modify ?_
    split
    · exact Comes.pure ⟨hg, (congrArg (Scalar.atMost · limit) hc).trans hn⟩
    · refine (hg.fireAll_comes hp ((congrArg (Scalar.atMost · limit) hc).trans hn) ?_).bind
        fun _ v hv => ih hv.1 hv.2
      exact fun t ht => ⟨h.dues t (htaken ht).1, ((Clock.mem_drain hd).mp ht).2⟩

theorem advance_comes (h : d.Guarded time bound floor) (fuel : Nat) (ms : R) :
    Comes (Timed.advance (fire (tell k)) fuel ms) d (fun _ => Guarded time bound floor)
      (Guarded time bound floor) := by
  refine Comes.get (Timed.reckon_comes (fun target ht => ?_) h)
  obtain ⟨hr, hle⟩ := Running.reads_add h.reads ht
  refine (h.drainAll_comes hle fuel).bind fun _ u hu => ?_
  exact hu.1.passes (Clock.passes_now hr hu.2)

theorem runAll_comes (h : d.Guarded time bound floor) (fuel limit : Nat) :
    Comes (Timed.runAll (fire (tell k)) fuel limit) d (fun _ => Guarded time bound floor)
      (Guarded time bound floor) := by
  induction limit generalizing d with
  | zero => exact Comes.pure h
  | succ limit ih =>
    refine Comes.get ?_
    dsimp only
    split
    · exact Comes.pure h
    · refine Timed.reckon_comes (fun ms _ => ?_) h
      exact (h.advance_comes fuel ms).bind fun _ v hv => ih hv

/-- What is asked for from outside does not end a pause too early, whatever it is. -/
theorem run_comes (h : d.Guarded time bound floor) (r : Request R) :
    Comes (run r) d (fun _ => Guarded time bound floor) (Guarded time bound floor) :=
  run_keeps (fun h hs => h.stirs hs) (fun h he => h.callsOff he)
    (fun _ fuel ms _ h => h.advance_comes fuel ms)
    (fun _ fuel limit _ h => h.runAll_comes fuel limit) h r

end Guarded

def pausing (d : Desk R (Stage R)) (due : R) : Desk R (Stage R) :=
  { clock := d.clock.withTimer due .resume
    state := { d.state with listener := { d.listener with paused := true } } }

omit [Running R] in
theorem pause_pausing (delay : R) {B : Desk R (Stage R) → Prop}
    (hb : B { d with state.listener := { d.listener with paused := true } }) :
    Comes (pause delay fun stage => { stage with paused := true }) d
      (fun _ u => ∃ due, Scalar.add d.clock.now (Scalar.positivePart delay) = .ok due ∧
        u = d.pausing due) B := by
  refine Comes.get (Comes.modify (Comes.bind (Q := fun _ (u : Desk R (Stage R)) => ∃ due,
    Scalar.add d.clock.now (Scalar.positivePart delay) = .ok due ∧ u = d.pausing due) ?_
    fun _ _ hu => Comes.pure hu))
  exact Timed.schedule_comes _ _ (fun due hd => ⟨due, hd, rfl⟩) hb

theorem AtRest.pausing (h : d.AtRest floor)
    (hd : Scalar.add d.clock.now (Scalar.positivePart ms) = .ok target) :
    (d.pausing target).AtRest floor := by
  refine ⟨h.starting, h.room, h.above, h.ids, ⟨fun t ht => ?_, fun n hn => ?_⟩, h.reads,
    fun t ht => ?_⟩
  · obtain ht | ht := List.mem_append.mp ht
    · exact Nat.lt_succ_of_lt (h.keyed.below t ht)
    · obtain rfl := List.mem_singleton.mp ht
      exact Nat.lt_succ_self _
  · obtain ⟨hlt, hfree⟩ := h.keyed.timer n hn
    refine ⟨Nat.lt_succ_of_lt hlt, fun t ht he => ?_⟩
    obtain ht | ht := List.mem_append.mp ht
    · exact hfree t ht he
    · obtain rfl := List.mem_singleton.mp ht
      exact absurd he (Nat.ne_of_gt hlt)
  · obtain ht | ht := List.mem_append.mp ht
    · exact h.dues t ht
    · obtain rfl := List.mem_singleton.mp ht
      exact (Running.reads_add h.reads hd).1

namespace Guarded

theorem pausing (h : d.Guarded time bound floor)
    (hd : Scalar.add d.clock.now (Scalar.positivePart ms) = .ok target)
    (hb : Scalar.atMost bound target = true) : (d.pausing target).Guarded time bound floor := by
  refine ⟨h.toAtRest.pausing hd, h.since, h.held.imp_right fun hh => ⟨rfl, fun t ht hl hj => ?_⟩,
    h.late⟩
  obtain ht | ht := List.mem_append.mp ht
  · exact hh.2 t ht hl hj
  · obtain rfl := List.mem_singleton.mp ht
    exact hb

theorem pause_comes (h : d.Guarded time bound floor) {delay : R}
    (hb : ∀ due, Scalar.add d.clock.now (Scalar.positivePart delay) = .ok due →
      Scalar.atMost bound due = true) :
    Comes (pause delay fun stage => { stage with paused := true }) d
      (fun _ => Guarded time bound floor) (Guarded time bound floor) := by
  refine (pause_pausing delay ?_).mono ?_ fun _ hu => hu
  · exact ⟨⟨h.starting, h.room, h.above, h.ids, ⟨h.keyed.below, h.keyed.timer⟩, h.reads, h.dues⟩,
      h.since, h.held.imp_right fun hh => ⟨rfl, hh.2⟩, h.late⟩
  · rintro _ _ ⟨due, hd, rfl⟩
    exact h.pausing hd (hb due hd)

end Guarded

end

def Awake (d : Desk R (Stage R)) : Prop := d.listener.paused = false

/-- Nothing is shown, and nothing waits. -/
structure Empty (d : Desk R (Stage R)) : Prop where
  active : d.active = none
  pending : d.queue.pending = []
  starting : d.queue.starting = false

namespace Empty

theorem startNext_eq (h : d.Empty) : startNext (tell k) d = .ok () d := by
  have hloop : startLoop (tell k) (d.supply + 1) (d.withStarting true) =
      .ok () (d.withStarting true) := by
    refine (get_bind _ _).trans ?_
    rw [show (d.withStarting true).active = none from h.active]
    dsimp only
    rw [show (d.withStarting true).queue.pending = [] from h.pending]
    rfl
  have hback : (d.withStarting true).withStarting false = d := by
    rw [← h.starting]
    rfl
  refine (get_bind _ d).trans ?_
  rw [if_neg (Bool.eq_false_iff.mp h.starting)]
  refine (modify_bind _ _ d).trans ?_
  obtain ⟨_, u, hu, hd⟩ : Ends (lastly ({ · with starting := false })
      (startLoop (tell k) (d.supply + 1))) (d.withStarting true) fun _ u => u = d :=
    lastly_ends ⟨_, _, hloop, hback⟩
  exact hd ▸ hu

theorem fire_eq (h : d.Empty) (job : Job) : fire (tell k) job d = .ok () (d.facing job) := by
  cases job with
  | finish id =>
    refine (get_bind _ d).trans ?_
    rw [h.active]
    rfl
  | resume => exact startNext_eq (d := d.facing .resume) ⟨h.active, h.pending, h.starting⟩

omit [Scalar R] in
theorem facing (h : d.Empty) (job : Job) : (d.facing job).Empty := by
  cases job <;> exact ⟨h.active, h.pending, h.starting⟩

/-- Where nothing is shown and nothing waits, all that can happen is that the pause ends. -/
theorem fireAll_ends (h : d.Empty) :
    Ends (Timed.fireAll (fire (tell k)) batch) d fun _ (u : Desk R (Stage R)) => u.Empty ∧
      u.clock.timers = d.clock.timers ∧ u.clock.cancelled = d.clock.cancelled ∧
      (d.Awake ∨ (∃ t ∈ batch, d.clock.isLive t = true ∧ t.job = .resume) → u.Awake) := by
  induction batch generalizing d with
  | nil => exact Ends.pure ⟨h, rfl, rfl, fun hw => hw.resolve_right (by simp)⟩
  | cons t batch ih =>
    refine Ends.get ?_
    dsimp only
    split
    next hl =>
      have hturn : Empty (d.turnTo t) := ⟨h.active, h.pending, h.starting⟩
      have hclock : (Desk.facing (d.turnTo t) t.job).clock = (d.turnTo t).clock := by
        cases t.job <;> rfl
      refine Ends.modify (Ends.after (hturn.fire_eq t.job)
        ((ih (hturn.facing t.job)).mono fun _ u hu => ?_))
      obtain ⟨hu, ht, hc, hw⟩ := hu
      rw [hclock] at ht hc hw
      refine ⟨hu, ht, hc, fun hd => hw ?_⟩
      obtain hd | ⟨s, hs, hsl, hj⟩ := hd
      · left
        cases t.job
        · exact hd
        · rfl
      · obtain rfl | hs := List.mem_cons.mp hs
        · left
          rw [hj]
          rfl
        · exact .inr ⟨s, hs, hsl, hj⟩
    next hl =>
      refine (ih h).mono fun _ u ⟨hu, ht, hc, hw⟩ => ⟨hu, ht, hc, fun hd => hw (hd.imp_right ?_)⟩
      rintro ⟨s, hs, hsl, hj⟩
      obtain rfl | hs := List.mem_cons.mp hs
      · exact absurd hsl hl
      · exact ⟨s, hs, hsl, hj⟩

theorem drainAll_ends (h : d.Empty) (hj : t.job = .resume)
    (hw : d.Awake ∨ t ∈ d.clock.live ∧ (Scalar.atMost t.due limit = true → 0 < fuel)) :
    Ends (Timed.drainAll (fire (tell k)) limit fuel) d fun _ (u : Desk R (Stage R)) =>
      u.Empty ∧ (u.Awake ∨ t ∈ u.clock.live ∧ Scalar.atMost t.due limit = false) := by
  induction fuel generalizing d with
  | zero =>
    refine Ends.pure ⟨h, hw.imp_right fun ⟨ht, hf⟩ => ⟨ht, Bool.eq_false_iff.mpr fun hd => ?_⟩⟩
    exact absurd (hf hd) (Nat.lt_irrefl 0)
  | succ fuel ih =>
    rcases hd : d.clock.drain limit with ⟨ts, c⟩
    have hrest : Empty (d.withClock c) := ⟨h.active, h.pending, h.starting⟩
    refine Ends.get ?_
    rw [hd]
    refine Ends.modify ?_
    split
    next hnil =>
      refine Ends.pure ⟨hrest, hw.imp_right fun ⟨ht, _⟩ => ?_⟩
      have hlate : Scalar.atMost t.due limit = false := Bool.eq_false_iff.mpr fun hdue => by
        have hmem := (Clock.mem_drain hd).mpr ⟨ht, hdue⟩
        rw [List.isEmpty_iff.mp hnil] at hmem
        cases hmem
      exact ⟨(Clock.mem_drain_live hd).mpr ⟨ht, hlate⟩, hlate⟩
    · refine (fireAll_ends hrest).bind fun _ v ⟨hv, ht, hc, hwake⟩ => ih hv ?_
      obtain hw | ⟨hl, -⟩ := hw
      · exact .inl (hwake (.inl hw))
      cases hdue : Scalar.atMost t.due limit with
      | true =>
        refine .inl (hwake (.inr ⟨t, (Clock.mem_drain hd).mpr ⟨hl, hdue⟩, ?_, hj⟩))
        obtain ⟨-, rfl⟩ := Prod.mk.inj hd
        exact (List.mem_filter.mp hl).2
      | false =>
        refine .inr ⟨?_, fun h => Bool.noConfusion h⟩
        have hkept := (Clock.mem_drain_live hd).mpr ⟨hl, hdue⟩
        rw [Clock.live, ht, show v.clock.isLive = c.isLive by funext s; rw [Clock.isLive, hc]; rfl]
        exact hkept

theorem advance_ends (h : d.Empty) (hj : t.job = .resume) (hw : d.Awake ∨ t ∈ d.clock.live)
    (ht : Scalar.add d.clock.now (Scalar.positivePart ms) = .ok target) (fuel : Nat) :
    Ends (Timed.advance (fire (tell k)) (fuel + 1) ms) d fun _ (u : Desk R (Stage R)) =>
      u.Empty ∧ u.clock.now = target ∧
        (u.Awake ∨ t ∈ u.clock.live ∧ Scalar.atMost t.due target = false) := by
  refine Ends.get (Ends.after (reckon_of_ok ht d) ((h.drainAll_ends hj ?_).bind fun _ u hu => ?_))
  · exact hw.imp_right fun ht => ⟨ht, fun _ => Nat.succ_pos fuel⟩
  · exact ⟨_, _, rfl, ⟨hu.1.active, hu.1.pending, hu.1.starting⟩, rfl, hu.2⟩

theorem run_advance_ends (h : d.Empty) (hj : t.job = .resume) (hw : d.Awake ∨ t ∈ d.clock.live)
    (ht : Scalar.add d.clock.now (Scalar.positivePart ms) = .ok target) :
    Ends (run (.advance ms)) d fun _ (u : Desk R (Stage R)) => u.Empty ∧ u.clock.now = target ∧
      (u.Awake ∨ t ∈ u.clock.live ∧ Scalar.atMost t.due target = false) :=
  Ends.get (Ends.get (h.advance_ends hj hw ht _))

end Empty

variable [Running R]

theorem clear_empties (h : d.AtRest floor) (ht : t ∈ d.clock.live) (hj : t.job = .resume) :
    Ends (clear (tell k)) d fun _ (u : Desk R (Stage R)) =>
      u.Empty ∧ t ∈ u.clock.live ∧ u.clock.now = d.clock.now := by
  obtain ⟨hm, hl⟩ := List.mem_filter.mp ht
  refine (cancelTimer_callsOff d).bind fun _ (e : Desk R (Stage R)) he => ?_
  have hrest : e.queue.starting = false ∧ t ∈ e.clock.live ∧ e.clock.now = d.clock.now := by
    obtain rfl | ⟨n, hn, rfl⟩ := he
    · exact ⟨h.starting, ht, rfl⟩
    · refine ⟨h.starting, List.mem_filter.mpr ⟨hm, ?_⟩, rfl⟩
      have hne : t.number ≠ n := fun he => (h.keyed.timer n hn).2 t hm he hj
      simp only [Clock.isLive, callOff, Clock.cancel, List.contains_cons, Bool.not_or,
        Bool.and_eq_true, Bool.not_eq_true', beq_eq_false_iff_ne] at hl ⊢
      exact ⟨hne, hl⟩
  refine Ends.modify (Ends.get ?_)
  split
  · exact Ends.modify ⟨_, _, tell_eq k none _, ⟨rfl, rfl, hrest.1⟩, hrest.2⟩
  next ha =>
    exact Ends.pure ⟨⟨Option.not_isSome_iff_eq_none.mp ha, rfl, hrest.1⟩, hrest.2⟩

def Showed (floor : Nat) (now : R) (inTransition : Bool) (d : Desk R (Stage R)) : Prop :=
  ∃ a ∈ d.listener.shown, floor < a.id ∧ a.inTransition = inTransition ∧ a.startedAt = now

omit [Running R] in
theorem Showed.comes {α : Type} {now : R} {b : Bool} {x : Work R (Stage R) α}
    (h : d.Showed floor now b) (hx : Stirring x d) :
    Comes x d (fun _ => Showed floor now b) (Showed floor now b) := by
  obtain ⟨a, ha, hp⟩ := h
  exact hx.mono (fun _ _ hu => ⟨a, hu.grows a ha, hp⟩) fun _ hu => ⟨a, hu.grows a ha, hp⟩

omit [Scalar R] [Running R] in
theorem valid_of_ok {α : Type} {x : Except Field.Invalid α} {a : α} (h : x = .ok a)
    (d : Desk R (Stage R)) : valid x d = .ok a d := by
  rw [h]
  rfl

theorem present_shows {c : Queued R} (hr : Reads d.clock.now) (hm : Reads c.mergedAt)
    (hc : c.duration = some (Scalar.measured Scalar.zero)) :
    Comes (present (tell k) c) d
      (fun _ => Showed d.queue.lastId d.clock.now c.inTransition)
      (Showed d.queue.lastId d.clock.now c.inTransition) := by
  have hlength (q : Queue R) : q.length c.duration = Scalar.measured Scalar.zero := by
    rw [hc]
    exact if_pos Running.isLength_start
  obtain ⟨ends, hends, -⟩ := Running.add_start hr
  have hreads : Reads ends := by
    rw [← Scalar.positivePart_start] at hends
    exact (Running.reads_add hr hends).1
  obtain ⟨a, ha⟩ : ∃ a, Queue.activate { d.queue with lastId := d.queue.lastId + 1 } c
      d.clock.now ends = .ok a := by
    rw [Queue.activate, hlength, measure_of (Running.measure?_eq Running.reads_start),
      measure_of (Running.measure?_eq hr), measure_of (Running.measure?_eq hreads),
      measure_of (Running.measure?_eq hm)]
    exact ⟨_, rfl⟩
  obtain ⟨hid, hstart⟩ := Queue.activate_starts ha
  obtain hstart : d.clock.now = a.startedAt :=
    Option.some.inj ((Running.measure?_eq hr).symm.trans hstart)
  refine Comes.get (Comes.modify (Comes.get (Comes.after (reckon_of_ok ?_ _)
    (Comes.after (valid_of_ok ha _) (Comes.modify (Comes.after (tell_eq k _ _) ?_))))))
  · exact (congrArg (Scalar.add d.clock.now) (hlength _)).trans hends
  · refine Showed.comes ⟨a, List.mem_append_right _ List.mem_cons_self, ?_, ?_, hstart.symm⟩
      (follow_stirring _ a)
    · exact hid ▸ Nat.lt_succ_self _
    · exact congrArg Cue.inTransition (Queue.activate_cue ha)

theorem startLoop_shows (ha : d.active = none) {c : Queued R} {pending : List (Queued R)}
    (hf : Queue.takeFirst (Listener.defers d.listener) d.queue.pending = some (c, pending))
    (hr : Reads d.clock.now) (hm : Reads c.mergedAt)
    (hc : c.duration = some (Scalar.measured Scalar.zero)) (fuel : Nat) :
    Comes (startLoop (tell k) (fuel + 1)) d
      (fun _ => Showed d.queue.lastId d.clock.now c.inTransition)
      (Showed d.queue.lastId d.clock.now c.inTransition) := by
  refine Comes.get ?_
  rw [if_neg (by simp [ha]), hf]
  refine Comes.modify ((present_shows (d := d.withPending pending) hr hm hc).bind fun _ t ht => ?_)
  exact ht.comes (startLoop_stirring _ t)

theorem startNext_shows (hs : d.queue.starting = false) (hw : d.Awake) (ha : d.active = none)
    (hr : Reads d.clock.now) {c : Queued R} (hp : d.queue.pending = [c]) (hm : Reads c.mergedAt)
    (hc : c.duration = some (Scalar.measured Scalar.zero)) :
    Comes (startNext (tell k)) d (fun _ => Showed d.queue.lastId d.clock.now c.inTransition)
      (Showed d.queue.lastId d.clock.now c.inTransition) := by
  have hf : Queue.takeFirst (Listener.defers d.listener) d.queue.pending = some (c, []) := by
    have hd : Listener.defers d.listener c.toCue = false := hw
    rw [hp, Queue.takeFirst, hd, Bool.and_false]
    rfl
  refine Comes.get ?_
  rw [if_neg (Bool.eq_false_iff.mp hs)]
  exact Comes.modify (lastly_comes (startLoop_shows (d := d.withStarting true) ha hf hr hm hc _))

theorem enqueue_shows (h : d.AtRest floor) (he : d.Empty) (hw : d.Awake) {c : Cue R}
    (hc : c.duration = some (Scalar.measured Scalar.zero)) :
    Comes (enqueue (tell k) c) d (fun _ => Showed d.queue.lastId d.clock.now c.inTransition)
      (Showed d.queue.lastId d.clock.now c.inTransition) := by
  have hmerge : d.queue.mergeActive c.key d.clock.now = .ok none := by
    rw [Queue.mergeActive, show d.queue.active = none from he.active]
  have hline : d.queue.mergePending c.key d.clock.now d.queue.pending = .ok none := by
    rw [he.pending]
    rfl
  have hroom : d.queue.receive c =
      some { d.queue with lastNumber := d.queue.lastNumber + 1, pending := [] } := by
    rw [Queue.receive, he.pending]
    exact congrArg (Option.map _) (if_pos h.room)
  obtain ⟨w, hq, hd, hi, hm⟩ : ∃ w, Queue.queued
      { d.queue with lastNumber := d.queue.lastNumber + 1, pending := [] } c d.clock.now = .ok w ∧
        w.duration = c.duration ∧ w.inTransition = c.inTransition ∧ w.mergedAt = d.clock.now := by
    rw [Queue.queued, measure_of (Running.measure?_eq h.reads),
      measure_of (Running.measure?_eq h.reads)]
    exact ⟨_, rfl, rfl, rfl, rfl⟩
  refine Comes.get (Comes.after (reckon_of_ok hmerge d) (Comes.after (reckon_of_ok hline d) ?_))
  rw [hroom]
  refine Comes.modify (Comes.after (valid_of_ok hq _) (Comes.modify ?_))
  have hs := startNext_shows (k := k)
    (d := d.withLine [w] (d.queue.lastNumber + 1)) h.starting hw he.active h.reads rfl
    (hm ▸ h.reads) (hd.trans hc)
  rw [hi] at hs
  exact hs

def afterRequests (d : Desk R (Stage R)) (rs : List (Request R)) : Desk R (Stage R) :=
  rs.foldl (fun d r => left (run r d)) d

omit [Running R] in
theorem afterRequests_cons {r : Request R} (h : run r d = .ok () e) (rs : List (Request R)) :
    d.afterRequests (r :: rs) = e.afterRequests rs := by
  rw [afterRequests, List.foldl_cons, h]
  rfl

def brief : Cue R :=
  { kind := .status, title := "", duration := some (Scalar.measured Scalar.zero) }

def waking (step later : R) : List (Request R) :=
  [.clear, .advance step, .advance later, .enqueue brief]

/-- Whenever a timer can end a pause, a cue can start once the clock has been brought there. -/
theorem wakes (h : d.AtRest floor) (ht : t ∈ d.clock.live) (hj : t.job = .resume)
    {step now later now' : R} (hs : Scalar.add d.clock.now (Scalar.positivePart step) = .ok now)
    (hl : Scalar.add now (Scalar.positivePart later) = .ok now')
    (hdue : Scalar.atMost t.due now' = true) :
    Showed d.queue.lastId now' false (d.afterRequests (waking step later)) := by
  have hrest {u v : Desk R (Stage R)} {r : Request R} (hu : u.AtRest d.queue.lastId)
      (hv : run r u = .ok () v) : v.AtRest d.queue.lastId := by
    have hg := (hu.guarded.run_comes r).of_ok hv
    exact { hg.toAtRest with above := Nat.le_trans hu.above hg.above }
  have h : d.AtRest d.queue.lastId := { h with above := Nat.le_refl _ }
  obtain ⟨_, u, hu, hue, hul, hun⟩ : Ends (run .clear) d fun _ (u : Desk R (Stage R)) =>
      u.Empty ∧ t ∈ u.clock.live ∧ u.clock.now = d.clock.now :=
    Ends.get (clear_empties h ht hj)
  have h := hrest h hu
  obtain ⟨_, (v : Desk R (Stage R)), hv, hve, hvn, hvw⟩ :=
    hue.run_advance_ends hj (.inr hul) (hun ▸ hs)
  have h := hrest h hv
  obtain ⟨_, (w : Desk R (Stage R)), hw, hwe, hwn, hww⟩ :=
    hve.run_advance_ends hj (hvw.imp_right And.left) (hvn ▸ hl)
  have h := hrest h hw
  have hwake : w.Awake := hww.resolve_right fun hlate => Bool.eq_false_iff.mp hlate.2 hdue
  rw [waking, afterRequests_cons hu, afterRequests_cons hv, afterRequests_cons hw]
  have hshows : Comes (run (.enqueue brief)) w (fun _ => Showed w.queue.lastId w.clock.now false)
      (Showed w.queue.lastId w.clock.now false) :=
    Comes.get (enqueue_shows h hwe hwake rfl)
  obtain ⟨a, ha, hid, hi, hstart⟩ := hshows.left
  exact ⟨a, ha, Nat.lt_of_le_of_lt h.above hid, hi, hstart.trans hwn⟩

end Cue.Desk

end Duel
