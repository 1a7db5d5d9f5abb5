import Duel.Proofs.Clock.Firing

namespace Duel

variable {J : Type}

def Timer.Before (a b : Timer Rat J) : Prop :=
  a.due < b.due ∨ (a.due = b.due ∧ a.number < b.number)

namespace Clock

/-- What jobs may do to the clock that they run on: set timers, and cancel them. -/
inductive Works : Clock Rat J → Clock Rat J → Prop
  | rest (c : Clock Rat J) : Works c c
  | schedule {c c' c'' : Clock Rat J} {delay : Rat} {job : J} {n : Nat}
      (hs : c.schedule delay job = .ok (n, c')) (h : Works c' c'') : Works c c''
  | cancel {c c' : Clock Rat J} (number : Nat) (h : Works (c.cancel number) c') : Works c c'

/-- The timers of a clock are numbered as they stand, below the next number. -/
structure Sound (c : Clock Rat J) : Prop where
  numbered : c.timers.Pairwise (·.number < ·.number)
  below : ∀ t ∈ c.timers, t.number < c.next

def Clear (c : Clock Rat J) (time : Rat) : Prop :=
  ∀ t ∈ c.timers, c.isLive t = true → time ≤ t.due

structure Adds (time : Rat) (c c' : Clock Rat J) : Prop where
  next : c.next ≤ c'.next
  cancelled : ∀ n ∈ c.cancelled, n ∈ c'.cancelled
  timers : ∃ new, c'.timers = c.timers ++ new ∧ new.Pairwise (·.number < ·.number) ∧
    ∀ t ∈ new, c.next ≤ t.number ∧ t.number < c'.next ∧ time ≤ t.due

theorem Adds.refl (time : Rat) (c : Clock Rat J) : Adds time c c :=
  ⟨Nat.le_refl _, fun _ h => h, [], by simp⟩

theorem Adds.since {time time' : Rat} {c c' : Clock Rat J} (h : Adds time' c c')
    (ht : time ≤ time') : Adds time c c' := by
  obtain ⟨hn, hc, new, hnew, hp, hb⟩ := h
  exact ⟨hn, hc, new, hnew, hp, fun t hi =>
    ⟨(hb t hi).1, (hb t hi).2.1, Rat.le_trans ht (hb t hi).2.2⟩⟩

theorem Adds.trans {time : Rat} {c c' c'' : Clock Rat J} (h : Adds time c c')
    (h' : Adds time c' c'') : Adds time c c'' := by
  obtain ⟨hn, hc, new, ht, hp, hb⟩ := h
  obtain ⟨hn', hc', new', ht', hp', hb'⟩ := h'
  refine ⟨Nat.le_trans hn hn', fun n hi => hc' n (hc n hi), new ++ new', ?_, ?_, ?_⟩
  · rw [ht', ht, List.append_assoc]
  · refine List.pairwise_append.mpr ⟨hp, hp', fun a ha b hb₂ => ?_⟩
    exact Nat.lt_of_lt_of_le (hb a ha).2.1 (hb' b hb₂).1
  · intro t hi
    rcases List.mem_append.mp hi with hi | hi
    · exact ⟨(hb t hi).1, Nat.lt_of_lt_of_le (hb t hi).2.1 hn', (hb t hi).2.2⟩
    · exact ⟨Nat.le_trans hn (hb' t hi).1, (hb' t hi).2⟩

theorem Adds.sound {time : Rat} {c c' : Clock Rat J} (h : Adds time c c') (hc : c.Sound) :
    c'.Sound := by
  obtain ⟨hn, -, new, ht, hp, hb⟩ := h
  constructor
  · rw [ht]
    refine List.pairwise_append.mpr ⟨hc.numbered, hp, fun a ha b hi => ?_⟩
    exact Nat.lt_of_lt_of_le (hc.below a ha) (hb b hi).1
  · intro t hi
    rw [ht] at hi
    rcases List.mem_append.mp hi with hi | hi
    · exact Nat.lt_of_lt_of_le (hc.below t hi) hn
    · exact (hb t hi).2.1

theorem Adds.clear {time : Rat} {c c' : Clock Rat J} (h : Adds time c c') (hc : c.Clear time) :
    c'.Clear time := by
  obtain ⟨-, hk, new, ht, -, hb⟩ := h
  intro t hi hl
  rw [ht] at hi
  rcases List.mem_append.mp hi with hi | hi
  · refine hc t hi ?_
    simp only [isLive, Bool.not_eq_true', List.contains_eq_mem, decide_eq_false_iff_not] at hl ⊢
    exact fun hm => hl (hk _ hm)
  · exact (hb t hi).2.2

theorem le_add_positivePart (a x : Rat) : a ≤ a + Scalar.positivePart x := by
  unfold Scalar.positivePart
  split
  · rename_i h
    have h : ((0 : Int) : Rat) < x := of_decide_eq_true h
    grind
  · change a ≤ a + ((0 : Int) : Rat)
    grind

theorem positivePart_of_nonneg {x : Rat} (h : 0 ≤ x) : Scalar.positivePart x = x := by
  unfold Scalar.positivePart
  split
  · rfl
  · rename_i hx
    have hx : ¬ (0 : Rat) < x := fun h => hx (decide_eq_true h)
    change (0 : Rat) = x
    grind

theorem schedule_eq (c : Clock Rat J) (delay : Rat) (job : J) :
    c.schedule delay job = .ok (c.next, { c with
      timers := c.timers ++ [⟨c.now + Scalar.positivePart delay, c.next, job⟩]
      next := c.next + 1 }) :=
  rfl

theorem schedule_adds {c c' : Clock Rat J} {delay : Rat} {job : J} {n : Nat}
    (h : c.schedule delay job = .ok (n, c')) : c'.now = c.now ∧ Adds c.now c c' := by
  cases schedule_eq c delay job ▸ h
  refine ⟨rfl, Nat.le_succ _, fun _ hi => hi, [⟨c.now + Scalar.positivePart delay, c.next, job⟩],
    rfl, by simp, ?_⟩
  intro t ht
  obtain rfl := List.mem_singleton.mp ht
  exact ⟨Nat.le_refl _, Nat.lt_succ_self _, le_add_positivePart _ _⟩

theorem cancel_adds (c : Clock Rat J) (number : Nat) : Adds c.now c (c.cancel number) :=
  ⟨Nat.le_refl _, fun _ h => List.mem_cons_of_mem _ h, [], by simp [Clock.cancel]⟩

theorem Works.adds {c c' : Clock Rat J} (h : Works c c') :
    c'.now = c.now ∧ Adds c.now c c' := by
  induction h with
  | rest c => exact ⟨rfl, .refl _ c⟩
  | schedule hs _ ih =>
    obtain ⟨hn, ha⟩ := schedule_adds hs
    exact ⟨ih.1.trans hn, ha.trans (hn ▸ ih.2)⟩
  | cancel number _ ih => exact ⟨ih.1, (cancel_adds _ number).trans ih.2⟩

theorem atMost_trans (a b c : Timer Rat J) (h : a.atMost b = true) (h' : b.atMost c = true) :
    a.atMost c = true := by
  simp only [Timer.atMost, Scalar.less, Bool.or_eq_true, Bool.and_eq_true, Bool.not_eq_true',
    decide_eq_true_eq, decide_eq_false_iff_not] at h h' ⊢
  grind

theorem atMost_total (a b : Timer Rat J) : (a.atMost b || b.atMost a) = true := by
  simp only [Timer.atMost, Scalar.less, Bool.or_eq_true, Bool.and_eq_true, Bool.not_eq_true',
    decide_eq_true_eq, decide_eq_false_iff_not]
  grind

theorem before_of_atMost {a b : Timer Rat J} (h : a.atMost b = true)
    (hn : a.number ≠ b.number) : a.Before b := by
  simp only [Timer.atMost, Scalar.less, Bool.or_eq_true, Bool.and_eq_true, Bool.not_eq_true',
    decide_eq_true_eq, decide_eq_false_iff_not] at h
  unfold Timer.Before
  grind

/-- What is taken off a clock is due, in order, and what stays is not. -/
structure Drained (c : Clock Rat J) (limit : Rat) (ts : List (Timer Rat J))
    (c' : Clock Rat J) : Prop where
  taken : ∀ t ∈ ts, t ∈ c.timers ∧ c.isLive t = true ∧ t.due ≤ limit
  left : ∀ t ∈ c'.timers, limit < t.due
  kept : c'.timers.Sublist c.timers
  same : c'.now = c.now ∧ c'.next = c.next ∧ c'.cancelled = c.cancelled
  sorted : c.Sound → ts.Pairwise Timer.Before

theorem Drained.sound {c c' : Clock Rat J} {limit : Rat} {ts : List (Timer Rat J)}
    (h : Drained c limit ts c') (hc : c.Sound) : c'.Sound :=
  ⟨hc.numbered.sublist h.kept, fun t ht => h.same.2.1 ▸ hc.below t (h.kept.subset ht)⟩

theorem Drained.clear {c c' : Clock Rat J} {limit time : Rat} {ts : List (Timer Rat J)}
    (h : Drained c limit ts c') (hc : c.Clear time) : c'.Clear time := by
  intro t ht hl
  refine hc t (h.kept.subset ht) ?_
  simpa only [isLive, h.same.2.2] using hl

theorem drain_drained {c c' : Clock Rat J} {limit : Rat} {ts : List (Timer Rat J)}
    (h : c.drain limit = (ts, c')) : Drained c limit ts c' := by
  obtain ⟨rfl, rfl⟩ := Prod.mk.inj h
  constructor
  · intro t ht
    rw [List.mem_mergeSort] at ht
    obtain ⟨hl, hd⟩ := List.mem_filter.mp ht
    exact ⟨(List.mem_filter.mp hl).1, (List.mem_filter.mp hl).2, of_decide_eq_true hd⟩
  · intro t ht
    have hd := (List.mem_filter.mp ht).2
    have hd : ¬ t.due ≤ limit := by simpa [Scalar.atMost] using hd
    grind
  · exact (List.filter_sublist).trans List.filter_sublist
  · exact ⟨rfl, rfl, rfl⟩
  · intro hc
    have hs := List.pairwise_mergeSort atMost_trans atMost_total
      (c.live.filter fun t => Scalar.atMost t.due limit)
    have hn : (c.live.filter fun t => Scalar.atMost t.due limit).Pairwise
        (·.number ≠ ·.number) :=
      ((hc.numbered.sublist List.filter_sublist).sublist List.filter_sublist).imp Nat.ne_of_lt
    have hn := ((List.mergeSort_perm _ Timer.atMost).pairwise_iff Ne.symm).mpr hn
    exact hs.imp₂ (fun _ _ h hn => before_of_atMost h hn) hn

end Clock

open Clock (Adds Clear Sound Works)

variable {E S : Type}

def Seen : Rat → List (Firing Rat J) → Rat → Prop
  | now, [], later => now = later
  | now, f :: fs, later => f.seen = max now f.timer.due ∧ Seen f.seen fs later

theorem Seen.append {a b c : Rat} {fs gs : List (Firing Rat J)} (h : Seen a fs b)
    (h' : Seen b gs c) : Seen a (fs ++ gs) c := by
  induction fs generalizing a with
  | nil =>
    cases h
    exact h'
  | cons f fs ih => exact ⟨h.1, ih h.2⟩

theorem Seen.le {a b : Rat} {fs : List (Firing Rat J)} (h : Seen a fs b) : a ≤ b := by
  induction fs generalizing a with
  | nil =>
    cases h
    exact Rat.le_refl
  | cons f fs ih =>
    obtain ⟨hs, h⟩ := h
    have hb := ih h
    grind

/-- The clock is right for every job as long as the due times do not go back. -/
theorem Seen.exact {a b : Rat} {fs : List (Firing Rat J)} (h : Seen a fs b)
    (hf : ∀ f ∈ fs, a ≤ f.timer.due) (ho : fs.Pairwise fun f g => f.timer.due ≤ g.timer.due) :
    ∀ f ∈ fs, f.seen = f.timer.due := by
  induction fs generalizing a with
  | nil => simp
  | cons f fs ih =>
    obtain ⟨hs, h⟩ := h
    obtain ⟨hlt, ho⟩ := List.pairwise_cons.mp ho
    have ha := hf f List.mem_cons_self
    have he : f.seen = f.timer.due := by grind
    intro g hg
    rcases List.mem_cons.mp hg with rfl | hg
    · exact he
    · exact ih h (fun g hg => he ▸ hlt g hg) ho g hg

/-- Jobs that only set timers and cancel them. -/
def Lawful (fire : J → Timed.Work E Rat J S Unit) : Prop :=
  ∀ j s s', fire j s = .ok () s' → Works s.clock s'.clock

namespace Timed

variable {fire : J → Work E Rat J S Unit}

/-- What a batch comes to: its timers go off in their order, and new ones may be there. -/
theorem Fires.spec {ts : List (Timer Rat J)} {s u : Timed Rat J S} {fs : List (Firing Rat J)}
    (h : Fires fire ts s fs u) (hf : Lawful fire) {time : Rat} (ht : time ≤ s.clock.now) :
    (fs.map (·.timer)).Sublist ts ∧ Seen s.clock.now fs u.clock.now ∧
      Adds time s.clock u.clock := by
  induction h with
  | done s => exact ⟨List.nil_sublist _, rfl, .refl _ _⟩
  | skip _ _ ih =>
    obtain ⟨hl, hs, ha⟩ := ih ht
    exact ⟨hl.cons _, hs, ha⟩
  | @fire s u v t rest fs _ hj _ ih =>
    obtain ⟨hn, hw⟩ := (hf t.job (s.turnTo t) u hj).adds
    have hx : (s.turnTo t).clock.now = max s.clock.now t.due := by
      simp only [turnTo, Scalar.larger, Scalar.less, decide_eq_true_eq]
      grind
    have hle : time ≤ (s.turnTo t).clock.now := by grind
    obtain ⟨hl, hs, ha⟩ := ih (hn ▸ hle)
    refine ⟨hl.cons_cons t, ⟨hx, hn ▸ hs⟩, ?_⟩
    have hw := hw.since hle
    exact Adds.trans ⟨hw.next, hw.cancelled, hw.timers⟩ ha

/-- What a log tells of the order: batches are sorted, and the timers of a later batch were set
when the earlier one had been taken off the clock. -/
structure Sorted (time : Rat) (log : List (Batch Rat J)) : Prop where
  sorted : ∀ b ∈ log, b.fired.Pairwise fun f g => f.timer.Before g.timer
  ahead : ∀ f ∈ firings log, time ≤ f.timer.due
  below : ∀ b ∈ log, ∀ f ∈ b.fired, f.timer.number < b.next
  later : log.Pairwise fun b b' => ∀ g ∈ b'.fired, b.next ≤ g.timer.number

theorem mem_fired {ts : List (Timer Rat J)} {fs : List (Firing Rat J)}
    (h : (fs.map (·.timer)).Sublist ts) {f : Firing Rat J} (hf : f ∈ fs) : f.timer ∈ ts :=
  h.subset (List.mem_map_of_mem hf)

theorem Drains.number_ge {limit : Rat} {fuel : Nat} {s v : Timed Rat J S}
    {log : List (Batch Rat J)} (h : Drains fire limit fuel s log v) (hf : Lawful fire) {n : Nat}
    (hn : n ≤ s.clock.next) (ht : ∀ t ∈ s.clock.timers, t.due ≤ limit → n ≤ t.number) :
    ∀ b ∈ log, ∀ g ∈ b.fired, n ≤ g.timer.number := by
  induction h with
  | out => simp
  | done => simp
  | @batch fuel s u v c ts fs log hd _ hfire _ ih =>
    have hdr := Clock.drain_drained hd
    obtain ⟨hl, -, hnext, -, new, hnew, -, hb⟩ := hfire.spec hf Rat.le_refl
    have hc : n ≤ c.next := hdr.same.2.1 ▸ hn
    intro b hbm g hg
    rcases List.mem_cons.mp hbm with rfl | hbm
    · obtain ⟨hm, -, hdue⟩ := hdr.taken _ (mem_fired hl hg)
      exact ht _ hm hdue
    · refine ih (Nat.le_trans hc hnext) (fun t hi hdue => ?_) b hbm g hg
      rw [hnew] at hi
      rcases List.mem_append.mp hi with hi | hi
      · exact absurd hdue (Rat.not_le.mpr (hdr.left t hi))
      · exact Nat.le_trans hc (hb t hi).1

theorem Drains.spec {limit : Rat} {fuel : Nat} {s v : Timed Rat J S} {log : List (Batch Rat J)}
    (h : Drains fire limit fuel s log v) (hf : Lawful fire) {time : Rat}
    (hs : s.clock.Sound) (ht : time ≤ s.clock.now) (hc : s.clock.Clear time) :
    Sorted time log ∧ Seen s.clock.now (firings log) v.clock.now ∧ v.clock.Sound := by
  induction h with
  | out => exact ⟨⟨by simp, by simp [firings], by simp, .nil⟩, rfl, hs⟩
  | done hd =>
    have hdr := Clock.drain_drained hd
    exact ⟨⟨by simp, by simp [firings], by simp, .nil⟩, hdr.same.1.symm, hdr.sound hs⟩
  | @batch fuel s u v c ts fs log hd _ hfire hrest ih =>
    have hdr := Clock.drain_drained hd
    have hnow : time ≤ c.now := hdr.same.1 ▸ ht
    obtain ⟨hl, hseen, ha⟩ := hfire.spec hf hnow
    obtain ⟨hsort, hseen', hv⟩ := ih (ha.sound (hdr.sound hs)) (Rat.le_trans hnow hseen.le)
      (ha.clear (hdr.clear hc))
    have hge := hrest.number_ge hf (n := s.clock.next) (hdr.same.2.1 ▸ ha.next) (by
      intro t hi hdue
      obtain ⟨-, -, new, hnew, -, hb⟩ := ha
      rw [hnew] at hi
      rcases List.mem_append.mp hi with hi | hi
      · exact absurd hdue (Rat.not_le.mpr (hdr.left t hi))
      · exact hdr.same.2.1 ▸ (hb t hi).1)
    refine ⟨⟨?_, ?_, ?_, ?_⟩, (hdr.same.1 ▸ hseen).append hseen', hv⟩
    · intro b hb
      rcases List.mem_cons.mp hb with rfl | hb
      · exact List.pairwise_map.mp ((hdr.sorted hs).sublist hl)
      · exact hsort.sorted b hb
    · intro f hfm
      rcases List.mem_append.mp hfm with hfm | hfm
      · obtain ⟨hm, hlive, -⟩ := hdr.taken _ (mem_fired hl hfm)
        exact hc _ hm hlive
      · exact hsort.ahead f hfm
    · intro b hb f hfm
      rcases List.mem_cons.mp hb with rfl | hb
      · exact hs.below _ (hdr.taken _ (mem_fired hl hfm)).1
      · exact hsort.below b hb f hfm
    · exact List.pairwise_cons.mpr ⟨fun b' hb' g hg => hge b' hb' g hg, hsort.later⟩

end Timed

end Duel
