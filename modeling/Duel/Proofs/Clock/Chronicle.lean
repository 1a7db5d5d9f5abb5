import Duel.Proofs.Clock.Timers
import Mathlib.Algebra.Order.Ring.Unbundled.Rat

namespace Duel

variable {E J S L : Type}

namespace Clock

/-- How many timers have gone from the clock so far, set against those that it began with. -/
def gone (c : Clock Rat J) : Int := c.next - c.timers.length

theorem drain_perm {c c' : Clock Rat J} {limit : Rat} {ts : List (Timer Rat J)}
    (h : c.drain limit = (ts, c')) : (ts ++ c'.timers).Perm c.live := by
  obtain ⟨rfl, rfl⟩ := Prod.mk.inj h
  refine ((List.mergeSort_perm _ _).append_right _).trans ?_
  exact List.filter_append_perm _ c.live

theorem drain_gone {c c' : Clock Rat J} {limit : Rat} {ts : List (Timer Rat J)}
    (h : c.drain limit = (ts, c')) : c.gone + ts.length ≤ c'.gone := by
  have hn : c'.next = c.next := (drain_drained h).same.2.1
  have hl := (drain_perm h).length_eq
  have hlive : c.live.length ≤ c.timers.length := List.length_filter_le _ _
  rw [List.length_append] at hl
  unfold gone
  omega

theorem Works.gone_eq {c c' : Clock Rat J} (h : Works c c') : c'.gone = c.gone := by
  induction h with
  | rest c => rfl
  | @schedule c c' c'' delay job n hs _ ih =>
    have hg : c'.gone = c.gone := by
      cases schedule_eq c delay job ▸ hs
      simp only [gone, List.length_append, List.length_singleton]
      omega
    exact ih.trans hg
  | cancel number _ ih => exact ih

theorem positivePart_eq_max (x : Rat) : Scalar.positivePart x = max 0 x := by
  by_cases h : 0 ≤ x
  · rw [positivePart_of_nonneg h]
    grind
  · have hx : Scalar.less (Scalar.zero : Rat) x = false := decide_eq_false (by
      change ¬((0 : Int) : Rat) < x
      grind)
    unfold Scalar.positivePart
    rw [hx]
    change ((0 : Int) : Rat) = max 0 x
    grind

end Clock

namespace Timed

variable {fire : J → Work E Rat J S Unit}

theorem runAll_succ (fire : J → Work E Rat J S Unit) (fuel limit : Nat) (s : Timed Rat J S) :
    runAll fire fuel (limit + 1) s =
      match Scalar.least? (s.clock.live.map (·.due)) with
      | none => .ok () s
      | some due => (do advance fire fuel (due - s.clock.now); runAll fire fuel limit) s := by
  rw [runAll]
  refine (get_bind _ s).trans ?_
  cases Scalar.least? (s.clock.live.map (·.due)) with
  | none => rfl
  | some due => rfl

theorem runAll_cases {fuel limit : Nat} {s v : Timed Rat J S} {a : Unit}
    (h : runAll fire fuel (limit + 1) s = .ok a v) :
    (Scalar.least? (s.clock.live.map (·.due)) = none ∧ v = s) ∨
      ∃ due u, Scalar.least? (s.clock.live.map (·.due)) = some due ∧
        advance fire fuel (due - s.clock.now) s = .ok () u ∧
        runAll fire fuel limit u = .ok a v := by
  rw [runAll_succ] at h
  split at h
  · rename_i hl
    cases h
    exact .inl ⟨hl, rfl⟩
  · rename_i due hl
    obtain ⟨_, u, ha, h⟩ := bind_ok h
    exact .inr ⟨due, u, hl, ha, h⟩

theorem turnTo_le_iff {s : Timed Rat J S} {t : Timer Rat J} {limit : Rat} :
    (s.turnTo t).clock.now ≤ limit ↔ s.clock.now ≤ limit ∧ t.due ≤ limit := by
  simp only [turnTo, Scalar.larger, Scalar.less, decide_eq_true_eq]
  grind

theorem le_turnTo (s : Timed Rat J S) (t : Timer Rat J) :
    s.clock.now ≤ (s.turnTo t).clock.now ∧ t.due ≤ (s.turnTo t).clock.now :=
  turnTo_le_iff.mp Rat.le_refl

theorem Fires.gone_eq {ts : List (Timer Rat J)} {s u : Timed Rat J S}
    {fs : List (Firing Rat J)} (h : Fires fire ts s fs u) (hf : Lawful fire) :
    u.clock.gone = s.clock.gone := by
  induction h with
  | done s => rfl
  | skip _ _ ih => exact ih
  | @fire s u v t rest fs _ hj _ ih => exact ih.trans (hf t.job (s.turnTo t) u hj).gone_eq

/-- Every batch takes at least one timer off the clock. -/
theorem Drains.gone_le {limit : Rat} {fuel : Nat} {s v : Timed Rat J S}
    {log : List (Batch Rat J)} (h : Drains fire limit fuel s log v) (hf : Lawful fire) :
    s.clock.gone + log.length ≤ v.clock.gone := by
  induction h with
  | out s =>
    rw [List.length_nil]
    omega
  | @done fuel s c hd =>
    have hg := Clock.drain_gone hd
    exact hg
  | @batch fuel s u v c ts fs log hd hne hfire _ ih =>
    have hg := Clock.drain_gone hd
    have hu : u.clock.gone = c.gone := hfire.gone_eq hf
    have hpos : 0 < ts.length := List.length_pos_iff.mpr hne
    rw [List.length_cons]
    omega

/-- Where fuel is left, nothing is due any more. -/
theorem Drains.drained {limit : Rat} {fuel : Nat} {s v : Timed Rat J S}
    {log : List (Batch Rat J)} (h : Drains fire limit fuel s log v) (hl : log.length < fuel) :
    (v.clock.drain limit).1 = [] := by
  induction h with
  | out s => exact absurd hl (Nat.not_lt_zero _)
  | @done fuel s c hd =>
    have hdr := Clock.drain_drained hd
    refine List.eq_nil_iff_forall_not_mem.mpr fun t ht => ?_
    obtain ⟨hm, -, hdue⟩ := (Clock.drain_drained (c := c) rfl).taken t ht
    exact absurd hdue (Rat.not_le.mpr (hdr.left t hm))
  | batch _ _ _ _ ih => exact ih (Nat.lt_of_succ_lt_succ hl)

theorem Drains.more {limit : Rat} {fuel : Nat} {s v : Timed Rat J S} {log : List (Batch Rat J)}
    (h : Drains fire limit fuel s log v) (hl : log.length < fuel) (k : Nat) :
    Drains fire limit (fuel + k) s log v := by
  induction h with
  | out s => exact absurd hl (Nat.not_lt_zero _)
  | @done fuel s c hd =>
    rw [Nat.succ_add]
    exact .done hd
  | @batch fuel s u v c ts fs log hd hne hfire _ ih =>
    rw [Nat.succ_add]
    exact .batch hd hne hfire (ih (Nat.lt_of_succ_lt_succ hl))

/-- The timers of a batch go off, and `told` says what can be told of one whose job begins in a
state and ends in another. -/
inductive Goes (told : Timer Rat J → Timed Rat J S → List L → Timed Rat J S → Prop) :
    List (Timer Rat J) → Timed Rat J S → List L → Timed Rat J S → Prop
  | done (s : Timed Rat J S) : Goes told [] s [] s
  | skip {s u : Timed Rat J S} {t : Timer Rat J} {rest : List (Timer Rat J)} {log : List L}
      (hl : s.clock.isLive t = false) (h : Goes told rest s log u) :
      Goes told (t :: rest) s log u
  | fire {s u v : Timed Rat J S} {t : Timer Rat J} {rest : List (Timer Rat J)}
      {first log : List L} (hl : s.clock.isLive t = true) (ht : told t (s.turnTo t) first u)
      (h : Goes told rest u log v) : Goes told (t :: rest) s (first ++ log) v

/-- Batch after batch goes off, until nothing is due or no more are wanted. -/
inductive Empties (told : Timer Rat J → Timed Rat J S → List L → Timed Rat J S → Prop)
    (limit : Rat) : Timed Rat J S → List L → Timed Rat J S → Prop
  | out (s : Timed Rat J S) : Empties told limit s [] s
  | done {s : Timed Rat J S} {c : Clock Rat J} (hd : s.clock.drain limit = ([], c)) :
      Empties told limit s [] (s.withClock c)
  | batch {s u v : Timed Rat J S} {c : Clock Rat J} {ts : List (Timer Rat J)}
      {log more : List L} (hd : s.clock.drain limit = (ts, c))
      (hg : Goes told ts (s.withClock c) log u) (h : Empties told limit u more v) :
      Empties told limit s (log ++ more) v

variable {told : Timer Rat J → Timed Rat J S → List L → Timed Rat J S → Prop}

theorem Fires.goes {ts : List (Timer Rat J)} {s u : Timed Rat J S} {fs : List (Firing Rat J)}
    (h : Fires fire ts s fs u)
    (ht : ∀ t s u, fire t.job s = .ok () u → ∃ log, told t s log u) :
    ∃ log, Goes told ts s log u := by
  induction h with
  | done s => exact ⟨[], .done s⟩
  | skip hl _ ih =>
    obtain ⟨log, hg⟩ := ih
    exact ⟨log, .skip hl hg⟩
  | fire hl hj _ ih =>
    obtain ⟨first, hfirst⟩ := ht _ _ _ hj
    obtain ⟨log, hg⟩ := ih
    exact ⟨first ++ log, .fire hl hfirst hg⟩

theorem Drains.empties {limit : Rat} {fuel : Nat} {s v : Timed Rat J S}
    {batches : List (Batch Rat J)} (h : Drains fire limit fuel s batches v)
    (ht : ∀ t s u, fire t.job s = .ok () u → ∃ log, told t s log u) :
    ∃ log, Empties told limit s log v := by
  induction h with
  | out s => exact ⟨[], .out s⟩
  | done hd => exact ⟨[], .done hd⟩
  | batch hd _ hfire _ ih =>
    obtain ⟨log, hg⟩ := hfire.goes ht
    obtain ⟨more, hm⟩ := ih
    exact ⟨log ++ more, .batch hd hg hm⟩

end Timed

/-- What happens on a clock. Where it has been moved on, it is shown before and after. -/
inductive Happening (J : Type)
  | set (t : Timer Rat J)
  | cancelled (number : Nat)
  | fired (t : Timer Rat J)
  | moved (ms : Rat) (start stop : Clock Rat J)

namespace Happening

/-- What may happen after some past. A timer has a number of its own. It goes off once at most, if
it has been set and not cancelled. When the clock has been moved on, it shows the time that was
aimed at, what is due by then and not cancelled has gone off, and what is due later is kept. -/
def Proper (past : List (Happening J)) : Happening J → Prop
  | set t => ∀ u, set u ∈ past → u.number ≠ t.number
  | cancelled _ => True
  | fired t => set t ∈ past ∧ cancelled t.number ∉ past ∧
      ∀ u, fired u ∈ past → u.number ≠ t.number
  | moved ms start stop => stop.now = start.now + max 0 ms ∧
      ∀ t, set t ∈ past → cancelled t.number ∉ past →
        (t.due ≤ stop.now → fired t ∈ past) ∧
          (stop.now < t.due → t ∈ stop.timers ∧ fired t ∉ past)

end Happening

/-- A history in which everything that happens is proper. -/
def Keeping (hs : List (Happening J)) : Prop :=
  ∀ past x, past ++ [x] <+: hs → x.Proper past

theorem keeping_nil : Keeping ([] : List (Happening J)) := by
  intro past x h
  simpa using List.prefix_nil.mp h

theorem Keeping.concat {hs : List (Happening J)} {x : Happening J} (h : Keeping hs)
    (hx : x.Proper hs) : Keeping (hs ++ [x]) := by
  intro past y hy
  obtain he | hp := List.prefix_concat_iff.mp hy
  · obtain ⟨rfl, rfl⟩ := List.append_singleton_inj.mp he
    exact hx
  · exact h past y hp

namespace Clock

/-- A job sets timers and cancels them. -/
inductive Acts : Clock Rat J → List (Happening J) → Clock Rat J → Prop
  | rest (c : Clock Rat J) : Acts c [] c
  | schedule {c c' c'' : Clock Rat J} {delay : Rat} {job : J} {n : Nat}
      {hs : List (Happening J)} (hc : c.schedule delay job = .ok (n, c')) (h : Acts c' hs c'') :
      Acts c (.set ⟨c.now + Scalar.positivePart delay, n, job⟩ :: hs) c''
  | cancel {c c' : Clock Rat J} {hs : List (Happening J)} (number : Nat)
      (h : Acts (c.cancel number) hs c') : Acts c (.cancelled number :: hs) c'

theorem Works.acts {c c' : Clock Rat J} (h : Works c c') : ∃ hs, Acts c hs c' := by
  induction h with
  | rest c => exact ⟨[], .rest c⟩
  | schedule hs _ ih =>
    obtain ⟨hs', ha⟩ := ih
    exact ⟨_, .schedule hs ha⟩
  | cancel number _ ih =>
    obtain ⟨hs, ha⟩ := ih
    exact ⟨_, .cancel number ha⟩

/-- What a history says of the timers that are on a clock and in the batch that is being run. -/
structure Books (hs : List (Happening J)) (batch : List (Timer Rat J)) (c : Clock Rat J) :
    Prop where
  keeping : Keeping hs
  below : ∀ t, .set t ∈ hs → t.number < c.next
  waiting : ∀ t ∈ batch ++ c.timers, .set t ∈ hs ∧ ∀ u, .fired u ∈ hs → u.number ≠ t.number
  apart : (batch ++ c.timers).Pairwise (·.number ≠ ·.number)
  cancelled : ∀ n, n ∈ c.cancelled ↔ .cancelled n ∈ hs
  covered : ∀ t, .set t ∈ hs →
    .fired t ∈ hs ∨ t.number ∈ c.cancelled ∨ t ∈ batch ++ c.timers
  fired : ∀ t, .fired t ∈ hs → .set t ∈ hs ∧ t.due ≤ c.now

theorem isLive_iff {c : Clock Rat J} {t : Timer Rat J} :
    c.isLive t = true ↔ t.number ∉ c.cancelled := by
  simp [isLive]

theorem isLive_eq_false_iff {c : Clock Rat J} {t : Timer Rat J} :
    c.isLive t = false ↔ t.number ∈ c.cancelled := by
  simp [isLive]

namespace Books

variable {hs : List (Happening J)} {batch : List (Timer Rat J)} {c c' : Clock Rat J}

theorem fresh (now : Rat) : Books [] [] ({ now } : Clock Rat J) where
  keeping := keeping_nil
  below := by simp
  waiting := by simp
  apart := .nil
  cancelled := by simp
  covered := by simp
  fired := by simp

theorem set {delay : Rat} {job : J} {n : Nat} (h : Books hs batch c)
    (hc : c.schedule delay job = .ok (n, c')) :
    Books (hs ++ [.set ⟨c.now + Scalar.positivePart delay, n, job⟩]) batch c' := by
  cases schedule_eq c delay job ▸ hc
  let t : Timer Rat J := ⟨c.now + Scalar.positivePart delay, c.next, job⟩
  have hnew : ∀ u, Happening.set u ∈ hs → u.number ≠ t.number := fun u hu =>
    Nat.ne_of_lt (h.below u hu)
  have hfresh : ∀ u, Happening.fired u ∈ hs → u.number ≠ t.number := fun u hu =>
    hnew u (h.fired u hu).1
  constructor
  · exact h.keeping.concat hnew
  · intro u hu
    rcases List.mem_append.mp hu with hu | hu
    · exact Nat.lt_succ_of_lt (h.below u hu)
    · cases List.mem_singleton.mp hu
      exact Nat.lt_succ_self _
  · intro u hu
    rw [← List.append_assoc] at hu
    rcases List.mem_append.mp hu with hu | hu
    · obtain ⟨hset, hoff⟩ := h.waiting u hu
      exact ⟨List.mem_append_left _ hset, by simpa using hoff⟩
    · obtain rfl := List.mem_singleton.mp hu
      exact ⟨by simp, by simpa using hfresh⟩
  · rw [← List.append_assoc]
    refine List.pairwise_append.mpr ⟨h.apart, List.pairwise_singleton _ _, fun u hu v hv => ?_⟩
    obtain rfl := List.mem_singleton.mp hv
    exact hnew u (h.waiting u hu).1
  · intro n
    simpa using h.cancelled n
  · intro u hu
    rw [← List.append_assoc]
    rcases List.mem_append.mp hu with hu | hu
    · rcases h.covered u hu with ho | hc | hw
      · exact .inl (List.mem_append_left _ ho)
      · exact .inr (.inl hc)
      · exact .inr (.inr (List.mem_append_left _ hw))
    · cases List.mem_singleton.mp hu
      exact .inr (.inr (List.mem_append_right _ (List.mem_singleton.mpr rfl)))
  · intro u hu
    have hu : Happening.fired u ∈ hs := by simpa using hu
    exact ⟨List.mem_append_left _ (h.fired u hu).1, (h.fired u hu).2⟩

theorem cancel (h : Books hs batch c) (n : Nat) :
    Books (hs ++ [.cancelled n]) batch (c.cancel n) := by
  have hc : (c.cancel n).timers = c.timers := rfl
  constructor
  · exact h.keeping.concat trivial
  · intro t ht
    exact h.below t (by simpa using ht)
  · intro t ht
    simpa using h.waiting t ht
  · exact h.apart
  · intro m
    have hm : m ∈ (c.cancel n).cancelled ↔ m = n ∨ m ∈ c.cancelled := List.mem_cons
    rw [hm, h.cancelled m]
    simp [or_comm]
  · intro t ht
    rcases h.covered t (by simpa using ht) with ho | hk | hw
    · exact .inl (List.mem_append_left _ ho)
    · exact .inr (.inl (List.mem_cons_of_mem _ hk))
    · exact .inr (.inr hw)
  · intro t ht
    obtain ⟨hset, hdue⟩ := h.fired t (by simpa using ht)
    exact ⟨List.mem_append_left _ hset, hdue⟩

theorem acts {more : List (Happening J)} (h : Books hs batch c) (ha : Acts c more c') :
    Books (hs ++ more) batch c' ∧ c'.now = c.now := by
  induction ha generalizing hs with
  | rest c => exact ⟨(List.append_nil hs).symm ▸ h, rfl⟩
  | schedule hc _ ih =>
    obtain ⟨hb, hn⟩ := ih (h.set hc)
    rw [List.append_assoc] at hb
    exact ⟨hb, hn.trans (schedule_adds hc).1⟩
  | cancel number _ ih =>
    obtain ⟨hb, hn⟩ := ih (h.cancel number)
    rw [List.append_assoc] at hb
    exact ⟨hb, hn⟩

/-- What can still go off is in the batch or stays on the clock, and the rest was cancelled. -/
theorem drain {limit : Rat} {ts : List (Timer Rat J)} (h : Books hs [] c)
    (hd : c.drain limit = (ts, c')) : Books hs ts c' := by
  obtain ⟨hnow, hnext, hcancelled⟩ := (drain_drained hd).same
  have hp := drain_perm hd
  have hsub : ∀ t ∈ ts ++ c'.timers, t ∈ [] ++ c.timers := fun t ht =>
    (List.mem_filter.mp (hp.subset ht)).1
  constructor
  · exact h.keeping
  · exact hnext ▸ h.below
  · exact fun t ht => h.waiting t (hsub t ht)
  · refine (hp.pairwise_iff Ne.symm).mpr ?_
    exact h.apart.sublist List.filter_sublist
  · exact hcancelled ▸ h.cancelled
  · intro t ht
    rcases h.covered t ht with ho | hk | hw
    · exact .inl ho
    · exact .inr (.inl (hcancelled ▸ hk))
    · by_cases hk : t.number ∈ c.cancelled
      · exact .inr (.inl (hcancelled ▸ hk))
      · exact .inr (.inr (hp.mem_iff.mpr (List.mem_filter.mpr ⟨hw, isLive_iff.mpr hk⟩)))
  · exact hnow ▸ h.fired

theorem skip {t : Timer Rat J} {rest : List (Timer Rat J)} (h : Books hs (t :: rest) c)
    (hk : t.number ∈ c.cancelled) : Books hs rest c where
  keeping := h.keeping
  below := h.below
  waiting u hu := h.waiting u (List.mem_cons_of_mem t hu)
  apart := (List.pairwise_cons.mp h.apart).2
  cancelled := h.cancelled
  covered u hu := by
    rcases h.covered u hu with ho | hk | hw
    · exact .inl ho
    · exact .inr (.inl hk)
    · rcases List.mem_cons.mp hw with rfl | hw
      · exact .inr (.inl hk)
      · exact .inr (.inr hw)
  fired := h.fired

theorem fire {t : Timer Rat J} {rest : List (Timer Rat J)} {now : Rat}
    (h : Books hs (t :: rest) c) (hl : c.isLive t = true) (hc : c.now ≤ now)
    (ht : t.due ≤ now) : Books (hs ++ [.fired t]) rest { c with now } := by
  obtain ⟨hset, hoff⟩ := h.waiting t List.mem_cons_self
  obtain ⟨hother, hrest⟩ := List.pairwise_cons.mp h.apart
  have hk : Happening.cancelled t.number ∉ hs := fun hm =>
    isLive_iff.mp hl ((h.cancelled t.number).mpr hm)
  constructor
  · exact h.keeping.concat ⟨hset, hk, hoff⟩
  · intro u hu
    exact h.below u (by simpa using hu)
  · intro u hu
    obtain ⟨hs', ho⟩ := h.waiting u (List.mem_cons_of_mem t hu)
    refine ⟨List.mem_append_left _ hs', fun v hv => ?_⟩
    rcases List.mem_append.mp hv with hv | hv
    · exact ho v hv
    · cases List.mem_singleton.mp hv
      exact hother u hu
  · exact hrest
  · intro n
    simpa using h.cancelled n
  · intro u hu
    rcases h.covered u (by simpa using hu) with ho | hk | hw
    · exact .inl (List.mem_append_left _ ho)
    · exact .inr (.inl hk)
    · rcases List.mem_cons.mp hw with rfl | hw
      · exact .inl (by simp)
      · exact .inr (.inr hw)
  · intro u hu
    rcases List.mem_append.mp hu with hu | hu
    · obtain ⟨hs', hdue⟩ := h.fired u hu
      exact ⟨List.mem_append_left _ hs', Rat.le_trans hdue hc⟩
    · cases List.mem_singleton.mp hu
      exact ⟨List.mem_append_left _ hset, ht⟩

theorem moved {ms now : Rat} {start : Clock Rat J} (h : Books hs batch c) (hn : c.now ≤ now)
    (hx : (Happening.moved ms start { c with now }).Proper hs) :
    Books (hs ++ [.moved ms start { c with now }]) batch { c with now } := by
  constructor
  · exact h.keeping.concat hx
  · exact fun t ht => h.below t (by simpa using ht)
  · intro t ht
    obtain ⟨hset, hoff⟩ := h.waiting t ht
    exact ⟨List.mem_append_left _ hset, by simpa using hoff⟩
  · exact h.apart
  · intro n
    simpa using h.cancelled n
  · intro t ht
    rcases h.covered t (by simpa using ht) with hoff | hrest
    · exact .inl (List.mem_append_left _ hoff)
    · exact .inr hrest
  · intro t ht
    obtain ⟨hset, hdue⟩ := h.fired t (by simpa using ht)
    exact ⟨List.mem_append_left _ hset, Rat.le_trans hdue hn⟩

end Books

end Clock

end Duel
