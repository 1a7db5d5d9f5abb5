import Duel.Proofs.Clock.Timers

namespace Duel

open Clock (Clear Sound Works)

variable {E J S : Type}

/-- Jobs run in the order in which they are due, those that are due at once in the order in which
they were set, and each finds the clock at its own due time. -/
structure Punctual (fs : List (Firing Rat J)) : Prop where
  ordered : fs.Pairwise fun f g => f.timer.due ≤ g.timer.due
  fair : fs.Pairwise fun f g => f.timer.due = g.timer.due → f.timer.number < g.timer.number
  exact : ∀ f ∈ fs, f.seen = f.timer.due

/-- No timer goes off after one of an earlier batch that is due later. -/
def InTurn (log : List (Batch Rat J)) : Prop :=
  log.Pairwise fun b b' => ∀ f ∈ b.fired, ∀ g ∈ b'.fired, f.timer.due ≤ g.timer.due

namespace Timed

variable {fire : J → Work E Rat J S Unit}

/-- Moving the clock on, with a log of what went off. -/
def Advances (fire : J → Work E Rat J S Unit) (fuel : Nat) (ms : Rat) (s : Timed Rat J S)
    (log : List (Batch Rat J)) (s' : Timed Rat J S) : Prop :=
  ∃ u, Drains fire (s.clock.now + Scalar.positivePart ms) fuel s log u ∧
    s' = { u with clock.now := s.clock.now + Scalar.positivePart ms }

theorem advance_advances {fuel : Nat} {ms : Rat} {s s' : Timed Rat J S} {a : Unit}
    (h : advance fire fuel ms s = .ok a s') : ∃ log, Advances fire fuel ms s log s' := by
  obtain ⟨_, _, hg, h⟩ := bind_ok h
  obtain ⟨rfl, rfl⟩ := get_ok hg
  obtain ⟨target, _, ht, h⟩ := bind_ok h
  obtain ⟨rfl, rfl⟩ := pure_ok ht
  obtain ⟨_, u, hd, h⟩ := bind_ok h
  obtain rfl := modify_ok h
  obtain ⟨log, hl⟩ := drainAll_drains hd
  exact ⟨log, u, hl, rfl⟩

theorem Advances.advance_eq {fuel : Nat} {ms : Rat} {s s' : Timed Rat J S}
    {log : List (Batch Rat J)} (h : Advances fire fuel ms s log s') :
    advance fire fuel ms s = .ok () s' := by
  obtain ⟨u, hd, rfl⟩ := h
  refine (get_bind _ s).trans ?_
  exact (bind_of_ok hd.drainAll_eq _).trans rfl

/-- The clocks that there are: a new one, and one that has been worked on or moved on until
nothing was due any more. -/
inductive Reached (fire : J → Work E Rat J S Unit) : Timed Rat J S → Prop
  | fresh (now : Rat) (state : S) : Reached fire ⟨{ now }, state⟩
  | works {s : Timed Rat J S} {c : Clock Rat J} (state : S) (h : Reached fire s)
      (hw : Works s.clock c) : Reached fire ⟨c, state⟩
  | advance {s s' : Timed Rat J S} {fuel : Nat} {ms : Rat} (h : Reached fire s)
      (ha : Timed.advance fire fuel ms s = .ok () s')
      (hd : (s'.clock.drain s'.clock.now).1 = []) : Reached fire s'

theorem Advances.spec {fuel : Nat} {ms : Rat} {s s' : Timed Rat J S} {log : List (Batch Rat J)}
    (h : Advances fire fuel ms s log s') (hf : Lawful fire) (hs : s.clock.Sound)
    (hc : s.clock.Clear s.clock.now) :
    Sorted s.clock.now log ∧ (∃ later, Seen s.clock.now (firings log) later) ∧
      s'.clock.Sound := by
  obtain ⟨u, hd, rfl⟩ := h
  obtain ⟨hsort, hseen, hu⟩ := hd.spec hf hs Rat.le_refl hc
  exact ⟨hsort, ⟨_, hseen⟩, hu.numbered, hu.below⟩

theorem Reached.sound {s : Timed Rat J S} (h : Reached fire s) (hf : Lawful fire) :
    s.clock.Sound ∧ s.clock.Clear s.clock.now := by
  induction h with
  | fresh => exact ⟨⟨.nil, by simp⟩, by simp [Clear]⟩
  | works state _ hw ih =>
    obtain ⟨hn, ha⟩ := hw.adds
    exact ⟨ha.sound ih.1, hn ▸ ha.clear ih.2⟩
  | @advance s s' fuel ms _ ha hd ih =>
    obtain ⟨log, hl⟩ := advance_advances ha
    refine ⟨(hl.spec hf ih.1 ih.2).2.2, fun t ht hlive => ?_⟩
    by_cases hdue : t.due ≤ s'.clock.now
    · have hm : t ∈ (s'.clock.drain s'.clock.now).1 := by
        refine List.mem_mergeSort.mpr (List.mem_filter.mpr ⟨?_, decide_eq_true hdue⟩)
        exact List.mem_filter.mpr ⟨ht, hlive⟩
      rw [hd] at hm
      cases hm
    · exact Rat.le_of_lt (Rat.not_le.mp hdue)

theorem Sorted.fair {time : Rat} {log : List (Batch Rat J)} (h : Sorted time log) :
    (firings log).Pairwise fun f g =>
      f.timer.due = g.timer.due → f.timer.number < g.timer.number := by
  refine List.pairwise_flatMap.mpr ⟨fun b hb => ?_, ?_⟩
  · refine (h.sorted b hb).imp fun {f g} hfg he => ?_
    rcases hfg with hlt | ⟨-, hlt⟩
    · rw [he] at hlt
      exact absurd hlt Rat.lt_irrefl
    · exact hlt
  · refine List.Pairwise.imp_of_mem (fun hb _ hbb f hf g hg _ => ?_) h.later
    exact Nat.lt_of_lt_of_le (h.below _ hb f hf) (hbb g hg)

/-- Batches are in order by themselves, so that only a later batch can be out of turn. -/
theorem Sorted.punctual_iff {time later : Rat} {log : List (Batch Rat J)} (h : Sorted time log)
    (hs : Seen time (firings log) later) : Punctual (firings log) ↔ InTurn log := by
  constructor
  · intro hp
    exact (List.pairwise_flatMap.mp hp.ordered).2
  · intro ht
    have ho : (firings log).Pairwise fun f g => f.timer.due ≤ g.timer.due := by
      refine List.pairwise_flatMap.mpr ⟨fun b hb => ?_, ht⟩
      refine (h.sorted b hb).imp fun {f g} hfg => ?_
      rcases hfg with hlt | ⟨he, -⟩
      · exact Rat.le_of_lt hlt
      · exact he ▸ Rat.le_refl
    exact ⟨ho, h.fair, hs.exact h.ahead ho⟩

/-- Timers that are due at once go off as they were set, and the clock never goes back. All is
punctual unless a timer that a job has set comes after one that is due later. -/
theorem advance_punctual_iff (hf : Lawful fire) {s s' : Timed Rat J S} (hs : Reached fire s)
    {fuel : Nat} {ms : Rat} (h : advance fire fuel ms s = .ok () s') :
    ∃ log later, Advances fire fuel ms s log s' ∧ Sorted s.clock.now log ∧
      Seen s.clock.now (firings log) later ∧
      (firings log).Pairwise (fun f g =>
        f.timer.due = g.timer.due → f.timer.number < g.timer.number) ∧
      (Punctual (firings log) ↔ InTurn log) := by
  obtain ⟨hsound, hclear⟩ := hs.sound hf
  obtain ⟨log, hl⟩ := advance_advances h
  obtain ⟨hsort, ⟨later, hseen⟩, -⟩ := hl.spec hf hsound hclear
  exact ⟨log, later, hl, hsort, hseen, hsort.fair, hsort.punctual_iff hseen⟩

def chime : Option Rat → Work Empty Rat (Option Rat) Unit Unit
  | none => pure ()
  | some delay => discard (schedule delay none)

theorem lawful_chime : Lawful chime := by
  intro j s s' h
  cases j with
  | none =>
    obtain ⟨-, rfl⟩ := pure_ok h
    exact .rest _
  | some delay =>
    obtain ⟨_, h⟩ := discard_ok h
    obtain ⟨_, _, hg, h⟩ := bind_ok h
    obtain ⟨rfl, rfl⟩ := get_ok hg
    cases h
    exact .schedule rfl (.rest _)

theorem chime_some (delay : Rat) (s : Timed Rat (Option Rat) Unit) :
    chime (some delay) s = .ok () (s.withClock { s.clock with
      timers := s.clock.timers ++ [⟨s.clock.now + Scalar.positivePart delay, s.clock.next, none⟩]
      next := s.clock.next + 1 }) :=
  rfl

def chimes : Timed Rat (Option Rat) Unit :=
  ⟨{ now := 0, timers := [⟨10, 0, some 5⟩, ⟨20, 1, none⟩], next := 2 }, ()⟩

theorem reached_chimes : Reached chime chimes := by
  have h₁ : ({ now := 0 } : Clock Rat (Option Rat)).schedule 10 (some 5) =
      .ok (0, { now := 0, timers := [⟨10, 0, some 5⟩], next := 1 }) := by
    rw [Clock.schedule_eq, show (0 : Rat) + Scalar.positivePart 10 = 10 by decide +kernel]
    rfl
  have h₂ : ({ now := 0, timers := [⟨10, 0, some 5⟩], next := 1 } :
      Clock Rat (Option Rat)).schedule 20 none = .ok (1, chimes.clock) := by
    rw [Clock.schedule_eq, show (0 : Rat) + Scalar.positivePart 20 = 20 by decide +kernel]
    rfl
  exact .works () (.fresh 0 ()) (.schedule h₁ (.schedule h₂ (.rest _)))

theorem Fires.turned {s s₁ u v : Timed Rat J S} {t : Timer Rat J} {rest : List (Timer Rat J)}
    {fs : List (Firing Rat J)} (hl : s.clock.isLive t = true) (ht : s.turnTo t = s₁)
    (hj : fire t.job s₁ = .ok () u) (h : Fires fire rest u fs v) :
    Fires fire (t :: rest) s (⟨t, s₁.clock.now⟩ :: fs) v := by
  subst ht
  exact .fire hl hj h

theorem chimes_drains : Drains chime 30 3 chimes
    [⟨2, [⟨⟨10, 0, some 5⟩, 10⟩, ⟨⟨20, 1, none⟩, 20⟩]⟩, ⟨3, [⟨⟨15, 2, none⟩, 20⟩]⟩]
    ⟨{ now := 20, next := 3 }, ()⟩ := by
  have h₁ : chimes.clock.drain 30 = (chimes.clock.timers, { now := 0, next := 2 }) := by
    refine Prod.ext ?_ rfl
    exact List.mergeSort_of_pairwise (by decide +kernel)
  have h₂ : ({ now := 20, timers := [⟨15, 2, none⟩], next := 3 } :
      Clock Rat (Option Rat)).drain 30 = ([⟨15, 2, none⟩], { now := 20, next := 3 }) := by
    refine Prod.ext ?_ rfl
    exact List.mergeSort_of_pairwise (by decide +kernel)
  have h₃ : ({ now := 20, next := 3 } : Clock Rat (Option Rat)).drain 30 =
      ([], { now := 20, next := 3 }) := by
    refine Prod.ext ?_ rfl
    exact List.mergeSort_of_pairwise (by decide +kernel)
  have hd : (10 : Rat) + Scalar.positivePart 5 = 15 := by decide +kernel
  have hj : chime (some 5) ⟨{ now := 10, next := 2 }, ()⟩ =
      .ok () ⟨{ now := 10, timers := [⟨15, 2, none⟩], next := 3 }, ()⟩ := by
    rw [chime_some, hd]
    rfl
  have hl : Scalar.larger (0 : Rat) 10 = 10 ∧ Scalar.larger (10 : Rat) 20 = 20 ∧
      Scalar.larger (20 : Rat) 15 = 20 := by decide +kernel
  have t₁ : (chimes.withClock { now := 0, next := 2 }).turnTo ⟨10, 0, some 5⟩ =
      ⟨{ now := 10, next := 2 }, ()⟩ := by
    simp only [turnTo, withClock, hl, chimes]
  have t₂ : (⟨{ now := 10, timers := [⟨15, 2, none⟩], next := 3 }, ()⟩ :
      Timed Rat (Option Rat) Unit).turnTo ⟨20, 1, none⟩ =
      ⟨{ now := 20, timers := [⟨15, 2, none⟩], next := 3 }, ()⟩ := by
    simp only [turnTo, hl]
  have t₃ : (⟨{ now := 20, next := 3 }, ()⟩ : Timed Rat (Option Rat) Unit).turnTo
      ⟨15, 2, none⟩ = ⟨{ now := 20, next := 3 }, ()⟩ := by
    simp only [turnTo, hl]
  exact .batch h₁ (by decide) (.turned rfl t₁ hj (.turned rfl t₂ rfl (.done _)))
    (.batch h₂ (by decide) (.turned rfl t₃ rfl (.done _)) (.done h₃))

theorem chimes_advances : Advances chime 3 30 chimes
    [⟨2, [⟨⟨10, 0, some 5⟩, 10⟩, ⟨⟨20, 1, none⟩, 20⟩]⟩, ⟨3, [⟨⟨15, 2, none⟩, 20⟩]⟩]
    ⟨{ now := 30, next := 3 }, ()⟩ := by
  have ht : chimes.clock.now + Scalar.positivePart 30 = 30 := by decide +kernel
  refine ⟨_, ht.symm ▸ chimes_drains, ?_⟩
  rw [ht]

theorem advance_punctual_iff_chimes : ∃ s', advance chime 3 30 chimes = .ok () s' ∧
    ∃ log later, Advances chime 3 30 chimes log s' ∧ Sorted chimes.clock.now log ∧
      Seen chimes.clock.now (firings log) later ∧
      (firings log).Pairwise (fun f g =>
        f.timer.due = g.timer.due → f.timer.number < g.timer.number) ∧
      (Punctual (firings log) ↔ InTurn log) :=
  ⟨_, chimes_advances.advance_eq,
    advance_punctual_iff lawful_chime reached_chimes chimes_advances.advance_eq⟩

/-- The timer for 15 goes off after the one for 20, and its job finds the clock at 20. -/
theorem not_punctual : Lawful chime ∧ Reached chime chimes ∧ ∃ log s',
    advance chime 3 30 chimes = .ok () s' ∧ Advances chime 3 30 chimes log s' ∧
      (firings log).map (fun f => (f.timer.due, f.seen)) = [(10, 10), (20, 20), (15, 20)] ∧
      ¬ Punctual (firings log) := by
  refine ⟨lawful_chime, reached_chimes, _, _, chimes_advances.advance_eq, chimes_advances, rfl,
    fun h => ?_⟩
  have he := h.exact ⟨⟨15, 2, none⟩, 20⟩ (by simp [firings])
  exact absurd he (by decide)

end Timed

end Duel
