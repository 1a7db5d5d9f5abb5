import Duel.Clock.Script
import Duel.Proofs.Clock.Chronicle
import Duel.Proofs.Clock.Punctual
import Mathlib

namespace Duel

variable {E J S : Type}

/-- The clock as it is seen at some time, and what the advance under way then aims at. -/
structure Sight where
  now : Rat
  limit : Option Rat

def Sight.Within (x : Sight) : Prop := ∀ limit, x.limit = some limit → x.now ≤ limit

/-- The clock goes from one time through others to another one, and never back. -/
def Rises : Rat → List Sight → Rat → Prop
  | now, [], later => now ≤ later
  | now, x :: xs, later => now ≤ x.now ∧ Rises x.now xs later

theorem Rises.from_le {a b c : Rat} {xs : List Sight} (hab : a ≤ b) (h : Rises b xs c) :
    Rises a xs c := by
  cases xs with
  | nil => exact Rat.le_trans hab h
  | cons x xs => exact ⟨Rat.le_trans hab h.1, h.2⟩

theorem Rises.append {a b c : Rat} {xs ys : List Sight} (h : Rises a xs b) (h' : Rises b ys c) :
    Rises a (xs ++ ys) c := by
  induction xs generalizing a with
  | nil => exact h'.from_le h
  | cons x xs ih => exact ⟨h.1, ih h.2⟩

theorem Rises.pairwise {a b : Rat} {xs : List Sight} (h : Rises a xs b) :
    (a :: xs.map (·.now)).Pairwise (· ≤ ·) := by
  induction xs generalizing a with
  | nil => exact List.pairwise_singleton _ _
  | cons x xs ih =>
    have hp := ih h.2
    refine List.pairwise_cons.mpr ⟨fun t ht => ?_, hp⟩
    rcases List.mem_cons.mp ht with rfl | ht
    · exact h.1
    · exact Rat.le_trans h.1 ((List.pairwise_cons.mp hp).1 t ht)

namespace Timed

/-- What a job of a level may do: set timers and cancel them, and move the clock, where the jobs
that go off are of lower levels. -/
inductive Does (fire : Nat → J → Work E Rat J S Unit) (level : Nat) :
    Timed Rat J S → Timed Rat J S → Prop
  | rest (s : Timed Rat J S) : Does fire level s s
  | aside {s u : Timed Rat J S} (state : S) (h : Does fire level ⟨s.clock, state⟩ u) :
      Does fire level s u
  | schedule {s u : Timed Rat J S} {c : Clock Rat J} {delay : Rat} {job : J} {n : Nat}
      (hc : s.clock.schedule delay job = .ok (n, c)) (h : Does fire level (s.withClock c) u) :
      Does fire level s u
  | cancel {s u : Timed Rat J S} (number : Nat)
      (h : Does fire level (s.withClock (s.clock.cancel number)) u) : Does fire level s u
  | advance {s u v : Timed Rat J S} {lower fuel : Nat} {ms : Rat} (hl : lower < level)
      (ha : Timed.advance (fire lower) fuel ms s = .ok () u) (h : Does fire level u v) :
      Does fire level s v
  | runAll {s u v : Timed Rat J S} {lower fuel limit : Nat} (hl : lower < level)
      (ha : Timed.runAll (fire lower) fuel limit s = .ok () u) (h : Does fire level u v) :
      Does fire level s v

/-- Jobs of each level do what they may. -/
def Nested (fire : Nat → J → Work E Rat J S Unit) : Prop :=
  ∀ level j s u, fire level j s = .ok () u → Does fire level s u

/-- What is seen of the clock after each call, and by the jobs that go off in an advance. -/
inductive Sees (told : Rat → Timer Rat J → Timed Rat J S → List Sight → Timed Rat J S → Prop)
    (limit : Option Rat) : Timed Rat J S → List Sight → Timed Rat J S → Prop
  | rest (s : Timed Rat J S) : Sees told limit s [] s
  | aside {s u : Timed Rat J S} {xs : List Sight} (state : S)
      (h : Sees told limit ⟨s.clock, state⟩ xs u) : Sees told limit s xs u
  | schedule {s u : Timed Rat J S} {c : Clock Rat J} {xs : List Sight} {delay : Rat} {job : J}
      {n : Nat} (hc : s.clock.schedule delay job = .ok (n, c))
      (h : Sees told limit (s.withClock c) xs u) :
      Sees told limit s (⟨c.now, limit⟩ :: xs) u
  | cancel {s u : Timed Rat J S} {xs : List Sight} (number : Nat)
      (h : Sees told limit (s.withClock (s.clock.cancel number)) xs u) :
      Sees told limit s (⟨s.clock.now, limit⟩ :: xs) u
  | advance {s u v : Timed Rat J S} {inner xs : List Sight} {ms target : Rat}
      (ht : target = s.clock.now + max 0 ms) (he : Empties (told target) target s inner u)
      (h : Sees told limit { u with clock.now := target } xs v) :
      Sees told limit s (inner ++ ⟨target, limit⟩ :: xs) v

/-- What is seen when a timer goes off whose job is below a level: the clock as the job begins,
and then what the job itself sees. -/
def Inside (fire : Nat → J → Work E Rat J S Unit) :
    Nat → Rat → Timer Rat J → Timed Rat J S → List Sight → Timed Rat J S → Prop
  | 0, _, _, _, _, _ => False
  | level + 1, target, t, s, xs, u =>
    Inside fire level target t s xs u ∨
      (fire level t.job s = .ok () u ∧
        ∃ rest, Sees (Inside fire level) (some target) s rest u ∧
          xs = ⟨s.clock.now, some target⟩ :: rest)

variable {fire : Nat → J → Work E Rat J S Unit} {s u v : Timed Rat J S} {xs ys : List Sight}
  {told : Rat → Timer Rat J → Timed Rat J S → List Sight → Timed Rat J S → Prop}
  {limit : Option Rat} {target : Rat}

theorem Sees.trans (h : Sees told limit s xs u) (h' : Sees told limit u ys v) :
    Sees told limit s (xs ++ ys) v := by
  induction h with
  | rest s => exact h'
  | aside state _ ih => exact .aside state (ih h')
  | schedule hc _ ih => exact .schedule hc (ih h')
  | cancel number _ ih => exact .cancel number (ih h')
  | advance ht he _ ih =>
    rw [List.append_assoc]
    exact .advance ht he (ih h')

section Showing

variable {level : Nat}

theorem advance_sees {fire : J → Work E Rat J S Unit} {fuel : Nat} {ms : Rat} {a : Unit}
    (ht : ∀ target t s u, fire t.job s = .ok () u → ∃ xs, told target t s xs u)
    (h : advance fire fuel ms s = .ok a u) : ∃ xs, Sees told limit s xs u := by
  obtain ⟨batches, v, hd, rfl⟩ := advance_advances h
  have htarget : s.clock.now + Scalar.positivePart ms = s.clock.now + max 0 ms :=
    congrArg (s.clock.now + ·) (Clock.positivePart_eq_max ms)
  obtain ⟨inner, he⟩ := hd.empties (ht _)
  exact ⟨_, .advance htarget he (.rest _)⟩

theorem runAll_sees {fire : J → Work E Rat J S Unit} {fuel count : Nat} {a : Unit}
    (ht : ∀ target t s u, fire t.job s = .ok () u → ∃ xs, told target t s xs u)
    (h : runAll fire fuel count s = .ok a u) : ∃ xs, Sees told limit s xs u := by
  induction count generalizing s with
  | zero =>
    obtain ⟨-, rfl⟩ := pure_ok h
    exact ⟨[], .rest _⟩
  | succ count ih =>
    rcases runAll_cases h with ⟨-, rfl⟩ | ⟨due, w, -, ha, h⟩
    · exact ⟨[], .rest _⟩
    · obtain ⟨xs, hx⟩ := advance_sees ht ha
      obtain ⟨ys, hy⟩ := ih h
      exact ⟨xs ++ ys, hx.trans hy⟩

theorem Does.trans (h : Does fire level s u) (h' : Does fire level u v) :
    Does fire level s v := by
  induction h with
  | rest s => exact h'
  | aside state _ ih => exact .aside state (ih h')
  | schedule hc _ ih => exact .schedule hc (ih h')
  | cancel number _ ih => exact .cancel number (ih h')
  | advance hl ha _ ih => exact .advance hl ha (ih h')
  | runAll hl ha _ ih => exact .runAll hl ha (ih h')

theorem Does.of_le {higher : Nat} (h : Does fire level s u) (hl : level ≤ higher) :
    Does fire higher s u := by
  induction h with
  | rest s => exact .rest s
  | aside state _ ih => exact .aside state ih
  | schedule hc _ ih => exact .schedule hc ih
  | cancel number _ ih => exact .cancel number ih
  | advance hlower ha _ ih => exact .advance (Nat.lt_of_lt_of_le hlower hl) ha ih
  | runAll hlower ha _ ih => exact .runAll (Nat.lt_of_lt_of_le hlower hl) ha ih

theorem Does.sees (h : Does fire level s u)
    (ht : ∀ lower < level, ∀ target t s u, fire lower t.job s = .ok () u →
      ∃ xs, told target t s xs u) : ∃ xs, Sees told limit s xs u := by
  induction h with
  | rest s => exact ⟨[], .rest s⟩
  | aside state _ ih =>
    obtain ⟨xs, hx⟩ := ih
    exact ⟨xs, .aside state hx⟩
  | schedule hc _ ih =>
    obtain ⟨xs, hx⟩ := ih
    exact ⟨_, .schedule hc hx⟩
  | cancel number _ ih =>
    obtain ⟨xs, hx⟩ := ih
    exact ⟨_, .cancel number hx⟩
  | advance hl ha _ ih =>
    obtain ⟨xs, hx⟩ := advance_sees (ht _ hl) ha
    obtain ⟨ys, hy⟩ := ih
    exact ⟨xs ++ ys, hx.trans hy⟩
  | runAll hl ha _ ih =>
    obtain ⟨xs, hx⟩ := runAll_sees (ht _ hl) ha
    obtain ⟨ys, hy⟩ := ih
    exact ⟨xs ++ ys, hx.trans hy⟩

theorem inside_of_fire (hf : Nested fire) {lower : Nat} (hl : lower < level) (target : Rat)
    (t : Timer Rat J) (s u : Timed Rat J S) (h : fire lower t.job s = .ok () u) :
    ∃ xs, Inside fire level target t s xs u := by
  induction level generalizing lower target t s u with
  | zero => exact absurd hl (Nat.not_lt_zero _)
  | succ level ih =>
    rcases Nat.lt_succ_iff_lt_or_eq.mp hl with hl | rfl
    · obtain ⟨xs, hx⟩ := ih hl target t s u h
      exact ⟨xs, .inl hx⟩
    · obtain ⟨rest, hr⟩ := (hf lower t.job s u h).sees fun _ hl => ih hl
      exact ⟨_, .inr ⟨h, rest, hr, rfl⟩⟩

end Showing

section Mounting

def Mounts (told : Rat → Timer Rat J → Timed Rat J S → List Sight → Timed Rat J S → Prop) : Prop :=
  ∀ ⦃target t s xs u⦄, told target t s xs u → s.clock.now ≤ target → (∀ x ∈ xs, x.Within) →
    Rises s.clock.now xs u.clock.now ∧ u.clock.now ≤ target

variable {ts : List (Timer Rat J)}

theorem Goes.mounts (hm : Mounts told) (h : Goes (told target) ts s xs u)
    (hn : s.clock.now ≤ target) (ht : ∀ t ∈ ts, t.due ≤ target) (hx : ∀ x ∈ xs, x.Within) :
    Rises s.clock.now xs u.clock.now ∧ u.clock.now ≤ target := by
  induction h with
  | done s => exact ⟨Rat.le_refl, hn⟩
  | skip _ _ ih => exact ih hn (fun t hmem => ht t (List.mem_cons_of_mem _ hmem)) hx
  | @fire s u v t rest first log _ hfirst _ ih =>
    obtain ⟨hx₁, hx₂⟩ := List.forall_mem_append.mp hx
    have hturn := turnTo_le_iff.mpr ⟨hn, ht t List.mem_cons_self⟩
    obtain ⟨hr₁, hu⟩ := hm hfirst hturn hx₁
    obtain ⟨hr₂, hv⟩ := ih hu (fun t hmem => ht t (List.mem_cons_of_mem _ hmem)) hx₂
    exact ⟨(hr₁.from_le (le_turnTo s t).1).append hr₂, hv⟩

theorem Empties.mounts (hm : Mounts told) (h : Empties (told target) target s xs u)
    (hn : s.clock.now ≤ target) (hx : ∀ x ∈ xs, x.Within) :
    Rises s.clock.now xs u.clock.now ∧ u.clock.now ≤ target := by
  induction h with
  | out s => exact ⟨Rat.le_refl, hn⟩
  | done hd =>
    have hnow := (Clock.drain_drained hd).same.1
    exact ⟨hnow ▸ Rat.le_refl, hnow ▸ hn⟩
  | @batch s u v c ts first more hd hg _ ih =>
    obtain ⟨hx₁, hx₂⟩ := List.forall_mem_append.mp hx
    have hdr := Clock.drain_drained hd
    have hnow : c.now = s.clock.now := hdr.same.1
    have hle : s.clock.now ≤ c.now := hnow ▸ Rat.le_refl
    have hc : c.now ≤ target := hnow ▸ hn
    obtain ⟨hr₁, hu⟩ := hg.mounts hm hc (fun t ht => (hdr.taken t ht).2.2) hx₁
    obtain ⟨hr₂, hv⟩ := ih hu hx₂
    exact ⟨(hr₁.from_le hle).append hr₂, hv⟩

theorem Sees.mounts (hm : Mounts told) (h : Sees told limit s xs u) (hx : ∀ x ∈ xs, x.Within) :
    Rises s.clock.now xs u.clock.now ∧
      ∀ bound, limit = some bound → s.clock.now ≤ bound → u.clock.now ≤ bound := by
  induction h with
  | rest s => exact ⟨Rat.le_refl, fun _ _ hn => hn⟩
  | aside state _ ih => exact ih hx
  | @schedule s u c xs delay job n hc _ ih =>
    have hnow : s.clock.now = c.now := by
      cases hc
      rfl
    obtain ⟨hr, hu⟩ := ih (List.forall_mem_cons.mp hx).2
    exact ⟨⟨hnow ▸ Rat.le_refl, hr⟩, fun b hb hn => hu b hb (hnow ▸ hn)⟩
  | cancel number _ ih =>
    obtain ⟨hr, hu⟩ := ih (List.forall_mem_cons.mp hx).2
    exact ⟨⟨Rat.le_refl, hr⟩, hu⟩
  | @advance s u v inner xs ms target ht he _ ih =>
    obtain ⟨hinner, hx⟩ := List.forall_mem_append.mp hx
    obtain ⟨hhere, hx⟩ := List.forall_mem_cons.mp hx
    have hn : s.clock.now ≤ target := by grind
    obtain ⟨hr, hu⟩ := he.mounts hm hn hinner
    obtain ⟨hrest, hv⟩ := ih hx
    exact ⟨hr.append ⟨hu, hrest⟩, fun b hb _ => hv b hb (hhere b hb)⟩

theorem inside_mounts (fire : Nat → J → Work E Rat J S Unit) (level : Nat) :
    Mounts (Inside fire level) := by
  induction level with
  | zero => exact fun _ _ _ _ _ h => h.elim
  | succ level ih =>
    rintro target t s xs u (h | ⟨-, rest, hr, rfl⟩) hn hx
    · exact ih h hn hx
    · obtain ⟨hrise, hu⟩ := hr.mounts ih (List.forall_mem_cons.mp hx).2
      exact ⟨⟨Rat.le_refl, hrise⟩, hu target rfl hn⟩

end Mounting

section Staying

/-- Where the times seen rise and none is past what the advance around the job aims at, neither
is any further inside. -/
def Stays (told : Rat → Timer Rat J → Timed Rat J S → List Sight → Timed Rat J S → Prop) : Prop :=
  ∀ ⦃target t s xs u⦄, told target t s xs u → (xs.map (·.now)).Pairwise (· ≤ ·) →
    (∀ x ∈ xs, x.now ≤ target) → ∀ x ∈ xs, x.Within

variable {ts : List (Timer Rat J)}

theorem Goes.stays (hs : Stays told) (h : Goes (told target) ts s xs u)
    (hp : (xs.map (·.now)).Pairwise (· ≤ ·)) (hx : ∀ x ∈ xs, x.now ≤ target) :
    ∀ x ∈ xs, x.Within := by
  induction h with
  | done s => exact List.forall_mem_nil _
  | skip _ _ ih => exact ih hp hx
  | fire _ hfirst _ ih =>
    rw [List.map_append] at hp
    obtain ⟨hp₁, hp₂, -⟩ := List.pairwise_append.mp hp
    obtain ⟨hx₁, hx₂⟩ := List.forall_mem_append.mp hx
    exact List.forall_mem_append.mpr ⟨hs hfirst hp₁ hx₁, ih hp₂ hx₂⟩

theorem Empties.stays (hs : Stays told) (h : Empties (told target) target s xs u)
    (hp : (xs.map (·.now)).Pairwise (· ≤ ·)) (hx : ∀ x ∈ xs, x.now ≤ target) :
    ∀ x ∈ xs, x.Within := by
  induction h with
  | out s => exact List.forall_mem_nil _
  | done hd => exact List.forall_mem_nil _
  | batch _ hg _ ih =>
    rw [List.map_append] at hp
    obtain ⟨hp₁, hp₂, -⟩ := List.pairwise_append.mp hp
    obtain ⟨hx₁, hx₂⟩ := List.forall_mem_append.mp hx
    exact List.forall_mem_append.mpr ⟨hg.stays hs hp₁ hx₁, ih hp₂ hx₂⟩

theorem Sees.stays (hs : Stays told) (h : Sees told limit s xs u)
    (hp : (xs.map (·.now)).Pairwise (· ≤ ·))
    (hx : ∀ x ∈ xs, ∀ bound, limit = some bound → x.now ≤ bound) : ∀ x ∈ xs, x.Within := by
  induction h with
  | rest s => exact List.forall_mem_nil _
  | aside state _ ih => exact ih hp hx
  | schedule _ _ ih =>
    obtain ⟨hhere, hx⟩ := List.forall_mem_cons.mp hx
    exact List.forall_mem_cons.mpr ⟨hhere, ih hp.tail hx⟩
  | cancel _ _ ih =>
    obtain ⟨hhere, hx⟩ := List.forall_mem_cons.mp hx
    exact List.forall_mem_cons.mpr ⟨hhere, ih hp.tail hx⟩
  | @advance s u v inner xs ms target _ he _ ih =>
    rw [List.map_append, List.map_cons] at hp
    obtain ⟨hp₁, hp₂, hcross⟩ := List.pairwise_append.mp hp
    obtain ⟨-, hx⟩ := List.forall_mem_append.mp hx
    obtain ⟨hhere, hx⟩ := List.forall_mem_cons.mp hx
    -- The end of the advance is seen after all that is seen in it.
    have hinner : ∀ x ∈ inner, x.now ≤ target := fun x hm =>
      hcross _ (List.mem_map_of_mem hm) _ List.mem_cons_self
    refine List.forall_mem_append.mpr ⟨he.stays hs hp₁ hinner, ?_⟩
    exact List.forall_mem_cons.mpr ⟨hhere, ih hp₂.tail hx⟩

theorem inside_stays (fire : Nat → J → Work E Rat J S Unit) (level : Nat) :
    Stays (Inside fire level) := by
  induction level with
  | zero => exact fun _ _ _ _ _ h => h.elim
  | succ level ih =>
    rintro target t s xs u (h | ⟨-, rest, hr, rfl⟩) hp hx
    · exact ih h hp hx
    · obtain ⟨hhere, hrest⟩ := List.forall_mem_cons.mp hx
      have hbound : ∀ x ∈ rest, ∀ b, some target = some b → x.now ≤ b := by
        rintro x hm b ⟨⟩
        exact hrest x hm
      refine List.forall_mem_cons.mpr ⟨?_, hr.stays ih hp.tail hbound⟩
      rintro b ⟨⟩
      exact hhere

end Staying

variable {level : Nat}

/-- The clock never goes back exactly where no time is seen that is past what the advance around
it aims at. -/
theorem never_goes_back_iff (hf : Nested fire) (h : Does fire level s u) :
    (∃ xs, Sees (Inside fire level) none s xs u) ∧
      ∀ xs, Sees (Inside fire level) none s xs u →
        ((s.clock.now :: xs.map (·.now)).Pairwise (· ≤ ·) ↔ ∀ x ∈ xs, x.Within) := by
  refine ⟨h.sees fun _ hl => inside_of_fire hf hl, fun xs hx => ⟨fun hp => ?_, fun hw => ?_⟩⟩
  · exact hx.stays (inside_stays fire level) hp.tail fun _ _ _ hb => nomatch hb
  · exact (hx.mounts (inside_mounts fire level) hw).1.pairwise

end Timed

namespace Clock.Script

open Timed

variable {level lower fuel : Nat} {c : Command Rat} {commands : List (Command Rat)}
  {s u : Script Rat} {a : Unit}

theorem perform_does (h : perform (fire lower) fuel c s = .ok a u) (hl : lower < level) :
    Does fire level s u := by
  cases c with
  | schedule name delay job =>
    obtain ⟨number, v, hv, h⟩ := bind_ok h
    cases hv
    cases modify_ok h
    exact .schedule rfl (.aside _ (.rest _))
  | cancel name =>
    obtain ⟨_, _, hg, h⟩ := bind_ok h
    obtain ⟨rfl, rfl⟩ := get_ok hg
    cases hk : s.state.handles.lookup name with
    | none =>
      rw [hk] at h
      cases h
    | some number =>
      rw [hk] at h
      cases modify_ok h
      exact .cancel number (.rest _)
  | advance ms => exact .advance hl h (.rest u)
  | runAll limit => exact .runAll hl h (.rest u)

theorem forM_does (h : commands.forM (perform (fire lower) fuel) s = .ok a u)
    (hl : lower < level) : Does fire level s u := by
  induction commands generalizing s with
  | nil =>
    obtain ⟨-, rfl⟩ := pure_ok h
    exact .rest s
  | cons c commands ih =>
    obtain ⟨_, v, hv, h⟩ := bind_ok h
    exact (perform_does hv hl).trans (ih h)

theorem nested_fire : Nested (fire : Nat → Job Rat → Work Rat Unit) := by
  intro level job s u h
  cases level with
  | zero =>
    obtain ⟨-, rfl⟩ := pure_ok h
    exact .rest s
  | succ level =>
    obtain ⟨_, v, hv, h⟩ := bind_ok h
    cases modify_ok hv
    exact .aside _ (forM_does h (Nat.lt_succ_self level))

theorem run_does (h : commands.forM run s = .ok a u) : ∃ level, Does fire level s u := by
  induction commands generalizing s with
  | nil =>
    obtain ⟨-, rfl⟩ := pure_ok h
    exact ⟨0, .rest s⟩
  | cons c commands ih =>
    obtain ⟨_, v, hv, h⟩ := bind_ok h
    obtain ⟨first, hfirst⟩ : ∃ level, Does fire level s v :=
      ⟨_, perform_does hv (Nat.lt_succ_self _)⟩
    obtain ⟨later, hlater⟩ := ih h
    refine ⟨max first later, ?_⟩
    exact (hfirst.of_le (Nat.le_max_left _ _)).trans (hlater.of_le (Nat.le_max_right _ _))

/-- The first timer sets another one, and moves the clock past it. -/
def hurry : List (Command Rat) :=
  [.schedule "a" 10 [.schedule "c" 3 [], .advance 5], .schedule "b" 20 [], .advance 30]

theorem never_goes_back_iff_hurry : ∃ level u,
    (Nested (fire : Nat → Job Rat → Work Rat Unit) ∧ Does fire level (start 0) u ∧
      u.state.fired.map (·.now) = [10, 13, 20] ∧ u.clock.now = 30) ∧
    (∃ xs, Sees (Inside fire level) none (start 0) xs u) ∧
      ∀ xs, Sees (Inside fire level) none (start 0) xs u →
        (((start 0).clock.now :: xs.map (·.now)).Pairwise (· ≤ ·) ↔ ∀ x ∈ xs, x.Within) := by
  have hrun : (ended? (hurry.forM run (start 0))).any (fun r =>
      decide (r.2.state.fired.map (·.now) = [10, 13, 20] ∧ r.2.clock.now = 30)) = true := by
    cbv
  obtain ⟨a, u, h, hu⟩ := ok_of_ended hrun
  obtain ⟨level, hd⟩ := run_does h
  exact ⟨level, u, ⟨nested_fire, hd, of_decide_eq_true hu⟩,
    never_goes_back_iff nested_fire hd⟩

def overshoot : List (Command Rat) :=
  [.schedule "a" 10 [.advance 100], .schedule "b" 50 [], .advance 20]

theorem clock_goes_back : Nested (fire : Nat → Job Rat → Work Rat Unit) ∧
    ∃ u, overshoot.forM run (start 0) = .ok () u ∧ (∃ level, Does fire level (start 0) u) ∧
      u.state.fired.map (·.now) = [10, 50] ∧ u.clock.now = 20 ∧
      ¬ (u.state.fired.map (·.now) ++ [u.clock.now]).Pairwise (· ≤ ·) := by
  have hrun : (ended? (overshoot.forM run (start 0))).any (fun r =>
      decide (r.2.state.fired.map (·.now) = [10, 50] ∧ r.2.clock.now = 20)) = true := by
    cbv
  obtain ⟨a, u, h, hu⟩ := ok_of_ended hrun
  obtain ⟨hfired, hnow⟩ := of_decide_eq_true hu
  refine ⟨nested_fire, u, h, run_does h, hfired, hnow, fun hp => ?_⟩
  rw [hfired, hnow] at hp
  exact absurd hp (by decide)

end Clock.Script

end Duel
