import Duel.Proofs.Clock.Chronicle
import Duel.Proofs.Clock.Punctual
import Mathlib

namespace Duel

variable {E J S : Type}

namespace Timed

open Clock

variable {fire : J → Work E Rat J S Unit} {s u v : Timed Rat J S} {hs log : List (Happening J)}

/-- A timer goes off, and its job does something on the clock. -/
def Rings (fire : J → Work E Rat J S Unit) (t : Timer Rat J) (s : Timed Rat J S)
    (log : List (Happening J)) (u : Timed Rat J S) : Prop :=
  fire t.job s = .ok () u ∧ ∃ done, Acts s.clock done u.clock ∧ log = .fired t :: done

/-- The clock is moved on until nothing is due any more. -/
def Passes (fire : J → Work E Rat J S Unit) (ms : Rat) (s : Timed Rat J S)
    (log : List (Happening J)) (u : Timed Rat J S) : Prop :=
  ∃ v done, Empties (Rings fire) (s.clock.now + Scalar.positivePart ms) s done v ∧
    (v.clock.drain (s.clock.now + Scalar.positivePart ms)).1 = [] ∧
    u = { v with clock.now := s.clock.now + Scalar.positivePart ms } ∧
    log = done ++ [.moved ms s.clock u.clock]

theorem Goes.books {ts : List (Timer Rat J)} {limit : Rat} (h : Goes (Rings fire) ts s log u)
    (hb : Books hs ts s.clock) (hn : s.clock.now ≤ limit) (ht : ∀ t ∈ ts, t.due ≤ limit) :
    Books (hs ++ log) [] u.clock ∧ u.clock.now ≤ limit := by
  induction h generalizing hs with
  | done s => exact ⟨(List.append_nil hs).symm ▸ hb, hn⟩
  | skip hl _ ih =>
    exact ih (hb.skip (Clock.isLive_eq_false_iff.mp hl)) hn
      fun t hm => ht t (List.mem_cons_of_mem _ hm)
  | @fire s u v t rest first log hl hr _ ih =>
    obtain ⟨-, done, ha, rfl⟩ := hr
    obtain ⟨hturn, hdue⟩ := le_turnTo s t
    have hbt : Books (hs ++ [.fired t]) rest (s.turnTo t).clock := hb.fire hl hturn hdue
    obtain ⟨hbu, hnu⟩ := hbt.acts ha
    have hlimit : u.clock.now ≤ limit := by
      rw [hnu]
      exact turnTo_le_iff.mpr ⟨hn, ht t List.mem_cons_self⟩
    obtain ⟨hbv, hnv⟩ := ih hbu hlimit fun t hm => ht t (List.mem_cons_of_mem _ hm)
    rw [List.append_assoc, List.append_assoc] at hbv
    exact ⟨hbv, hnv⟩

theorem Empties.books {limit : Rat} (h : Empties (Rings fire) limit s log v)
    (hb : Books hs [] s.clock) (hn : s.clock.now ≤ limit) :
    Books (hs ++ log) [] v.clock ∧ v.clock.now ≤ limit := by
  induction h generalizing hs with
  | out s => exact ⟨(List.append_nil hs).symm ▸ hb, hn⟩
  | done hd =>
    have hnow := (Clock.drain_drained hd).same.1
    exact ⟨(List.append_nil hs).symm ▸ hb.drain hd, hnow ▸ hn⟩
  | @batch s u v c ts log more hd hg _ ih =>
    have hdr := Clock.drain_drained hd
    have hnow : c.now ≤ limit := hdr.same.1 ▸ hn
    obtain ⟨hbu, hnu⟩ := hg.books (hb.drain hd) hnow fun t ht => (hdr.taken t ht).2.2
    obtain ⟨hbv, hnv⟩ := ih hbu hnu
    rw [List.append_assoc] at hbv
    exact ⟨hbv, hnv⟩

/-- Where the clock stops, what is due by then and not cancelled has gone off. -/
theorem Passes.books {ms : Rat} (h : Passes fire ms s log u) (hb : Books hs [] s.clock) :
    Books (hs ++ log) [] u.clock := by
  obtain ⟨v, done, he, hd, rfl, rfl⟩ := h
  obtain ⟨hv, hnow⟩ := he.books hb (Clock.le_add_positivePart _ _)
  rw [← List.append_assoc]
  have hmax : Scalar.positivePart ms = max 0 ms := Clock.positivePart_eq_max ms
  have hmoved : (Happening.moved ms s.clock { v.clock with
      now := s.clock.now + Scalar.positivePart ms }).Proper (hs ++ done) := by
    refine ⟨congrArg (s.clock.now + ·) hmax, fun t hset hlive => ?_⟩
    have hk : t.number ∉ v.clock.cancelled := fun hk => hlive ((hv.cancelled t.number).mp hk)
    rcases hv.covered t hset with hoff | hc | hw
    · refine ⟨fun _ => hoff, fun hlater => ?_⟩
      have hdue := (hv.fired t hoff).2
      exact absurd (Rat.le_trans hdue hnow) (Rat.not_le.mpr hlater)
    · exact absurd hc hk
    · refine ⟨fun hdue => ?_, fun _ => ⟨hw, fun hoff => (hv.waiting t hw).2 t hoff rfl⟩⟩
      have hm : t ∈ (v.clock.drain (s.clock.now + Scalar.positivePart ms)).1 := by
        refine List.mem_mergeSort.mpr (List.mem_filter.mpr ⟨?_, decide_eq_true hdue⟩)
        exact List.mem_filter.mpr ⟨hw, Clock.isLive_iff.mpr hk⟩
      rw [hd] at hm
      cases hm
  exact hv.moved hnow hmoved

/-- What can be asked of a clock from outside. -/
inductive Call (J : Type)
  | schedule (delay : Rat) (job : J)
  | cancel (number : Nat)
  | advance (ms : Rat)
  | runAll (limit : Nat)

def Call.work (fire : J → Work E Rat J S Unit) (fuel : Nat) : Call J → Work E Rat J S Unit
  | .schedule delay job => discard (Timed.schedule delay job)
  | .cancel number => do setClock ((← get).clock.cancel number)
  | .advance ms => Timed.advance fire fuel ms
  | .runAll limit => Timed.runAll fire fuel limit

/-- Work ends in one way as soon as there is enough fuel for it. -/
def Returns (x : Nat → Work E Rat J S Unit) (s u : Timed Rat J S) : Prop :=
  ∃ enough, ∀ fuel, enough ≤ fuel → x fuel s = .ok () u

/-- Calls are made one after another. What the jobs work on may change between them. -/
inductive Runs (fire : J → Work E Rat J S Unit) :
    Timed Rat J S → List (Call J) → Timed Rat J S → Prop
  | done (s : Timed Rat J S) : Runs fire s [] s
  | call {s u v : Timed Rat J S} {c : Call J} {calls : List (Call J)} (state : S)
      (hc : Returns (c.work fire) s u) (h : Runs fire ⟨u.clock, state⟩ calls v) :
      Runs fire s (c :: calls) v

/-- What happens on the clock at a call. -/
inductive Tells (fire : J → Work E Rat J S Unit) :
    Call J → Timed Rat J S → List (Happening J) → Timed Rat J S → Prop
  | schedule {s : Timed Rat J S} {c : Clock Rat J} {delay : Rat} {job : J} {n : Nat}
      (hc : s.clock.schedule delay job = .ok (n, c)) :
      Tells fire (.schedule delay job) s
        [.set ⟨s.clock.now + Scalar.positivePart delay, n, job⟩] (s.withClock c)
  | cancel (s : Timed Rat J S) (number : Nat) :
      Tells fire (.cancel number) s [.cancelled number] (s.withClock (s.clock.cancel number))
  | advance {s u : Timed Rat J S} {ms : Rat} {log : List (Happening J)}
      (h : Passes fire ms s log u) : Tells fire (.advance ms) s log u
  | halt (s : Timed Rat J S) : Tells fire (.runAll 0) s [] s
  | idle {s : Timed Rat J S} {limit : Nat}
      (hl : Scalar.least? (s.clock.live.map (·.due)) = none) :
      Tells fire (.runAll (limit + 1)) s [] s
  | goOn {s u v : Timed Rat J S} {limit : Nat} {due : Rat} {log more : List (Happening J)}
      (hl : Scalar.least? (s.clock.live.map (·.due)) = some due)
      (hp : Passes fire (due - s.clock.now) s log u) (h : Tells fire (.runAll limit) u more v) :
      Tells fire (.runAll (limit + 1)) s (log ++ more) v

/-- The history of a row of calls. -/
inductive Told (fire : J → Work E Rat J S Unit) :
    List (Call J) → Timed Rat J S → List (Happening J) → Timed Rat J S → Prop
  | done (s : Timed Rat J S) : Told fire [] s [] s
  | call {s u v : Timed Rat J S} {c : Call J} {calls : List (Call J)}
      {log more : List (Happening J)} (state : S) (hc : Tells fire c s log u)
      (h : Told fire calls ⟨u.clock, state⟩ more v) : Told fire (c :: calls) s (log ++ more) v

theorem Tells.books {c : Call J} (h : Tells fire c s log u) (hb : Books hs [] s.clock) :
    Books (hs ++ log) [] u.clock := by
  induction h generalizing hs with
  | schedule hc => exact hb.set hc
  | cancel s number => exact hb.cancel number
  | advance hp => exact hp.books hb
  | halt s => exact (List.append_nil hs).symm ▸ hb
  | idle => exact (List.append_nil hs).symm ▸ hb
  | goOn _ hp _ ih =>
    rw [← List.append_assoc]
    exact ih (hp.books hb)

theorem Told.books {calls : List (Call J)} (h : Told fire calls s log v)
    (hb : Books hs [] s.clock) : Books (hs ++ log) [] v.clock := by
  induction h generalizing hs with
  | done s => exact (List.append_nil hs).symm ▸ hb
  | call state hc _ ih =>
    rw [← List.append_assoc]
    exact ih (hc.books hb)

variable {fuel limit : Nat} {ms : Rat} {a : Unit}

theorem advance_gone_le (hf : Lawful fire) (h : advance fire fuel ms s = .ok a u) :
    s.clock.gone ≤ u.clock.gone := by
  obtain ⟨batches, v, hd, rfl⟩ := advance_advances h
  have hg : s.clock.gone + batches.length ≤ v.clock.gone := hd.gone_le hf
  change s.clock.gone ≤ v.clock.gone
  omega

theorem advance_passes (hf : Lawful fire) (h : advance fire fuel ms s = .ok a u)
    (hg : u.clock.gone < s.clock.gone + fuel) : ∃ log, Passes fire ms s log u := by
  obtain ⟨batches, v, hd, rfl⟩ := advance_advances h
  have hlen : s.clock.gone + batches.length ≤ v.clock.gone := hd.gone_le hf
  have hless : v.clock.gone < s.clock.gone + fuel := hg
  have hrings (t : Timer Rat J) (s u : Timed Rat J S) (hj : fire t.job s = .ok () u) :
      ∃ log, Rings fire t s log u := by
    obtain ⟨done, ha⟩ := (hf t.job s u hj).acts
    exact ⟨_, hj, done, ha, rfl⟩
  obtain ⟨done, he⟩ := hd.empties hrings
  exact ⟨_, v, done, he, hd.drained (by omega), rfl, rfl⟩

theorem advance_more (hf : Lawful fire) (h : advance fire fuel ms s = .ok a u)
    (hg : u.clock.gone < s.clock.gone + fuel) (k : Nat) :
    advance fire (fuel + k) ms s = .ok () u := by
  obtain ⟨batches, v, hd, rfl⟩ := advance_advances h
  have hlen : s.clock.gone + batches.length ≤ v.clock.gone := hd.gone_le hf
  have hless : v.clock.gone < s.clock.gone + fuel := hg
  exact Advances.advance_eq ⟨v, hd.more (by omega) k, rfl⟩

theorem runAll_gone_le (hf : Lawful fire) (h : runAll fire fuel limit s = .ok a v) :
    s.clock.gone ≤ v.clock.gone := by
  induction limit generalizing s with
  | zero =>
    obtain ⟨-, rfl⟩ := pure_ok h
    exact Int.le_refl _
  | succ limit ih =>
    rcases runAll_cases h with ⟨-, rfl⟩ | ⟨due, u, -, ha, h⟩
    · exact Int.le_refl _
    · exact Int.le_trans (advance_gone_le hf ha) (ih h)

theorem runAll_tells (hf : Lawful fire) (h : runAll fire fuel limit s = .ok a v)
    (hg : v.clock.gone < s.clock.gone + fuel) : ∃ log, Tells fire (.runAll limit) s log v := by
  induction limit generalizing s with
  | zero =>
    obtain ⟨-, rfl⟩ := pure_ok h
    exact ⟨[], .halt _⟩
  | succ limit ih =>
    rcases runAll_cases h with ⟨hl, rfl⟩ | ⟨due, u, hl, ha, h⟩
    · exact ⟨[], .idle hl⟩
    · have hsu := advance_gone_le hf ha
      have huv := runAll_gone_le hf h
      obtain ⟨log, hp⟩ := advance_passes hf ha (by omega)
      obtain ⟨more, ht⟩ := ih h (by omega)
      exact ⟨log ++ more, .goOn hl hp ht⟩

theorem runAll_more (hf : Lawful fire) (h : runAll fire fuel limit s = .ok a v)
    (hg : v.clock.gone < s.clock.gone + fuel) (k : Nat) :
    runAll fire (fuel + k) limit s = .ok () v := by
  induction limit generalizing s with
  | zero => exact h
  | succ limit ih =>
    rw [runAll_succ] at h ⊢
    split at h
    · exact h
    · obtain ⟨_, u, ha, h⟩ := bind_ok h
      have hsu := advance_gone_le hf ha
      have huv := runAll_gone_le hf h
      exact (bind_of_ok (advance_more hf ha (by omega) k) _).trans (ih h (by omega))

variable {c : Call J} {calls : List (Call J)}

theorem schedule_ok {delay : Rat} {job : J} {n : Nat}
    (h : (schedule delay job : Work E Rat J S Nat) s = .ok n u) :
    ∃ clock, s.clock.schedule delay job = .ok (n, clock) ∧ u = s.withClock clock := by
  cases h
  exact ⟨_, rfl, rfl⟩

theorem Call.gone_le (hf : Lawful fire) (h : c.work fire fuel s = .ok a u) :
    s.clock.gone ≤ u.clock.gone := by
  cases c with
  | schedule delay job =>
    obtain ⟨n, h⟩ := discard_ok h
    obtain ⟨clock, hc, rfl⟩ := schedule_ok h
    exact Int.le_of_eq (Clock.Works.schedule hc (.rest _)).gone_eq.symm
  | cancel number =>
    cases h
    exact Int.le_refl _
  | advance ms => exact advance_gone_le hf h
  | runAll limit => exact runAll_gone_le hf h

theorem Call.tells (hf : Lawful fire) (h : c.work fire fuel s = .ok a u)
    (hg : u.clock.gone < s.clock.gone + fuel) : ∃ log, Tells fire c s log u := by
  cases c with
  | schedule delay job =>
    obtain ⟨n, h⟩ := discard_ok h
    obtain ⟨clock, hc, rfl⟩ := schedule_ok h
    exact ⟨_, .schedule hc⟩
  | cancel number =>
    cases h
    exact ⟨_, .cancel s number⟩
  | advance ms =>
    obtain ⟨log, hp⟩ := advance_passes hf h hg
    exact ⟨log, .advance hp⟩
  | runAll limit => exact runAll_tells hf h hg

theorem Call.returns (hf : Lawful fire) (h : c.work fire fuel s = .ok a u)
    (hg : u.clock.gone < s.clock.gone + fuel) : Returns (c.work fire) s u := by
  refine ⟨fuel, fun more hm => ?_⟩
  obtain ⟨k, rfl⟩ := Nat.exists_eq_add_of_le hm
  cases c with
  | schedule delay job => exact h
  | cancel number => exact h
  | advance ms => exact advance_more hf h hg k
  | runAll limit => exact runAll_more hf h hg k

theorem Runs.told (hf : Lawful fire) (h : Runs fire s calls v) :
    ∃ log, Told fire calls s log v := by
  induction h with
  | done s => exact ⟨[], .done s⟩
  | @call s u v c calls state hc _ ih =>
    obtain ⟨enough, hfuel⟩ := hc
    let fuel := max enough ((u.clock.gone - s.clock.gone).toNat + 1)
    obtain ⟨log, ht⟩ := Call.tells hf (hfuel fuel (Nat.le_max_left _ _)) (by omega)
    obtain ⟨more, hm⟩ := ih
    exact ⟨log ++ more, .call state ht hm⟩

theorem forM_gone_le (hf : Lawful fire) (h : calls.forM (Call.work fire fuel) s = .ok a v) :
    s.clock.gone ≤ v.clock.gone := by
  induction calls generalizing s with
  | nil =>
    obtain ⟨-, rfl⟩ := pure_ok h
    exact Int.le_refl _
  | cons c calls ih =>
    obtain ⟨_, u, hc, h⟩ := bind_ok h
    exact Int.le_trans (Call.gone_le hf hc) (ih h)

theorem runs_of_forM (hf : Lawful fire) (h : calls.forM (Call.work fire fuel) s = .ok a v)
    (hg : v.clock.gone < s.clock.gone + fuel) : Runs fire s calls v := by
  induction calls generalizing s with
  | nil =>
    obtain ⟨-, rfl⟩ := pure_ok h
    exact .done s
  | cons c calls ih =>
    obtain ⟨_, u, hc, h⟩ := bind_ok h
    have hsu : s.clock.gone ≤ u.clock.gone := Call.gone_le hf hc
    have huv : u.clock.gone ≤ v.clock.gone := forM_gone_le hf h
    have hrest : v.clock.gone < u.clock.gone + fuel := by omega
    exact .call u.state (Call.returns hf hc (by omega)) (ih h hrest)

/-- No timer is lost, goes off twice or goes off after it was cancelled, and the clock stops where
it should. -/
theorem timers_kept (hf : Lawful fire) (now : Rat) (state : S)
    (h : Runs fire ⟨{ now }, state⟩ calls u) :
    (∃ hs, Told fire calls ⟨{ now }, state⟩ hs u) ∧
      ∀ hs, Told fire calls ⟨{ now }, state⟩ hs u → Keeping hs :=
  ⟨h.told hf, fun _ ht => (ht.books (Books.fresh now)).keeping⟩

/-- A job that enters the time, cancels a timer or sets another one. -/
inductive Bell
  | ring
  | mute (number : Nat)
  | again (delay : Rat)

def Bell.work : Bell → Work Empty Rat Bell (List Rat) Unit
  | ring => modify fun s => { s with state := s.state ++ [s.clock.now] }
  | mute number => do setClock ((← get).clock.cancel number)
  | again delay => discard (schedule delay ring)

theorem lawful_bell : Lawful Bell.work := by
  intro j s s' h
  cases j with
  | ring =>
    cases h
    exact .rest _
  | mute number =>
    cases h
    exact .cancel number (.rest _)
  | again delay =>
    obtain ⟨n, h⟩ := discard_ok h
    obtain ⟨clock, hc, rfl⟩ := schedule_ok h
    exact .schedule hc (.rest _)

/-- The first bell mutes the second one, which is due at the same time. The third sets another
that is due before the clock stops, and the last one stays until everything is run. -/
def bells : List (Call Bell) :=
  [.schedule 10 (.mute 1), .schedule 10 .ring, .schedule 20 (.again 5), .schedule 40 .ring,
    .advance 30, .cancel 0, .runAll 2]

theorem timers_kept_bells : ∃ u : Timed Rat Bell (List Rat),
    (Runs Bell.work ⟨{ now := 0 }, []⟩ bells u ∧ u.state = [25, 40]) ∧
      (∃ hs, Told Bell.work bells ⟨{ now := 0 }, []⟩ hs u) ∧
        ∀ hs, Told Bell.work bells ⟨{ now := 0 }, []⟩ hs u → Keeping hs := by
  have hrun : (ended? (bells.forM (Call.work Bell.work 9) ⟨{ now := 0 }, []⟩)).any
      (fun r => decide (r.2.state = [25, 40] ∧ r.2.clock.gone < 9)) = true := by
    cbv
  obtain ⟨a, u, h, hu⟩ := ok_of_ended hrun
  obtain ⟨hrung, hgone⟩ := of_decide_eq_true hu
  have hg : u.clock.gone < ({ now := 0 } : Clock Rat Bell).gone + (9 : Nat) := hgone
  have hr : Runs Bell.work ⟨{ now := 0 }, []⟩ bells u := runs_of_forM lawful_bell h hg
  exact ⟨u, ⟨hr, hrung⟩, timers_kept lawful_bell 0 [] hr⟩

end Timed

end Duel
