import Duel.Clock.Advance
import Duel.Proofs.Work

namespace Duel

def Clock.withTimer {R J : Type} (c : Clock R J) (due : R) (job : J) : Clock R J :=
  { c with timers := c.timers ++ [⟨due, c.next, job⟩], next := c.next + 1 }

namespace Timed

variable {R E J S α β : Type} {P B : Timed R J S → Prop} {fire : J → Work E R J S Unit}
  {s : Timed R J S}

theorem reckon_comes {x : Except Double.Fault α} {f : α → Work E R J S β}
    {Q : β → Timed R J S → Prop} (hf : ∀ a, x = .ok a → Comes (f a) s Q B) (hb : B s) :
    Comes (reckon x >>= f) s Q B := by
  cases x with
  | ok a => exact hf a rfl
  | error e => exact hb

variable [Scalar R]

theorem schedule_comes (delay : R) (job : J) {Q : Nat → Timed R J S → Prop}
    (h : ∀ due, Scalar.add s.clock.now (Scalar.positivePart delay) = .ok due →
      Q s.clock.next ⟨s.clock.withTimer due job, s.state⟩) (hb : B s) :
    Comes (schedule delay job : Work E R J S Nat) s Q B := by
  refine Comes.get (reckon_comes (fun set hs => ?_) hb)
  obtain ⟨due, hd, rfl⟩ := except_map_ok hs
  exact Comes.modify (Comes.pure (h due hd))

theorem fireAll_comes (hc : ∀ s c, P s → P ⟨c, s.state⟩)
    (hf : ∀ job s, P s → Comes (fire job) s (fun _ => P) B) (batch : List (Timer R J))
    (h : P s) : Comes (fireAll fire batch) s (fun _ => P) B := by
  induction batch generalizing s with
  | nil => exact Comes.pure h
  | cons t batch ih =>
    refine Comes.get ?_
    dsimp only
    split
    · exact Comes.modify ((hf t.job _ (hc s _ h)).bind fun _ u hu => ih hu)
    · exact ih h

theorem drainAll_comes (hc : ∀ s c, P s → P ⟨c, s.state⟩)
    (hf : ∀ job s, P s → Comes (fire job) s (fun _ => P) B) (limit : R) (fuel : Nat)
    (h : P s) : Comes (drainAll fire limit fuel) s (fun _ => P) B := by
  induction fuel generalizing s with
  | zero => exact Comes.pure h
  | succ fuel ih =>
    refine Comes.get (Comes.modify ?_)
    split
    · exact Comes.pure (hc s _ h)
    · exact (fireAll_comes hc hf _ (hc s _ h)).bind fun _ u hu => ih hu

theorem advance_comes (hc : ∀ s c, P s → P ⟨c, s.state⟩) (hb : ∀ s, P s → B s)
    (hf : ∀ job s, P s → Comes (fire job) s (fun _ => P) B) (fuel : Nat) (ms : R)
    (h : P s) : Comes (advance fire fuel ms) s (fun _ => P) B := by
  refine Comes.get (reckon_comes (fun target _ => ?_) (hb s h))
  exact (drainAll_comes hc hf target fuel h).bind fun _ u hu => hc u _ hu

theorem runAll_comes (hc : ∀ s c, P s → P ⟨c, s.state⟩) (hb : ∀ s, P s → B s)
    (hf : ∀ job s, P s → Comes (fire job) s (fun _ => P) B) (fuel limit : Nat)
    (h : P s) : Comes (runAll fire fuel limit) s (fun _ => P) B := by
  induction limit generalizing s with
  | zero => exact Comes.pure h
  | succ limit ih =>
    refine Comes.get ?_
    dsimp only
    split
    · exact Comes.pure h
    · refine reckon_comes (fun ms _ => ?_) (hb s h)
      exact (advance_comes hc hb hf fuel ms h).bind fun _ u hu => ih hu

end Timed

/-- A timer that went off, and the time that its job found. -/
structure Firing (R J : Type) where
  timer : Timer R J
  seen : R

/-- What went off of the timers that were taken off the clock at one time. Those that were set
later have at least the number that was next then. -/
structure Batch (R J : Type) where
  next : Nat
  fired : List (Firing R J)

def firings {R J : Type} (log : List (Batch R J)) : List (Firing R J) :=
  log.flatMap (·.fired)

namespace Timed

variable {E R J S : Type} [Scalar R] {fire : J → Work E R J S Unit}

def withClock (s : Timed R J S) (c : Clock R J) : Timed R J S := { s with clock := c }

def turnTo (s : Timed R J S) (t : Timer R J) : Timed R J S :=
  { s with clock.now := Scalar.larger s.clock.now t.due }

/-- The jobs of a batch run; a timer that is cancelled by then does not go off. -/
inductive Fires (fire : J → Work E R J S Unit) :
    List (Timer R J) → Timed R J S → List (Firing R J) → Timed R J S → Prop
  | done (s : Timed R J S) : Fires fire [] s [] s
  | skip {s u : Timed R J S} {t : Timer R J} {rest : List (Timer R J)} {fs : List (Firing R J)}
      (hl : s.clock.isLive t = false) (h : Fires fire rest s fs u) :
      Fires fire (t :: rest) s fs u
  | fire {s u v : Timed R J S} {t : Timer R J} {rest : List (Timer R J)}
      {fs : List (Firing R J)} (hl : s.clock.isLive t = true)
      (hj : fire t.job (s.turnTo t) = .ok () u) (h : Fires fire rest u fs v) :
      Fires fire (t :: rest) s (⟨t, (s.turnTo t).clock.now⟩ :: fs) v

/-- Batch after batch goes off, at most so many. -/
inductive Drains (fire : J → Work E R J S Unit) (limit : R) :
    Nat → Timed R J S → List (Batch R J) → Timed R J S → Prop
  | out (s : Timed R J S) : Drains fire limit 0 s [] s
  | done {fuel : Nat} {s : Timed R J S} {c : Clock R J} (hd : s.clock.drain limit = ([], c)) :
      Drains fire limit (fuel + 1) s [] (s.withClock c)
  | batch {fuel : Nat} {s u v : Timed R J S} {c : Clock R J} {ts : List (Timer R J)}
      {fs : List (Firing R J)} {log : List (Batch R J)} (hd : s.clock.drain limit = (ts, c))
      (hne : ts ≠ []) (hf : Fires fire ts (s.withClock c) fs u)
      (h : Drains fire limit fuel u log v) :
      Drains fire limit (fuel + 1) s (⟨s.clock.next, fs⟩ :: log) v

theorem fireAll_fires {ts : List (Timer R J)} {s s' : Timed R J S} {a : Unit}
    (h : fireAll fire ts s = .ok a s') : ∃ fs, Fires fire ts s fs s' := by
  induction ts generalizing s with
  | nil =>
    obtain ⟨-, rfl⟩ := pure_ok h
    exact ⟨[], .done s⟩
  | cons t ts ih =>
    rw [fireAll] at h
    obtain ⟨_, _, hg, h⟩ := bind_ok h
    obtain ⟨rfl, rfl⟩ := get_ok hg
    by_cases hl : s.clock.isLive t = true
    · simp only [hl, if_true] at h
      obtain ⟨_, u, hs, h⟩ := bind_ok h
      obtain rfl := modify_ok hs
      obtain ⟨_, v, hj, h⟩ := bind_ok h
      obtain ⟨fs, hf⟩ := ih h
      exact ⟨_, .fire hl hj hf⟩
    · simp only [hl, Bool.false_eq_true, if_false] at h
      obtain ⟨fs, hf⟩ := ih h
      exact ⟨fs, .skip (by simpa using hl) hf⟩

theorem drainAll_drains {limit : R} {fuel : Nat} {s s' : Timed R J S} {a : Unit}
    (h : drainAll fire limit fuel s = .ok a s') : ∃ log, Drains fire limit fuel s log s' := by
  induction fuel generalizing s with
  | zero =>
    obtain ⟨-, rfl⟩ := pure_ok h
    exact ⟨[], .out s⟩
  | succ fuel ih =>
    rw [drainAll] at h
    obtain ⟨_, _, hg, h⟩ := bind_ok h
    obtain ⟨rfl, rfl⟩ := get_ok hg
    rcases hd : s.clock.drain limit with ⟨ts, c⟩
    rw [hd] at h
    obtain ⟨_, u, hs, h⟩ := bind_ok h
    obtain rfl := modify_ok hs
    cases ts with
    | nil =>
      obtain ⟨-, rfl⟩ := pure_ok h
      exact ⟨[], .done hd⟩
    | cons t ts =>
      obtain ⟨_, v, hf, h⟩ := bind_ok h
      obtain ⟨fs, hf⟩ := fireAll_fires hf
      obtain ⟨log, hl⟩ := ih h
      exact ⟨_, .batch hd (List.cons_ne_nil t ts) hf hl⟩

theorem Fires.fireAll_eq {ts : List (Timer R J)} {s s' : Timed R J S} {fs : List (Firing R J)}
    (h : Fires fire ts s fs s') : fireAll fire ts s = .ok () s' := by
  induction h with
  | done s => rfl
  | @skip s u t rest fs hl _ ih =>
    rw [fireAll]
    refine (get_bind _ s).trans ?_
    simp only [hl, Bool.false_eq_true, if_false]
    exact ih
  | @fire s u v t rest fs hl hj _ ih =>
    rw [fireAll]
    refine (get_bind _ s).trans ?_
    simp only [hl, if_true]
    refine (modify_bind _ _ s).trans ?_
    exact (bind_of_ok hj _).trans ih

theorem Drains.drainAll_eq {limit : R} {fuel : Nat} {s s' : Timed R J S}
    {log : List (Batch R J)} (h : Drains fire limit fuel s log s') :
    drainAll fire limit fuel s = .ok () s' := by
  induction h with
  | out s => rfl
  | @done fuel s c hd =>
    rw [drainAll]
    refine (get_bind _ s).trans ?_
    rw [hd]
    rfl
  | @batch fuel s u v c ts fs log hd hne hf _ ih =>
    rw [drainAll]
    refine (get_bind _ s).trans ?_
    rw [hd]
    refine (modify_bind _ _ s).trans ?_
    cases ts with
    | nil => exact absurd rfl hne
    | cons t ts => exact (bind_of_ok hf.fireAll_eq _).trans ih

end Timed

end Duel
