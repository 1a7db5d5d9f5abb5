import Duel.Proofs.Cue.Lasting
import Duel.Proofs.Cue.Pending

/-!
A desk at rest that shows no cue has none that could start. While cues are being started, calls
from within leave it to the loop that is running; it goes on until a cue stays or none can start.
-/

namespace Duel.Cue

open Desk

variable {R L : Type}

/-- A listener whose credit pays for what it asks. -/
structure Thrifty (L : Type) [Listener R L] : Prop where
  pays {l l' : L} {notice : Option (Active R)} {place after : Nat} {r : Request R}
    (h : Listener.next l notice place = some (r, after, l')) :
    Listener.credit l' < Listener.credit l
  notes (l : L) (notice : Option (Active R)) :
    Listener.credit (Listener.note l notice) ≤ Listener.credit l
  resumes (l : L) : Listener.credit (Listener.resume l) ≤ Listener.credit l

namespace Desk

def withQueue (d : Desk R L) (q : Queue R) : Desk R L := { d with state.queue := q }

abbrev Reaches (x : Work R L Unit) (d : Desk R L) (P : Desk R L → Prop) : Prop :=
  Comes x d (fun _ => P) fun _ => True

/-- Cues are being started, of which there are at most `n` more. -/
structure Starting [Listener R L] (n : Nat) (d : Desk R L) : Prop where
  phase : d.queue.starting = true
  supply : d.supply ≤ n

/-- No cues are being started. If `B`, none could be: one is shown, or all that wait are held
back. -/
structure Resting (held : Cue R → Bool) (B : Prop) (d : Desk R L) : Prop where
  phase : d.queue.starting = false
  blocked : B → d.active = none → ∀ c ∈ d.queue.pending, Queue.isHeld held c = true

structure Orderly [Listener R L] (held : Cue R → Bool) (x : Work R L Unit) : Prop where
  starting {n : Nat} {d : Desk R L} (h : d.Starting n) : Reaches x d (Starting n)
  resting {B : Prop} {d : Desk R L} (h : d.Resting held B) : Reaches x d (Resting held B)

variable [Scalar R] [Listener R L] {held : Cue R → Bool} {T : Tell R L} {d : Desk R L} {n : Nat}
  {B : Prop}

omit [Scalar R] in
theorem Starting.mono (h : d.Starting n) {m : Nat} (hm : n ≤ m) : d.Starting m :=
  ⟨h.phase, Nat.le_trans h.supply hm⟩

omit [Scalar R] in
theorem Starting.withQueue (h : d.Starting n) {q : Queue R} {m : Nat}
    (hq : q.starting = d.queue.starting)
    (hl : q.pending.length ≤ d.queue.pending.length + m) : (d.withQueue q).Starting (n + m) := by
  refine ⟨hq.trans h.phase, ?_⟩
  have hs : d.queue.pending.length + Listener.credit d.listener ≤ n := h.supply
  change q.pending.length + Listener.credit d.listener ≤ n + m
  omega

omit [Scalar R] in
theorem Starting.withListener (h : d.Starting n) {l : L} {m : Nat}
    (hl : Listener.credit l + m ≤ Listener.credit d.listener) :
    Starting (n - m) { d with state.listener := l } := by
  refine ⟨h.phase, ?_⟩
  have hs : d.queue.pending.length + Listener.credit d.listener ≤ n := h.supply
  change d.queue.pending.length + Listener.credit l ≤ n - m
  omega

theorem enqueue_reaches_of {c : Cue R} {P : Desk R L → Prop}
    (hj : ∀ a, d.queue.mergeActive c.key d.clock.now = .ok (some a) →
      Reaches (T (some a)) (d.withQueue (d.queue.withActive (some a))) P)
    (hm : ∀ pending,
      d.queue.mergePending c.key d.clock.now d.queue.pending = .ok (some pending) →
      P (d.withQueue { d.queue with pending }))
    (hd : P d)
    (he : ∀ q w, d.queue.receive c = some q → q.queued c d.clock.now = .ok w →
      Reaches (startNext T) (d.withQueue (q.insertPending w)) P) :
    Reaches (enqueue T c) d P := by
  refine Comes.get (Timed.reckon_comes (fun merged ha => ?_) trivial)
  cases merged with
  | some a => exact Comes.modify (hj a ha)
  | none =>
    refine Timed.reckon_comes (fun merged hp => ?_) trivial
    cases merged with
    | some pending => exact hm pending hp
    | none =>
      dsimp only
      cases hr : d.queue.receive c with
      | none => exact Comes.pure hd
      | some q =>
        exact Comes.modify (valid_comes (fun w hw => Comes.modify (he q w hr hw)) trivial)

section Starting

variable (hT : ∀ notice, Orderly held (T notice)) (h : d.Starting n)
include hT h

omit hT in
theorem Starting.startNext_reaches : Reaches (startNext T) d (Starting n) := by
  refine Comes.get ?_
  rw [h.phase]
  exact Comes.pure h

omit [Scalar R] in
theorem Starting.retire_reaches : Reaches (retire T) d (Starting n) :=
  Comes.modify ((hT none).starting ⟨h.phase, h.supply⟩)

theorem Starting.finish_reaches (id : Nat) : Reaches (finish T id) d (Starting n) := by
  refine Comes.get ?_
  split
  · have h : (d.withQueue { d.queue with timer := none }).Starting n := ⟨h.phase, h.supply⟩
    refine Comes.modify ((h.retire_reaches hT).bind fun _ t ht => ht.startNext_reaches)
  · exact Comes.pure h

theorem Starting.interrupt_reaches : Reaches (interrupt T) d (Starting n) := by
  refine Comes.get ?_
  split
  · exact Comes.pure h
  · refine (cancelTimer_comes (P := Starting n) fun _ _ => ⟨h.phase, h.supply⟩).bind
      fun _ t ht => ?_
    exact (ht.retire_reaches hT).bind fun _ u hu => hu.startNext_reaches

omit [Scalar R] in
theorem Starting.clear_reaches : Reaches (clear T) d (Starting n) := by
  refine (cancelTimer_comes (P := Starting n) fun _ _ => ⟨h.phase, h.supply⟩).bind
    fun _ (t : Desk R L) ht => ?_
  have ht : (t.withQueue { t.queue with pending := [] }).Starting n :=
    ht.withQueue (m := 0) rfl (Nat.zero_le _)
  refine Comes.modify (Comes.get ?_)
  split
  · exact ht.retire_reaches hT
  · exact Comes.pure ht

theorem Starting.enqueue_reaches (c : Cue R) : Reaches (enqueue T c) d (Starting (n + 1)) := by
  refine enqueue_reaches_of (fun a _ => ?_) (fun pending hp => ?_) (h.mono (Nat.le_succ n))
    fun q w hr _ => ?_
  · exact (hT _).starting (h.withQueue rfl (Nat.le_succ _))
  · obtain ⟨before, e, after, hq, rfl, -⟩ := Queue.mergePending_parts hp
    refine h.withQueue rfl (Nat.le_succ_of_le (Nat.le_of_eq ?_))
    rw [hq, List.length_append, List.length_append]
    rfl
  · obtain ⟨keeps, hq, -⟩ := Queue.receive_keeps hr
    have hs : (q.insertPending w).starting = d.queue.starting := by rw [hq]; rfl
    have hl : (q.insertPending w).pending.length ≤ d.queue.pending.length + 1 := by
      refine Nat.le_trans (Nat.le_of_eq (Queue.insert_perm w q.pending).length_eq) ?_
      rw [hq]
      exact Nat.succ_le_succ (List.length_filter_le _ _)
    exact (h.withQueue hs hl).startNext_reaches

theorem Starting.fire_reaches (hL : Thrifty L) (job : Job) :
    Reaches (fire T job) d (Starting n) := by
  cases job with
  | finish id => exact h.finish_reaches hT id
  | resume =>
    exact Comes.get (Comes.modify
      (h.withListener (m := 0) (hL.resumes d.listener)).startNext_reaches)

theorem Starting.perform_reaches (hL : Thrifty L) (r : Request R) :
    Reaches (perform T r) d (Starting (n + 1)) := by
  have hc (s : Desk R L) (c : Clock R Job) (hs : s.Starting (n + 1)) :
      Starting (n + 1) ⟨c, s.state⟩ := ⟨hs.phase, hs.supply⟩
  have hf (job : Job) (s : Desk R L) (hs : s.Starting (n + 1)) :
      Reaches (fire T job) s (Starting (n + 1)) := hs.fire_reaches hT hL job
  have hn : d.Starting (n + 1) := h.mono (Nat.le_succ n)
  cases r with
  | enqueue c => exact h.enqueue_reaches hT c
  | interrupt => exact hn.interrupt_reaches hT
  | clear => exact hn.clear_reaches hT
  | poke => exact hn.startNext_reaches
  | advance ms => exact Comes.get (Timed.advance_comes hc (fun _ _ => trivial) hf _ ms hn)
  | runAll limit => exact Comes.get (Timed.runAll_comes hc (fun _ _ => trivial) hf _ limit hn)
  | nothing => exact Comes.pure hn
  | refuse cause => exact trivial

theorem Starting.present_reaches (c : Queued R) : Reaches (present T c) d (Starting n) := by
  refine Comes.get (Comes.modify (Comes.get ?_))
  refine Timed.reckon_comes (fun ends _ => valid_comes (fun a _ => Comes.modify ?_) trivial) trivial
  have hs : Starting n (d.withShown d.queue.pending a) := ⟨h.phase, h.supply⟩
  refine ((hT (some a)).starting hs).bind fun _ t ht => Comes.get ?_
  split
  · exact Comes.pure ht
  · split
    · exact ht.retire_reaches hT
    · refine (Timed.schedule_comes _ _ (Q := fun _ => Starting n) (fun _ _ => ⟨ht.phase, ht.supply⟩)
        trivial).bind fun k (u : Desk R L) hu => ?_
      have hu : (u.withQueue { u.queue with timer := some k }).Starting n := ⟨hu.phase, hu.supply⟩
      exact hu

end Starting

variable (hT : ∀ notice, Orderly held (T notice)) (hd : ∀ l : L, Listener.defers l = held)
include hT hd

/-- With fuel for all that can be shown, the loop does not end before a cue stays or none that
waits can start. -/
theorem startLoop_reaches {fuel : Nat} (hn : n < fuel) (h : d.Starting n) :
    Reaches (startLoop T fuel) d fun t => t.queue.starting = true ∧
      (t.active = none → ∀ c ∈ t.queue.pending, Queue.isHeld held c = true) := by
  induction fuel generalizing d n with
  | zero => exact absurd hn (Nat.not_lt_zero n)
  | succ fuel ih =>
    refine Comes.get ?_
    cases ha : d.active with
    | some a =>
      refine Comes.pure ⟨h.phase, fun hn => ?_⟩
      rw [ha] at hn
      cases hn
    | none =>
      rw [hd d.listener]
      cases hf : Queue.takeFirst held d.queue.pending with
      | none => exact Comes.pure ⟨h.phase, fun _ => Queue.takeFirst_none hf⟩
      | some p =>
        obtain ⟨c, pending⟩ := p
        -- A cue that is shown is one less that can still be shown.
        have hl : d.queue.pending.length = pending.length + 1 :=
          (Queue.takeFirst_perm hf).length_eq
        have hs : d.queue.pending.length + Listener.credit d.listener ≤ n := h.supply
        obtain ⟨m, rfl⟩ : ∃ m, n = m + 1 := Nat.exists_eq_add_one.mpr (by omega)
        have hp : (d.withPending pending).Starting m := by
          refine ⟨h.phase, ?_⟩
          change pending.length + Listener.credit d.listener ≤ m
          omega
        refine Comes.modify ((hp.present_reaches hT c).bind fun _ t ht => ?_)
        exact ih (Nat.lt_of_succ_lt_succ hn) ht

theorem startNext_reaches (h : d.queue.starting = false) :
    Reaches (startNext T) d (Resting held B) := by
  refine Comes.get ?_
  rw [h]
  refine Comes.modify (lastly_comes ?_)
  have hs : (d.withStarting true).Starting d.supply := ⟨rfl, Nat.le_refl _⟩
  exact (startLoop_reaches hT hd (Nat.lt_succ_self _) hs).mono
    (fun _ t ht => ⟨rfl, fun _ => ht.2⟩) fun _ _ => trivial

theorem replace_reaches (h : d.queue.starting = false) :
    Reaches (do retire T; startNext T) d (Resting held B) := by
  have h : (d.withQueue (d.queue.withActive none)).Resting held False := ⟨h, False.elim⟩
  have hr : Reaches (retire T) d (Resting held False) := Comes.modify ((hT none).resting h)
  exact hr.bind fun _ t ht => startNext_reaches hT hd ht.phase

theorem Resting.finish_reaches (h : d.Resting held B) (id : Nat) :
    Reaches (finish T id) d (Resting held B) := by
  refine Comes.get ?_
  split
  · exact Comes.modify (replace_reaches hT hd h.phase)
  · exact Comes.pure h

theorem Resting.interrupt_reaches (h : d.Resting held B) :
    Reaches (interrupt T) d (Resting held B) := by
  refine Comes.get ?_
  split
  · exact Comes.pure h
  · refine (cancelTimer_comes (P := fun t => t.queue.starting = false) fun _ _ => h.phase).bind
      fun _ t ht => replace_reaches hT hd ht

omit [Scalar R] hd in
theorem Resting.clear_reaches (h : d.Resting held B) :
    Reaches (clear T) d (Resting held B) := by
  refine (cancelTimer_comes (P := fun t => t.queue.starting = false) fun _ _ => h.phase).bind
    fun _ (t : Desk R L) ht => Comes.modify (Comes.get ?_)
  have hn (a : Option (Active R)) :
      (t.withQueue { t.queue with pending := [], active := a }).Resting held B :=
    ⟨ht, fun _ _ => List.forall_mem_nil _⟩
  split
  · exact Comes.modify ((hT none).resting (hn none))
  · exact Comes.pure (hn t.active)

theorem Resting.enqueue_reaches (h : d.Resting held B) (c : Cue R) :
    Reaches (enqueue T c) d (Resting held B) := by
  refine enqueue_reaches_of (fun a _ => (hT _).resting ⟨h.phase, fun _ => nofun⟩)
    (fun pending hp => ?_) h fun q w hr _ => startNext_reaches hT hd ?_
  · -- A cue that is counted again is held back as before.
    obtain ⟨before, e, after, hq, rfl, -⟩ := Queue.mergePending_parts hp
    refine ⟨h.phase, fun hB hn => ?_⟩
    have hh := h.blocked hB hn
    rw [hq] at hh
    rw [List.forall_mem_append, List.forall_mem_cons] at hh
    exact List.forall_mem_append.mpr ⟨hh.1, List.forall_mem_cons.mpr hh.2⟩
  · obtain ⟨keeps, rfl, -⟩ := Queue.receive_keeps hr
    exact h.phase

theorem Resting.fire_reaches (h : d.Resting held B) (job : Job) :
    Reaches (fire T job) d (Resting held B) := by
  cases job with
  | finish id => exact h.finish_reaches hT hd id
  | resume => exact Comes.get (Comes.modify (startNext_reaches hT hd h.phase))

theorem Resting.perform_reaches (h : d.Resting held B) (r : Request R) :
    Reaches (perform T r) d (Resting held B) := by
  have hc (s : Desk R L) (c : Clock R Job) (hs : s.Resting held B) :
      Resting held B ⟨c, s.state⟩ := ⟨hs.phase, hs.blocked⟩
  have hf (job : Job) (s : Desk R L) (hs : s.Resting held B) :
      Reaches (fire T job) s (Resting held B) := hs.fire_reaches hT hd job
  cases r with
  | enqueue c => exact h.enqueue_reaches hT hd c
  | interrupt => exact h.interrupt_reaches hT hd
  | clear => exact h.clear_reaches hT
  | poke => exact startNext_reaches hT hd h.phase
  | advance ms => exact Comes.get (Timed.advance_comes hc (fun _ _ => trivial) hf _ ms h)
  | runAll limit => exact Comes.get (Timed.runAll_comes hc (fun _ _ => trivial) hf _ limit h)
  | nothing => exact Comes.pure h
  | refuse cause => exact trivial

end Desk

variable [Scalar R] [Listener R L] {held : Cue R → Bool} {d : Desk R L}
  (hL : Thrifty L) (hd : ∀ l : L, Listener.defers l = held)
include hL hd

omit [Scalar R] hd in
theorem note_orderly (notice : Option (Active R)) : Orderly held (note notice : Work R L Unit) where
  starting h := h.withListener (m := 0) (hL.notes _ notice)
  resting h := ⟨h.phase, h.blocked⟩

omit [Scalar R] [Listener R L] hL hd in
theorem Desk.Orderly.bind [Listener R L] {x : Work R L Unit} {f : Unit → Work R L Unit}
    (hx : Orderly held x) (hf : Orderly held (f ())) : Orderly held (x >>= f) where
  starting h := (hx.starting h).bind fun _ _ ht => hf.starting ht
  resting h := (hx.resting h).bind fun _ _ ht => hf.resting ht

theorem answer_orderly (credit : Nat) (notice : Option (Active R)) (place : Nat) :
    Orderly held (answer credit notice place : Work R L Unit) := by
  -- The credit that is left bounds the depth of the calls from within.
  induction credit generalizing notice place with
  | zero => exact ⟨fun h => Comes.pure h, fun h => Comes.pure h⟩
  | succ credit ih =>
    have hT (notice : Option (Active R)) : Orderly held (tell credit notice : Work R L Unit) :=
      (note_orderly hL notice).bind (ih notice 0)
    constructor
    · intro n d h
      refine Comes.get ?_
      cases hn : Listener.next d.listener notice place with
      | none => exact Comes.pure h
      | some p =>
        have hl : Listener.credit p.2.2 + 1 ≤ Listener.credit d.listener := hL.pays hn
        have hs : d.queue.pending.length + Listener.credit d.listener ≤ n := h.supply
        obtain ⟨m, rfl⟩ : ∃ m, n = m + 1 := Nat.exists_eq_add_one.mpr (by omega)
        refine Comes.modify (((h.withListener hl).perform_reaches hT hL p.1).bind fun _ t ht => ?_)
        exact (ih notice _).starting ht
    · intro B d h
      refine Comes.get ?_
      cases hn : Listener.next d.listener notice place with
      | none => exact Comes.pure h
      | some p =>
        have h : Resting held B { d with state.listener := p.2.2 } := ⟨h.phase, h.blocked⟩
        exact Comes.modify ((h.perform_reaches hT hd p.1).bind fun _ t ht =>
          (ih notice _).resting ht)

theorem tell_orderly (credit : Nat) (notice : Option (Active R)) :
    Orderly held (tell credit notice : Work R L Unit) :=
  (note_orderly hL notice).bind (answer_orderly hL hd credit notice 0)

theorem Desk.Resting.occur_reaches (h : d.Resting held True) (o : Occasion R L) :
    Reaches (occur o) d (Resting held True) := by
  cases o with
  | visit v =>
    cases v with
    | ask r => exact Comes.get (h.perform_reaches (tell_orderly hL hd _) hd r)
    | change f =>
      have h : Resting held True { d with state.listener := f d.listener } := ⟨h.phase, h.blocked⟩
      exact h
    | pause delay hold =>
      refine Comes.get (Comes.modify (Comes.bind (Q := fun _ => Resting held True) ?_
        fun _ _ ht => ht))
      exact Timed.schedule_comes _ _ (fun _ _ => ⟨h.phase, h.blocked⟩) trivial
  | clock c =>
    have h : Resting held True ⟨c, d.state⟩ := ⟨h.phase, h.blocked⟩
    exact h
  | due job => exact Comes.get (h.fire_reaches (tell_orderly hL hd _) hd job)

end Duel.Cue
