import Duel.Proofs.Cue.Phases

namespace Duel.Cue

variable {R L L' α β : Type} {W : L → L' → Prop}

/-- Related listeners hold back the same cues and have the same credit. -/
structure Twins (W : L → L' → Prop) [Listener R L] [Listener R L'] : Prop where
  defers {l : L} {l' : L'} (h : W l l') : Listener.defers l = Listener.defers l'
  credit {l : L} {l' : L'} (h : W l l') : Listener.credit l = Listener.credit l'

namespace Desk

/-- Desks that differ only in their listeners, which are related. -/
structure Alike (W : L → L' → Prop) (d : Desk R L) (e : Desk R L') : Prop where
  clock : d.clock = e.clock
  queue : d.queue = e.queue
  listener : W d.listener e.listener

namespace Alike

variable {d : Desk R L} {e : Desk R L'}

theorem active (h : d.Alike W e) : d.active = e.active := congrArg Queue.active h.queue

variable [Listener R L] [Listener R L']

theorem supply (hW : Twins W) (h : d.Alike W e) : d.supply = e.supply := by
  rw [Desk.supply, Desk.supply, h.queue, hW.credit h.listener]

theorem fuel (hW : Twins W) (h : d.Alike W e) : d.fuel = e.fuel := by
  rw [Desk.fuel, Desk.fuel, h.clock, h.supply hW]

end Alike

/-- The same result or the same fault, at desks that are alike. -/
inductive Matched (W : L → L' → Prop) :
    EStateM.Result (Clock.Fault Field.Invalid) (Desk R L) α →
      EStateM.Result (Clock.Fault Field.Invalid) (Desk R L') α → Prop
  | ok (a : α) {d : Desk R L} {e : Desk R L'} (h : d.Alike W e) : Matched W (.ok a d) (.ok a e)
  | error (fault : Clock.Fault Field.Invalid) {d : Desk R L} {e : Desk R L'} (h : d.Alike W e) :
    Matched W (.error fault d) (.error fault e)

theorem Matched.mono {W' : L → L' → Prop}
    {r : EStateM.Result (Clock.Fault Field.Invalid) (Desk R L) α}
    {r' : EStateM.Result (Clock.Fault Field.Invalid) (Desk R L') α} (h : Matched W r r')
    (hw : ∀ l l', W l l' → W' l l') : Matched W' r r' := by
  cases h with
  | ok a hd => exact .ok a ⟨hd.clock, hd.queue, hw _ _ hd.listener⟩
  | error fault hd => exact .error fault ⟨hd.clock, hd.queue, hw _ _ hd.listener⟩

end Desk

open Desk

/-- Work that comes to the same at desks that are alike. -/
def Matches (W : L → L' → Prop) (x : Work R L α) (y : Work R L' α) : Prop :=
  ∀ (d : Desk R L) (e : Desk R L'), d.Alike W e → Matched W (x d) (y e)

namespace Desk

def via (f : L → L') (d : Desk R L) : Desk R L' := ⟨d.clock, ⟨d.queue, f d.listener⟩⟩

theorem alike_via_iff {f : L → L'} {d : Desk R L} {e : Desk R L'} :
    d.Alike (fun l l' => f l = l') e ↔ d.via f = e := by
  constructor
  · intro h
    obtain ⟨clock, queue, l⟩ := e
    obtain ⟨rfl, rfl, rfl⟩ := h
    rfl
  · rintro rfl
    exact ⟨rfl, rfl, rfl⟩

theorem Matched.via {f : L → L'}
    {r : EStateM.Result (Clock.Fault Field.Invalid) (Desk R L) α}
    {r' : EStateM.Result (Clock.Fault Field.Invalid) (Desk R L') α}
    (h : Matched (fun l l' => f l = l') r r') : r' = seen (Desk.via f) r := by
  cases h with
  | ok a ht => rw [seen, alike_via_iff.mp ht]
  | error fault ht => rw [seen, alike_via_iff.mp ht]

end Desk

namespace Matches

theorem via {f : L → L'} {x : Work R L α} {y : Work R L' α}
    (h : Matches (fun l l' => f l = l') x y) (d : Desk R L) :
    y (d.via f) = seen (Desk.via f) (x d) :=
  (h d (d.via f) (alike_via_iff.mpr rfl)).via

theorem bind {x : Work R L α} {y : Work R L' α} {f : α → Work R L β} {g : α → Work R L' β}
    (h : Matches W x y) (hf : ∀ a, Matches W (f a) (g a)) : Matches W (x >>= f) (y >>= g) := by
  intro d e hd
  change Matched W (EStateM.bind x f d) (EStateM.bind y g e)
  have h := h d e hd
  rw [EStateM.bind, EStateM.bind]
  generalize x d = r, y e = r' at h
  cases h with
  | ok a ht => exact hf a _ _ ht
  | error fault ht => exact .error fault ht

theorem read {f : Desk R L → Work R L β} {g : Desk R L' → Work R L' β}
    (h : ∀ (d : Desk R L) (e : Desk R L'), d.Alike W e → Matches W (f d) (g e)) :
    Matches W (desk >>= f) (desk >>= g) :=
  fun d e hd => h d e hd d e hd

theorem pure (a : α) : Matches W (pure a : Work R L α) (pure a : Work R L' α) :=
  fun _ _ hd => .ok a hd

theorem forM {x : β → Work R L PUnit} {y : β → Work R L' PUnit} {bs : List β}
    (h : ∀ b ∈ bs, Matches W (x b) (y b)) : Matches W (bs.forM x) (bs.forM y) := by
  induction bs with
  | nil => exact pure _
  | cons b bs ih =>
    obtain ⟨hb, h⟩ := List.forall_mem_cons.mp h
    exact hb.bind fun _ => ih h

theorem throw (fault : Clock.Fault Field.Invalid) :
    Matches W (throw fault : Work R L α) (throw fault : Work R L' α) :=
  fun _ _ hd => .error fault hd

theorem changeQueue (f : Queue R → Queue R) :
    Matches W (changeQueue f : Work R L Unit) (Desk.changeQueue f : Work R L' Unit) :=
  fun _ _ hd => .ok () ⟨hd.clock, congrArg f hd.queue, hd.listener⟩

theorem setQueue (q : Queue R) :
    Matches W (setQueue q : Work R L Unit) (Desk.setQueue q : Work R L' Unit) :=
  changeQueue fun _ => q

theorem setListener {l : L} {l' : L'} (h : W l l') :
    Matches W (setListener l : Work R L Unit) (Desk.setListener l' : Work R L' Unit) :=
  fun _ _ hd => .ok () ⟨hd.clock, hd.queue, h⟩

theorem setClock (c : Clock R Job) :
    Matches W (Timed.setClock c : Work R L Unit) (Timed.setClock c : Work R L' Unit) :=
  fun _ _ hd => .ok () ⟨rfl, hd.queue, hd.listener⟩

theorem setNow (now : R) :
    Matches W (Timed.setNow now : Work R L Unit) (Timed.setNow now : Work R L' Unit) :=
  fun _ _ hd => .ok () ⟨congrArg (fun c => { c with now }) hd.clock, hd.queue, hd.listener⟩

theorem reckon (x : Except Double.Fault α) :
    Matches W (Timed.reckon x : Work R L α) (Timed.reckon x : Work R L' α) := by
  cases x with
  | ok a => exact pure a
  | error e => exact throw _

theorem valid (x : Except Field.Invalid α) :
    Matches W (valid x : Work R L α) (Desk.valid x : Work R L' α) := by
  cases x with
  | ok a => exact pure a
  | error e => exact throw _

theorem lastly {x : Work R L Unit} {y : Work R L' Unit} (f : Queue R → Queue R)
    (h : Matches W x y) : Matches W (lastly f x) (Desk.lastly f y) := by
  intro d e hd
  have h := h d e hd
  rw [Desk.lastly, Desk.lastly]
  generalize x d = r, y e = r' at h
  cases h with
  | ok a ht => exact .ok a ⟨ht.clock, congrArg f ht.queue, ht.listener⟩
  | error fault ht => exact .error fault ⟨ht.clock, congrArg f ht.queue, ht.listener⟩

theorem cancelTimer :
    Matches W (cancelTimer : Work R L Unit) (Desk.cancelTimer : Work R L' Unit) :=
  read fun d e hd => by
    rw [hd.queue, hd.clock]
    cases e.queue.timer with
    | none => exact pure _
    | some n => exact (setClock _).bind fun _ => setQueue _

variable {T : Tell R L} {T' : Tell R L'}

theorem retire (h : ∀ notice, Matches W (T notice) (T' notice)) :
    Matches W (retire T) (Desk.retire T') :=
  (changeQueue _).bind fun _ => h none

theorem clear (h : ∀ notice, Matches W (T notice) (T' notice)) :
    Matches W (clear T) (Desk.clear T') := by
  refine cancelTimer.bind fun _ => (changeQueue _).bind fun _ => read fun d e hd => ?_
  rw [hd.active]
  split
  · exact retire h
  · exact pure _

variable [Scalar R]

theorem schedule (delay : R) (job : Job) :
    Matches W (Timed.schedule delay job : Work R L Nat)
      (Timed.schedule delay job : Work R L' Nat) :=
  read fun d e hd => by
    rw [hd.clock]
    exact (reckon _).bind fun _ => (setClock _).bind fun _ => pure _

theorem await (length : R) (a : Active R) :
    Matches W (await length a : Work R L Unit) (Desk.await length a : Work R L' Unit) :=
  (schedule _ _).bind fun _ => changeQueue _

theorem present (h : ∀ notice, Matches W (T notice) (T' notice)) (c : Queued R) :
    Matches W (present T c) (Desk.present T' c) := by
  refine read fun d e hd => (changeQueue _).bind fun _ => read fun d' e' hd' => ?_
  rw [hd.queue, hd'.queue, hd'.clock]
  refine (reckon _).bind fun ends => (valid _).bind fun a => (changeQueue _).bind fun _ => ?_
  refine (h _).bind fun _ => read fun t u ht => ?_
  rw [ht.queue]
  split
  · exact pure _
  · split
    · exact retire h
    · exact await _ _

section Loops

variable {f : Job → Work R L Unit} {g : Job → Work R L' Unit}

theorem fireAll (h : ∀ job, Matches W (f job) (g job)) (batch : List (Timer R Job)) :
    Matches W (Timed.fireAll f batch) (Timed.fireAll g batch) := by
  induction batch with
  | nil => exact pure _
  | cons t batch ih =>
    refine read fun d e hd => ?_
    rw [hd.clock]
    dsimp only
    split
    · exact (setNow _).bind fun _ => (h _).bind fun _ => ih
    · exact ih

theorem drainAll (h : ∀ job, Matches W (f job) (g job)) (limit : R) (fuel : Nat) :
    Matches W (Timed.drainAll f limit fuel) (Timed.drainAll g limit fuel) := by
  induction fuel with
  | zero => exact pure _
  | succ fuel ih =>
    refine read fun d e hd => ?_
    rw [hd.clock]
    refine (setClock _).bind fun _ => ?_
    split
    · exact pure _
    · exact (fireAll h _).bind fun _ => ih

theorem advance (h : ∀ job, Matches W (f job) (g job)) (fuel : Nat) (ms : R) :
    Matches W (Timed.advance f fuel ms) (Timed.advance g fuel ms) :=
  read fun d e hd => by
    rw [hd.clock]
    exact (reckon _).bind fun _ => (drainAll h _ _).bind fun _ => setNow _

theorem runAll (h : ∀ job, Matches W (f job) (g job)) (fuel limit : Nat) :
    Matches W (Timed.runAll f fuel limit) (Timed.runAll g fuel limit) := by
  induction limit with
  | zero => exact pure _
  | succ limit ih =>
    refine read fun d e hd => ?_
    rw [hd.clock]
    dsimp only
    split
    · exact pure _
    · exact (reckon _).bind fun _ => (advance h _ _).bind fun _ => ih

end Loops

variable [Listener R L] [Listener R L']

omit [Scalar R] in
theorem note {notice : Option (Active R)}
    (h : ∀ l l', W l l' → W (Listener.note l notice) (Listener.note l' notice)) :
    Matches W (note notice : Work R L Unit) (Desk.note notice : Work R L' Unit) :=
  read fun _ _ hd => setListener (h _ _ hd.listener)

theorem startLoop (hW : Twins W) (h : ∀ notice, Matches W (T notice) (T' notice)) (fuel : Nat) :
    Matches W (startLoop T fuel) (Desk.startLoop T' fuel) := by
  induction fuel with
  | zero => exact pure _
  | succ fuel ih =>
    refine read fun d e hd => ?_
    rw [hd.active, hd.queue, hW.defers hd.listener]
    cases e.active.isSome with
    | true => exact pure _
    | false =>
      cases Queue.takeFirst (Listener.defers e.listener) e.queue.pending with
      | none => exact pure _
      | some p => exact (setQueue _).bind fun _ => (present h _).bind fun _ => ih

theorem startNext (hW : Twins W) (h : ∀ notice, Matches W (T notice) (T' notice)) :
    Matches W (startNext T) (Desk.startNext T') := by
  refine read fun d e hd => ?_
  rw [hd.queue, hd.supply hW]
  split
  · exact pure _
  · exact (setQueue _).bind fun _ => lastly _ (startLoop hW h _)

theorem finish (hW : Twins W) (h : ∀ notice, Matches W (T notice) (T' notice)) (id : Nat) :
    Matches W (finish T id) (Desk.finish T' id) := by
  refine read fun d e hd => ?_
  rw [hd.active]
  split
  · exact (changeQueue _).bind fun _ => (retire h).bind fun _ => startNext hW h
  · exact pure _

theorem enqueue (hW : Twins W) (h : ∀ notice, Matches W (T notice) (T' notice)) (c : Cue R) :
    Matches W (enqueue T c) (Desk.enqueue T' c) := by
  refine read fun d e hd => ?_
  rw [hd.queue, hd.clock]
  refine (reckon _).bind fun merged => ?_
  cases merged with
  | some a => exact (setQueue _).bind fun _ => h _
  | none =>
    refine (reckon _).bind fun merged => ?_
    cases merged with
    | some pending => exact setQueue _
    | none =>
      cases e.queue.receive c with
      | none => exact pure _
      | some q =>
        refine (setQueue _).bind fun _ => (valid _).bind fun w => ?_
        exact (setQueue _).bind fun _ => startNext hW h

theorem interrupt (hW : Twins W) (h : ∀ notice, Matches W (T notice) (T' notice)) :
    Matches W (interrupt T) (Desk.interrupt T') := by
  refine read fun d e hd => ?_
  rw [hd.active]
  split
  · exact pure _
  · exact cancelTimer.bind fun _ => (retire h).bind fun _ => startNext hW h

theorem fire (hW : Twins W) (hr : ∀ l l', W l l' → W (Listener.resume l) (Listener.resume l'))
    (h : ∀ notice, Matches W (T notice) (T' notice)) (job : Job) :
    Matches W (fire T job) (Desk.fire T' job) := by
  cases job with
  | finish id => exact finish hW h id
  | resume =>
    exact read fun d e hd => (setListener (hr _ _ hd.listener)).bind fun _ => startNext hW h

theorem inner (hW : Twins W) (h : ∀ notice, Matches W (T notice) (T' notice)) {r : Request R}
    (hr : r.Inner) : Matches W (perform T r) (Desk.perform T' r) := by
  cases hr with
  | enqueue c => exact enqueue hW h c
  | interrupt => exact interrupt hW h
  | clear => exact clear h
  | poke => exact startNext hW h
  | nothing => exact pure _

theorem perform (hW : Twins W) (hr : ∀ l l', W l l' → W (Listener.resume l) (Listener.resume l'))
    (h : ∀ notice, Matches W (T notice) (T' notice)) (r : Request R) :
    Matches W (perform T r) (Desk.perform T' r) := by
  cases r with
  | enqueue c => exact inner hW h (.enqueue c)
  | interrupt => exact inner hW h .interrupt
  | clear => exact inner hW h .clear
  | poke => exact inner hW h .poke
  | nothing => exact inner hW h .nothing
  | refuse cause => exact throw _
  | advance ms =>
    refine read fun d e hd => ?_
    rw [hd.fuel hW]
    exact advance (fire hW hr h) _ ms
  | runAll limit =>
    refine read fun d e hd => ?_
    rw [hd.fuel hW]
    exact runAll (fire hW hr h) _ limit

end Matches

namespace Desk

variable [Listener Rat L] {n : Nat}

/-- Two pieces of work that do the same where the listener has no more credit than `n`, and that
give it none. -/
def Agree (n : Nat) (x y : Work Rat L α) : Prop :=
  ∀ d : Desk Rat L, Listener.credit d.listener ≤ n →
    x d = y d ∧ ∀ a (t : Desk Rat L), x d = .ok a t → Listener.credit t.listener ≤ n

def Within (n : Nat) (l l' : L) : Prop := l = l' ∧ Listener.credit l ≤ n

theorem within_twins : Twins (Within n : L → L → Prop) where
  defers h := by rw [h.1]
  credit h := by rw [h.1]

theorem Alike.eq {d e : Desk Rat L} (h : d.Alike (Within n) e) : d = e := by
  obtain ⟨clock, queue, l⟩ := d
  obtain ⟨rfl, rfl, rfl, -⟩ := h
  rfl

theorem Agree.of_matches {x y : Work Rat L α} (h : Matches (Within n) x y) : Agree n x y := by
  intro d hd
  have h := h d d ⟨rfl, rfl, rfl, hd⟩
  generalize x d = r, y d = r' at h
  cases h with
  | ok a ht => exact ⟨by rw [ht.eq], fun b u hu => by cases hu; exact ht.listener.2⟩
  | error fault ht => exact ⟨by rw [ht.eq], fun b u hu => by cases hu⟩

def withListener (d : Desk Rat L) (l : L) : Desk Rat L :=
  { d with state.listener := l }

variable {d : Desk Rat L} {notice : Option (Active Rat)} {place : Nat}

theorem answer_of_none (h : Listener.next d.listener notice place = none) (credit : Nat) :
    answer credit notice place d = .ok () d := by
  cases credit with
  | zero => rfl
  | succ credit =>
    refine (get_bind _ d).trans ?_
    rw [h]
    rfl

theorem answer_of_some {r : Request Rat} {after : Nat} {l : L}
    (h : Listener.next d.listener notice place = some (r, after, l)) (credit : Nat) :
    answer (credit + 1) notice place d =
      (do perform (tell credit) r; answer credit notice after) (d.withListener l) := by
  refine (get_bind _ d).trans ?_
  rw [h]
  rfl

theorem tell_matches_of {k k' : Nat} (hL : Modest L)
    (h : ∀ notice place,
      Matches (Within n) (answer k notice place : Work Rat L Unit) (answer k' notice place))
    (notice : Option (Active Rat)) :
    Matches (Within n) (tell k notice : Work Rat L Unit) (tell k' notice) :=
  (Matches.note fun _ _ hl => ⟨by rw [hl.1], Nat.le_trans (hL.notes _ _) hl.2⟩).bind
    fun _ => h notice 0

/-- How far a listener is followed makes no difference, if only as far as its credit. -/
theorem answer_matches (hL : Modest L) {k k' : Nat} (hk : n ≤ k) (hk' : n ≤ k')
    (notice : Option (Active Rat)) (place : Nat) :
    Matches (Within n) (answer k notice place : Work Rat L Unit) (answer k' notice place) := by
  induction n using Nat.strongRecOn generalizing k k' notice place with
  | ind n ih =>
    intro d e hd
    obtain rfl := hd.eq
    cases hn : Listener.next d.listener notice place with
    | none =>
      rw [answer_of_none hn, answer_of_none hn]
      exact .ok () hd
    | some p =>
      obtain ⟨r, after, l⟩ := p
      have hl : Listener.credit l < n := Nat.lt_of_lt_of_le (hL.pays hn) hd.listener.2
      obtain ⟨k, rfl⟩ : ∃ m, k = m + 1 := Nat.exists_eq_succ_of_ne_zero (by omega)
      obtain ⟨k', rfl⟩ : ∃ m, k' = m + 1 := Nat.exists_eq_succ_of_ne_zero (by omega)
      rw [answer_of_some hn, answer_of_some hn]
      have ih (notice : Option (Active Rat)) (place : Nat) :
          Matches (Within (Listener.credit l)) (answer k notice place : Work Rat L Unit)
            (answer k' notice place) :=
        ih (Listener.credit l) hl (by omega) (by omega) notice place
      have hp := (Matches.inner within_twins (tell_matches_of hL ih) (hL.asks hn)).bind
        fun _ => ih notice after
      have hs := hp (d.withListener l) (d.withListener l) ⟨rfl, rfl, rfl, Nat.le_refl _⟩
      exact hs.mono fun _ _ h => ⟨h.1, Nat.le_trans h.2 (Nat.le_of_lt hl)⟩

theorem tell_agree (hL : Modest L) {k k' : Nat} (hk : n ≤ k) (hk' : n ≤ k')
    (notice : Option (Active Rat)) : Agree n (tell k notice : Work Rat L Unit) (tell k' notice) :=
  .of_matches (tell_matches_of hL (answer_matches hL hk hk') notice)

end Desk

end Duel.Cue
