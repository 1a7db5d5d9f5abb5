import Duel.Proofs.Clock.Firing
import Duel.Proofs.Cue.Minutes

/-!
What lasts at a desk. A property of the queue and the minutes that every single change of them
keeps, holds after every visit and whenever the listener is told of something: the calls from
within, the timers and the loops are dealt with here, once and for all.
-/

namespace Duel.Cue

def Request.isPlain {R : Type} : Request R → Bool
  | .enqueue _ | .clear => false
  | _ => true

/-- The queue at a moment that the minutes tell of, with the minutes up to then. -/
inductive Minutes.Shows {R : Type} (q : Queue R) (m : Minutes R) : Queue R → Minutes R → Prop
  | now : Shows q m q m
  | noted {k : Minutes R} {e : Entry R} (h : (k ++ [e]) <+: m) : Shows q m e.queue (k ++ [e])

/-- What holds now, and has held whenever something was asked or told. -/
def Ever {R : Type} (J : Queue R → Minutes R → Prop) (q : Queue R) (m : Minutes R) : Prop :=
  ∀ p k, Minutes.Shows q m p k → J p k

namespace Ever

variable {R : Type} {J : Queue R → Minutes R → Prop} {q q' : Queue R} {m : Minutes R} {e : Entry R}

theorem now (h : Ever J q m) : J q m := h q m .now

theorem become (h : Ever J q m) (hq : J q' m) : Ever J q' m
  | _, _, .now => hq
  | _, _, .noted hp => h _ _ (.noted hp)

theorem enter (h : Ever J q m) (hq : J q' (m ++ [e])) (he : J e.queue (m ++ [e])) :
    Ever J q' (m ++ [e])
  | _, _, .now => hq
  | _, _, .noted hp => by
    obtain heq | hp := List.prefix_concat_iff.mp hp
    · obtain ⟨rfl, hl⟩ := List.append_inj' heq rfl
      cases hl
      exact he
    · exact h _ _ (.noted hp)

theorem nil (h : J q []) : Ever J q []
  | _, _, .now => h
  | _, _, .noted hp => by simp at hp

end Ever

variable {R L : Type} [Scalar R]

/-- What a queue can become when a cue comes in that does not join the active one. -/
inductive Queue.Takes (q : Queue R) (c : Cue R) (now : R) : Queue R → Prop
  | merged {pending : List (Queued R)} (hn : q.mergeActive c.key now = .ok none)
      (hp : q.mergePending c.key now q.pending = .ok (some pending)) :
      Takes q c now { q with pending }
  | dropped (hn : q.mergeActive c.key now = .ok none)
      (hp : q.mergePending c.key now q.pending = .ok none) (hr : q.receive c = none) :
      Takes q c now q
  | entered {q' : Queue R} {w : Queued R} (hn : q.mergeActive c.key now = .ok none)
      (hp : q.mergePending c.key now q.pending = .ok none) (hr : q.receive c = some q')
      (hw : q'.queued c now = .ok w) : Takes q c now (q'.insertPending w)

def Queue.popped (q : Queue R) (pending : List (Queued R)) : Queue R :=
  { q with pending, lastId := q.lastId + 1 }

def Queue.withActive (q : Queue R) (a : Option (Active R)) : Queue R := { q with active := a }

/-- `J` is kept by each single change of a queue and its minutes, with a listener of this type; `K`
is what remains of it where work breaks off. -/
structure Lasting (L : Type) [Listener R L] (J K : Queue R → Minutes R → Prop) : Prop where
  weaken {q : Queue R} {m : Minutes R} (h : J q m) : K q m
  aside {q : Queue R} {m : Minutes R} (timer : Option Nat) (starting : Bool) (h : J q m) :
    J { q with timer, starting } m
  broken {q : Queue R} {m : Minutes R} (starting : Bool) (h : K q m) : K { q with starting } m
  asks {q : Queue R} {m : Minutes R} {r : Request R} (now : R) (hr : r.isPlain = true)
    (h : J q m) : J q (m ++ [.asked r now q])
  clears {q : Queue R} {m : Minutes R} (now : R) (h : J q m) :
    J { q with pending := [] } (m ++ [.asked .clear now q])
  joins {q : Queue R} {m : Minutes R} {c : Cue R} {now : R} {a : Active R}
    (ha : q.mergeActive c.key now = .ok (some a)) (h : J q m) :
    J (q.withActive a)
      (m ++ [.asked (.enqueue c) now q] ++ [.told (some a) (q.withActive a)])
  takes {q q' : Queue R} {m : Minutes R} {c : Cue R} {now : R} (hq : q.Takes c now q')
    (h : J q m) : J q' (m ++ [.asked (.enqueue c) now q])
  refuses {q : Queue R} {m : Minutes R} (c : Cue R) (now : R) (h : J q m) :
    K q (m ++ [.asked (.enqueue c) now q])
  spoils {q q' : Queue R} {m : Minutes R} {c : Cue R} (now : R) (hr : q.receive c = some q')
    (h : J q m) : K q' (m ++ [.asked (.enqueue c) now q])
  shows {q : Queue R} {m : Minutes R} {l : L} {c : Queued R} {pending : List (Queued R)}
    {now ends : R} {a : Active R} (hn : q.active = none)
    (hf : Queue.takeFirst (Listener.defers l) q.pending = some (c, pending))
    (ha : (q.popped pending).activate c now ends = .ok a) (h : J q m) :
    J ((q.popped pending).withActive a) (m ++ [.told (some a) ((q.popped pending).withActive a)])
  loses {q : Queue R} {m : Minutes R} {l : L} {c : Queued R} {pending : List (Queued R)}
    (hf : Queue.takeFirst (Listener.defers l) q.pending = some (c, pending))
    (h : J q m) : K (q.popped pending) m
  retires {q : Queue R} {m : Minutes R} (h : J q m) :
    J (q.withActive none) (m ++ [.told none (q.withActive none)])

/-- What lasts holds at any time, if being asked for something does not change it either. -/
theorem Ever.lasting [Listener R L] {J : Queue R → Minutes R → Prop} (hJ : Lasting L J J)
    (ha : ∀ q m r now, J q m → J q (m ++ [.asked r now q])) : Lasting L (Ever J) (Ever J) where
  weaken h := h
  aside timer starting h := h.become (hJ.aside timer starting h.now)
  broken starting h := h.become (hJ.broken starting h.now)
  asks now hr h := h.enter (hJ.asks now hr h.now) (ha _ _ _ _ h.now)
  clears now h := h.enter (hJ.clears now h.now) (ha _ _ _ _ h.now)
  joins hm h :=
    (h.enter (ha _ _ _ _ h.now) (ha _ _ _ _ h.now)).enter (hJ.joins hm h.now) (hJ.joins hm h.now)
  takes hq h := h.enter (hJ.takes hq h.now) (ha _ _ _ _ h.now)
  refuses c now h := h.enter (hJ.refuses c now h.now) (ha _ _ _ _ h.now)
  spoils now hr h := h.enter (hJ.spoils now hr h.now) (ha _ _ _ _ h.now)
  shows hn hf hs h := h.enter (hJ.shows hn hf hs h.now) (hJ.shows hn hf hs h.now)
  loses hf h := h.become (hJ.loses hf h.now)
  retires h := h.enter (hJ.retires h.now) (hJ.retires h.now)

namespace Desk

def Holds (J : Queue R → Minutes R → Prop) (d : Desk R (Scribe R L)) : Prop :=
  J d.queue d.minutes

abbrev Lasts (J K : Queue R → Minutes R → Prop) (x : Work R (Scribe R L) Unit)
    (d : Desk R (Scribe R L)) : Prop :=
  Comes x d (fun _ => Holds J) (Holds K)

def Hears (J K : Queue R → Minutes R → Prop) (T : Tell R (Scribe R L)) : Prop :=
  ∀ notice (d : Desk R (Scribe R L)), Holds J (d.told notice) → Lasts J K (T notice) d

variable {J K : Queue R → Minutes R → Prop} {d : Desk R (Scribe R L)} {T : Tell R (Scribe R L)}

omit [Scalar R] in
theorem valid_comes {α β : Type} {x : Except Field.Invalid α} {f : α → Work R L β}
    {d : Desk R L} {Q : β → Desk R L → Prop} {B : Desk R L → Prop}
    (hf : ∀ a, x = .ok a → Comes (f a) d Q B) (hb : B d) : Comes (valid x >>= f) d Q B := by
  cases x with
  | ok a => exact hf a rfl
  | error e => exact hb

omit [Scalar R] in
theorem lastly_comes {f : Queue R → Queue R} {x : Work R L Unit} {d : Desk R L}
    {Q : Unit → Desk R L → Prop} {B : Desk R L → Prop}
    (h : Comes x d (fun u (t : Desk R L) => Q u { t with state.queue := f t.state.queue })
      fun t => B { t with state.queue := f t.state.queue }) : Comes (lastly f x) d Q B := by
  unfold Comes at h ⊢
  rw [lastly]
  cases hx : x d with
  | ok u t =>
    rw [hx] at h
    exact h
  | error e t =>
    rw [hx] at h
    exact h

omit [Scalar R] in
theorem cancelTimer_comes {P B : Desk R L → Prop} {d : Desk R L}
    (h : ∀ clock timer, P ⟨clock, ⟨{ d.queue with timer }, d.listener⟩⟩) :
    Comes cancelTimer d (fun _ (t : Desk R L) => P t) B := by
  refine Comes.get ?_
  cases ht : d.queue.timer with
  | none =>
    refine Comes.pure ?_
    have hd := h d.clock none
    rwa [← ht] at hd
  | some n => exact Comes.modify (h _ none)

def withPending (d : Desk R L) (pending : List (Queued R)) : Desk R L :=
  { d with state.queue := { d.queue with pending } }

def withShown (d : Desk R L) (pending : List (Queued R)) (a : Active R) : Desk R L :=
  { d with state.queue := (d.queue.popped pending).withActive (some a) }

def withStarting (d : Desk R L) (starting : Bool) : Desk R L :=
  { d with state.queue := { d.queue with starting } }

variable [Listener R L]

theorem retire_comes (hJ : Lasting L J K) (hT : Hears J K T) (h : Holds J d) :
    Lasts J K (retire T) d :=
  Comes.modify (hT none _ (hJ.retires h))

theorem present_comes (hJ : Lasting L J K) (hT : Hears J K T) (hn : d.active = none)
    {l : L} {c : Queued R} {pending : List (Queued R)}
    (hf : Queue.takeFirst (Listener.defers l) d.queue.pending = some (c, pending))
    (h : Holds J d) :
    Lasts J K (present T c) (d.withPending pending) := by
  refine Comes.get (Comes.modify (Comes.get ?_))
  refine Timed.reckon_comes (fun ends _ => valid_comes (fun a ha => Comes.modify ?_) ?_) ?_
  · have hs : Holds J (told (some a) (d.withShown pending a)) := hJ.shows hn hf ha h
    -- Whatever the listener has done meanwhile, `J` holds again.
    refine (hT (some a) _ hs).bind fun _ t ht => Comes.get ?_
    split
    · exact Comes.pure ht
    · split
      · exact retire_comes hJ hT ht
      · refine (Timed.schedule_comes _ _ (Q := fun _ => Holds J) (fun _ _ => ht)
          (hJ.weaken ht)).bind fun n (u : Desk R (Scribe R L)) hu => ?_
        exact hJ.aside (some n) u.queue.starting hu
  · exact hJ.loses (q := d.queue) hf h
  · exact hJ.loses (q := d.queue) hf h

theorem startLoop_comes (hJ : Lasting L J K) (hT : Hears J K T) (fuel : Nat) (h : Holds J d) :
    Lasts J K (startLoop T fuel) d := by
  -- The fuel is what is left of the loop; each round of it is a cue that is shown.
  induction fuel generalizing d with
  | zero => exact Comes.pure h
  | succ fuel ih =>
    refine Comes.get ?_
    cases hn : d.active with
    | some a => exact Comes.pure h
    | none =>
      cases hf : Queue.takeFirst (Listener.defers d.listener) d.queue.pending with
      | none => exact Comes.pure h
      | some p => exact Comes.modify ((present_comes hJ hT hn hf h).bind fun _ t ht => ih ht)

theorem startNext_comes (hJ : Lasting L J K) (hT : Hears J K T) (h : Holds J d) :
    Lasts J K (startNext T) d := by
  refine Comes.get ?_
  split
  · exact Comes.pure h
  · refine Comes.modify (lastly_comes ?_)
    have hs : Holds J (d.withStarting true) := hJ.aside d.queue.timer true h
    exact (startLoop_comes hJ hT _ hs).mono
      (fun _ (t : Desk R (Scribe R L)) ht => hJ.aside t.queue.timer false ht)
      fun t ht => hJ.broken false ht

theorem finish_comes (hJ : Lasting L J K) (hT : Hears J K T) (id : Nat) (h : Holds J d) :
    Lasts J K (finish T id) d := by
  refine Comes.get ?_
  split
  · refine Comes.modify ((retire_comes hJ hT ?_).bind fun _ t ht => startNext_comes hJ hT ht)
    exact hJ.aside none d.queue.starting h
  · exact Comes.pure h

theorem interrupt_comes (hJ : Lasting L J K) (hT : Hears J K T) (h : Holds J d) :
    Lasts J K (interrupt T) d := by
  refine Comes.get ?_
  split
  · exact Comes.pure h
  · refine (cancelTimer_comes (P := Holds J) ?_).bind fun _ t ht => ?_
    · exact fun _ timer => hJ.aside timer d.queue.starting h
    · exact (retire_comes hJ hT ht).bind fun _ u hu => startNext_comes hJ hT hu

theorem clear_comes (hJ : Lasting L J K) (hT : Hears J K T) (h : Holds J d) :
    Lasts J K (clear T) (d.asked .clear) := by
  refine (cancelTimer_comes (P := Holds fun q m => J { q with pending := [] } m) ?_).bind
    fun _ t ht => Comes.modify (Comes.get ?_)
  · exact fun _ timer => hJ.aside timer d.queue.starting (hJ.clears d.clock.now h)
  · split
    · exact retire_comes hJ hT ht
    · exact Comes.pure ht

theorem enqueue_comes (hJ : Lasting L J K) (hT : Hears J K T) (c : Cue R) (h : Holds J d) :
    Lasts J K (enqueue T c) (d.asked (.enqueue c)) := by
  refine Comes.get (Timed.reckon_comes (fun merged hm => ?_) (hJ.refuses c _ h))
  cases merged with
  | some a => exact Comes.modify (hT (some a) _ (hJ.joins hm h))
  | none =>
    refine Timed.reckon_comes (fun merged hp => ?_) (hJ.refuses c _ h)
    cases merged with
    | some pending => exact hJ.takes (.merged hm hp) h
    | none =>
      dsimp only
      cases hr : d.queue.receive c with
      | none =>
        rw [show (d.asked (.enqueue c)).queue.receive c = none from hr]
        exact hJ.takes (.dropped hm hp hr) h
      | some q =>
        rw [show (d.asked (.enqueue c)).queue.receive c = some q from hr]
        refine Comes.modify (valid_comes (fun w hw => Comes.modify ?_) (hJ.spoils _ hr h))
        exact startNext_comes hJ hT (hJ.takes (.entered hm hp hr hw) h)

theorem fire_comes (hJ : Lasting L J K) (hT : Hears J K T) (job : Job) (h : Holds J d) :
    Lasts J K (fire T job) d := by
  cases job with
  | finish id => exact finish_comes hJ hT id h
  | resume => exact Comes.get (Comes.modify (startNext_comes hJ hT h))

end Desk

namespace Scribe

open Desk

variable [Listener R L] {J K : Queue R → Minutes R → Prop} {d : Desk R (Scribe R L)}
  {T : Tell R (Scribe R L)}

theorem perform_comes (hJ : Lasting L J K) (hT : Hears J K T) (r : Request R) (h : Holds J d) :
    Lasts J K (perform T r) d := by
  have hp (hr : r.isPlain = true) : Holds J (d.asked r) := hJ.asks d.clock.now hr h
  have hc (s : Desk R (Scribe R L)) (c : Clock R Job) (hs : Holds J s) :
      Holds J ⟨c, s.state⟩ := hs
  refine Comes.modify ?_
  cases r with
  | enqueue c => exact enqueue_comes hJ hT c h
  | interrupt => exact interrupt_comes hJ hT (hp rfl)
  | clear => exact clear_comes hJ hT h
  | poke => exact startNext_comes hJ hT (hp rfl)
  | advance ms =>
    exact Comes.get (Timed.advance_comes hc (fun _ => hJ.weaken)
      (fun job _ => fire_comes hJ hT job) _ ms (hp rfl))
  | runAll limit =>
    exact Comes.get (Timed.runAll_comes hc (fun _ => hJ.weaken)
      (fun job _ => fire_comes hJ hT job) _ limit (hp rfl))
  | nothing => exact Comes.pure (hp rfl)
  | refuse cause => exact hJ.weaken (hp rfl)

theorem hears_of_answer {notice : Option (Active R)} {credit : Nat}
    (h : ∀ d : Desk R (Scribe R L), Holds J d →
      Lasts J K (answer credit notice 0) d)
    (hd : Holds J (d.told notice)) :
    Lasts J K (tell credit notice) d :=
  Comes.modify (Comes.modify (h _ hd))

theorem answer_comes (hJ : Lasting L J K) (credit : Nat) (notice : Option (Active R))
    (place : Nat) (h : Holds J d) :
    Lasts J K (answer credit notice place) d := by
  -- The credit that is left bounds the depth of the calls from within.
  induction credit generalizing notice place d with
  | zero => exact Comes.pure h
  | succ credit ih =>
    have hT : Hears J K (tell credit : Tell R (Scribe R L)) :=
      fun notice d hd => hears_of_answer (fun d => ih notice 0) hd
    refine Comes.get ?_
    rw [next_eq]
    cases Listener.next d.listener.listener notice place with
    | none => exact Comes.pure h
    | some p =>
      refine Comes.modify ((perform_comes hJ hT p.1 ?_).bind fun _ t ht => ih notice _ ht)
      exact h

theorem visit_comes (hJ : Lasting L J K) (v : Visit R L) (h : Holds J d) :
    Lasts J K (visit v) d := by
  cases v with
  | ask r =>
    have hT : Hears J K (tell (Listener.credit d.listener) : Tell R (Scribe R L)) :=
      fun notice d hd => hears_of_answer (fun d => answer_comes hJ _ notice 0) hd
    exact Comes.get (perform_comes hJ hT r h)
  | change f => exact Comes.get h
  | pause delay hold =>
    refine Comes.get (Comes.modify (Comes.bind (Q := fun _ => Holds J) ?_ fun _ _ ht => ht))
    exact Timed.schedule_comes _ _ (fun _ _ => h) (hJ.weaken h)

theorem occur_comes (hJ : Lasting L J K) (o : Occasion R L) (h : Holds J d) :
    Lasts J K (occur o) d := by
  cases o with
  | visit v => exact visit_comes hJ v h
  | clock c => exact h
  | due job =>
    have hT : Hears J K (tell (Listener.credit d.listener) : Tell R (Scribe R L)) :=
      fun notice d hd => hears_of_answer (fun d => answer_comes hJ _ notice 0) hd
    exact Comes.get (fire_comes hJ hT job h)

theorem holds_afterOccasions (hJ : Lasting L J J) (os : List (Occasion R L)) (h : Holds J d) :
    Holds J (afterOccasions d os) :=
  Comes.foldl_left (fun o _ => occur_comes hJ o) os h

theorem holds_occasions (hJ : Lasting L J K) {os : List (Occasion R L)} {t : Desk R (Scribe R L)}
    {u : PUnit} (h : Holds J d) (ht : os.forM occur d = .ok u t) : Holds J t :=
  (Comes.forM (fun o _ => occur_comes hJ o) os h).of_ok ht

end Scribe

end Duel.Cue
