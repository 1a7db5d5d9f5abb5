import Duel.Proofs.Cue.Alike

namespace Duel.Cue

/-- What can come to a desk from outside. -/
inductive Visit (R L : Type)
  | ask (r : Request R)
  /-- The listener becomes another one. -/
  | change (f : L → L)
  | pause (delay : R) (hold : L → L)

/-- What can happen at a desk. -/
inductive Occasion (R L : Type)
  | visit (v : Visit R L)
  /-- The clock is moved, or its timers are. -/
  | clock (c : Clock R Job)
  /-- A timer goes off. -/
  | due (job : Job)

/-- What a desk is asked for or tells, with the queue as it is then. -/
inductive Entry (R : Type)
  | asked (r : Request R) (now : R) (queue : Queue R)
  | told (notice : Option (Active R)) (queue : Queue R)

def Entry.queue {R : Type} : Entry R → Queue R
  | asked _ _ q => q
  | told _ q => q

abbrev Minutes (R : Type) := List (Entry R)

structure Scribe (R L : Type) where
  listener : L
  minutes : Minutes R := []

def Scribe.change {R L : Type} (f : L → L) (k : Scribe R L) : Scribe R L :=
  { k with listener := f k.listener }

instance {R L : Type} [Listener R L] : Listener R (Scribe R L) where
  defers k := Listener.defers k.listener
  note k notice := k.change (Listener.note · notice)
  next k notice place := (Listener.next k.listener notice place).map fun (r, after, l) =>
    (r, after, { k with listener := l })
  credit k := Listener.credit k.listener
  resume := .change Listener.resume

namespace Scribe

variable {R L : Type} [Listener R L]

@[simp] theorem defers_eq (k : Scribe R L) : Listener.defers k = Listener.defers k.listener := rfl

theorem next_eq (k : Scribe R L) (notice : Option (Active R)) (place : Nat) :
    Listener.next k notice place = (Listener.next k.listener notice place).map
      fun (r, after, l) => (r, after, { k with listener := l }) :=
  rfl

@[simp] theorem credit_eq (k : Scribe R L) : Listener.credit k = Listener.credit k.listener := rfl

end Scribe

open Desk

variable {R L α β : Type}

namespace Desk

def minutes (d : Desk R (Scribe R L)) : Minutes R := d.listener.minutes

def entered (e : Entry R) (d : Desk R (Scribe R L)) : Desk R (Scribe R L) :=
  { d with state.listener.minutes := d.minutes ++ [e] }

def asked (r : Request R) (d : Desk R (Scribe R L)) : Desk R (Scribe R L) :=
  d.entered (.asked r d.clock.now d.queue)

def told (notice : Option (Active R)) (d : Desk R (Scribe R L)) : Desk R (Scribe R L) :=
  d.entered (.told notice d.queue)

def forget (d : Desk R (Scribe R L)) : Desk R L :=
  ⟨d.clock, ⟨d.queue, d.listener.listener⟩⟩

def noting (d : Desk R L) : Desk R (Scribe R L) :=
  ⟨d.clock, ⟨d.queue, { listener := d.listener }⟩⟩

@[simp] theorem forget_noting (d : Desk R L) : forget (noting d) = d := rfl

def empty (now : R) (room : Int) (length window : R) (l : L) : Desk R L :=
  ⟨{ now }, ⟨.empty room length window, l⟩⟩

variable [Scalar R] [Listener R L]

def visit : Visit R L → Work R L Unit
  | .ask r => run r
  | .change f => do setListener (f (← desk).listener)
  | .pause delay hold => pause delay hold

def occur : Occasion R L → Work R L Unit
  | .visit v => visit v
  | .clock c => Timed.setClock c
  | .due job => do fire (tell (Listener.credit (← desk).listener)) job

/-- The desk after occasions, one of which may also break off. -/
def afterOccasions (d : Desk R L) (os : List (Occasion R L)) : Desk R L :=
  os.foldl (fun d o => left (occur o d)) d

end Desk

namespace Scribe

variable [Scalar R] [Listener R L]

omit [Scalar R] [Listener R L] in
def hear (notice : Option (Active R)) : Work R (Scribe R L) Unit :=
  modify (Desk.told notice)

def perform (tell : Tell R (Scribe R L)) (r : Request R) : Work R (Scribe R L) Unit := do
  modify (Desk.asked r)
  Desk.perform tell r

def answer : Nat → Option (Active R) → Nat → Work R (Scribe R L) Unit
  | 0, _, _ => return ()
  | credit + 1, notice, place => do
    match Listener.next (← desk).listener notice place with
    | none => return ()
    | some (r, after, k) =>
      setListener k
      perform (fun notice => do hear notice; note notice; answer credit notice 0) r
      answer credit notice after

def tell (credit : Nat) : Tell R (Scribe R L) := fun notice => do
  hear notice
  note notice
  answer credit notice 0

def visit : Visit R L → Work R (Scribe R L) Unit
  | .ask r => do perform (tell (Listener.credit (← desk).listener)) r
  | .change f => do setListener ((← desk).listener.change f)
  | .pause delay hold => pause delay (Scribe.change hold)

def occur : Occasion R L → Work R (Scribe R L) Unit
  | .visit v => visit v
  | .clock c => Timed.setClock c
  | .due job => do fire (tell (Listener.credit (← desk).listener)) job

def afterOccasions (d : Desk R (Scribe R L)) (os : List (Occasion R L)) : Desk R (Scribe R L) :=
  os.foldl (fun d o => left (occur o d)) d

end Scribe

def Mirrors (x : Work R (Scribe R L) α) (y : Work R L α) : Prop :=
  ∀ d, y (forget d) = seen forget (x d)

namespace Scribe

def Of (k : Scribe R L) (l : L) : Prop := k.listener = l

theorem of_twins [Listener R L] : Twins (Of : Scribe R L → L → Prop) where
  defers h := by rw [defers_eq, h]
  credit h := by rw [credit_eq, h]

theorem alike_iff {d : Desk R (Scribe R L)} {e : Desk R L} : d.Alike Of e ↔ forget d = e :=
  alike_via_iff

end Scribe

theorem Mirrors.of_matches {x : Work R (Scribe R L) α} {y : Work R L α}
    (h : Matches Scribe.Of x y) : Mirrors x y :=
  Matches.via (f := Scribe.listener) h

theorem Matches.aside {g : Desk R (Scribe R L) → Desk R (Scribe R L)}
    (hg : ∀ d, forget (g d) = forget d) {f : PUnit → Work R (Scribe R L) β} {y : Work R L β}
    (h : Matches Scribe.Of (f ⟨⟩) y) : Matches Scribe.Of (modify g >>= f) y :=
  fun d e hd => h (g d) e (Scribe.alike_iff.mpr ((hg d).trans (Scribe.alike_iff.mp hd)))

namespace Scribe

variable [Scalar R] [Listener R L] {T : Tell R (Scribe R L)} {T' : Tell R L}

theorem perform_matches (h : ∀ notice, Matches Of (T notice) (T' notice)) (r : Request R) :
    Matches Of (perform T r) (Desk.perform T' r) :=
  Matches.aside (g := Desk.asked r) (fun _ => rfl)
    (Matches.perform of_twins (fun _ _ hl => congrArg Listener.resume hl) h r)

theorem tell_matches {credit : Nat} (notice : Option (Active R))
    (h : Matches Of (answer credit notice 0 : Work R (Scribe R L) Unit)
      (Desk.answer credit notice 0)) :
    Matches Of (tell credit notice : Work R (Scribe R L) Unit) (Desk.tell credit notice) :=
  Matches.aside (g := Desk.told notice) (fun _ => rfl)
    ((Matches.note fun _ _ hl => congrArg (Listener.note · notice) hl).bind fun _ => h)

theorem answer_matches (credit : Nat) (notice : Option (Active R)) (place : Nat) :
    Matches Of (answer credit notice place : Work R (Scribe R L) Unit)
      (Desk.answer credit notice place) := by
  induction credit generalizing notice place with
  | zero => exact Matches.pure _
  | succ credit ih =>
    refine Matches.read fun d e hd => ?_
    rw [next_eq, hd.listener]
    cases Listener.next e.listener notice place with
    | none => exact Matches.pure _
    | some p =>
      refine Matches.bind (Matches.setListener rfl) fun _ => ?_
      exact (perform_matches (fun notice => tell_matches notice (ih notice 0)) _).bind
        fun _ => ih notice _

theorem visit_matches (v : Visit R L) : Matches Of (visit v) (Desk.visit v) := by
  cases v with
  | ask r =>
    refine Matches.read fun d e hd => ?_
    rw [of_twins.credit hd.listener]
    exact perform_matches (fun notice => tell_matches notice (answer_matches _ notice 0)) r
  | change f => exact Matches.read fun d e hd => Matches.setListener (congrArg f hd.listener)
  | pause delay hold =>
    refine Matches.read fun d e hd => ?_
    refine Matches.bind (Matches.setListener (congrArg hold hd.listener)) fun _ => ?_
    exact (Matches.schedule _ _).bind fun _ => Matches.pure _

theorem occur_matches (o : Occasion R L) : Matches Of (occur o) (Desk.occur o) := by
  cases o with
  | visit v => exact visit_matches v
  | clock c => exact Matches.setClock c
  | due job =>
    refine Matches.read fun d e hd => ?_
    rw [of_twins.credit hd.listener]
    exact Matches.fire of_twins (fun _ _ hl => congrArg Listener.resume hl)
      (fun notice => tell_matches notice (answer_matches _ notice 0)) job

end Scribe

variable [Scalar R] [Listener R L]

theorem forget_afterOccasions (d : Desk R (Scribe R L)) (os : List (Occasion R L)) :
    forget (Scribe.afterOccasions d os) = (forget d).afterOccasions os :=
  (seen_foldl (fun o => Mirrors.of_matches (Scribe.occur_matches o)) os d).symm

theorem occasions_mirror (os : List (Occasion R L)) :
    Mirrors (os.forM Scribe.occur) (os.forM Desk.occur) :=
  .of_matches (Matches.forM fun o _ => Scribe.occur_matches o)

end Duel.Cue
