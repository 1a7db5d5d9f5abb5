import Duel.Clock.Advance
import Duel.Cue.Queue

/-!
The desk at which cues come in and are shown, and whoever listens to it. A listener is told of
every cue that is shown, of its repeats and of its end, and may ask the desk for something each
time. It has a credit of such requests, which bounds how far they can go.
-/

namespace Duel.Cue

open Duel.Field

inductive Request (R : Type)
  | enqueue (cue : Cue R)
  | interrupt
  | clear
  | poke
  | advance (ms : R)
  | runAll (limit : Nat)
  /-- The listener has only changed itself. -/
  | nothing
  /-- What is asked for is no cue. -/
  | refuse (cause : Invalid)
  deriving Repr

inductive Job
  /-- The end of the cue of an id. -/
  | finish (id : Nat)
  /-- The end of a pause. -/
  | resume
  deriving DecidableEq, Repr

class Listener (R : outParam Type) (L : Type) where
  /-- Whether a cue is held back. -/
  defers : L → Cue R → Bool
  /-- Takes note of a cue, or of the end of the last one. -/
  note : L → Option (Active R) → L
  /-- The next request about a notice, looked for from a place on; also the place after it. -/
  next : L → Option (Active R) → Nat → Option (Request R × Nat × L)
  /-- How many requests there can be at most. -/
  credit : L → Nat
  /-- Lets a pause end. -/
  resume : L → L

structure Board (R L : Type) where
  queue : Queue R
  listener : L

abbrev Desk (R L : Type) := Timed R Job (Board R L)

namespace Desk

variable {R L : Type}

/-- Work at a desk. It breaks off where a time cannot be reckoned, or where there is no cue. -/
abbrev Work (R L : Type) := Timed.Work Invalid R Job (Board R L)

abbrev Tell (R L : Type) := Option (Active R) → Work R L Unit

def queue (d : Desk R L) : Queue R := d.state.queue

def listener (d : Desk R L) : L := d.state.listener

def active (d : Desk R L) : Option (Active R) := d.queue.active

def desk : Work R L (Desk R L) := get

def setQueue (q : Queue R) : Work R L Unit := modify fun d => { d with state.queue := q }

def changeQueue (f : Queue R → Queue R) : Work R L Unit :=
  modify fun d => { d with state.queue := f d.state.queue }

def setListener (l : L) : Work R L Unit := modify fun d => { d with state.listener := l }

def valid {α : Type} : Except Invalid α → Work R L α
  | .ok a => return a
  | .error cause => throw (.job cause)

/-- Changes the queue in the end, even if the work before it breaks off. -/
def lastly (f : Queue R → Queue R) (x : Work R L Unit) : Work R L Unit := fun d =>
  let settle (d : Desk R L) : Desk R L := { d with state.queue := f d.state.queue }
  match x d with
  | .ok a d => .ok a (settle d)
  | .error fault d => .error fault (settle d)

def cancelTimer : Work R L Unit := do
  let d ← desk
  match d.queue.timer with
  | none => return ()
  | some n =>
    Timed.setClock (d.clock.cancel n)
    setQueue { d.queue with timer := none }

def retire (tell : Tell R L) : Work R L Unit := do
  changeQueue ({ · with active := none })
  tell none

variable [Scalar R]

def await (length : R) (a : Active R) : Work R L Unit := do
  let n ← Timed.schedule length (.finish a.id)
  changeQueue ({ · with timer := some n })

/-- Shows a cue. Being told, the listener may have changed what is shown; only the very cue that
was told of is ended here or gets a timer. -/
def present (tell : Tell R L) (c : Queued R) : Work R L Unit := do
  let length := (← desk).queue.length c.duration
  changeQueue fun q => { q with lastId := q.lastId + 1 }
  let d ← desk
  let ends ← Timed.reckon (Scalar.add d.clock.now length)
  let a ← valid (d.queue.activate c d.clock.now ends)
  changeQueue ({ · with active := some a })
  tell (some a)
  if !(← desk).queue.shows a then return ()
  if Scalar.atMost length Scalar.zero && Scalar.atMost Scalar.zero length then retire tell
  else await length a

variable [Listener R L]

def startLoop (tell : Tell R L) : Nat → Work R L Unit
  | 0 => return ()
  | fuel + 1 => do
    let d ← desk
    if d.active.isSome then return ()
    match Queue.takeFirst (Listener.defers d.listener) d.queue.pending with
    | none => return ()
    | some (c, pending) =>
      setQueue { d.queue with pending }
      present tell c
      startLoop tell fuel

omit [Scalar R] in
/-- More cues than these cannot be shown before the next call from outside. -/
def supply (d : Desk R L) : Nat := d.queue.pending.length + Listener.credit d.listener

/-- Starts the next cue; a call from within one that starts cues leaves that to it. -/
def startNext (tell : Tell R L) : Work R L Unit := do
  let d ← desk
  if d.queue.starting then return ()
  setQueue { d.queue with starting := true }
  lastly ({ · with starting := false }) (startLoop tell (d.supply + 1))

def finish (tell : Tell R L) (id : Nat) : Work R L Unit := do
  if (← desk).active.any (·.id == id) then
    changeQueue ({ · with timer := none })
    retire tell
    startNext tell

def enqueue (tell : Tell R L) (c : Cue R) : Work R L Unit := do
  let d ← desk
  let now := d.clock.now
  match ← Timed.reckon (d.queue.mergeActive c.key now) with
  | some a =>
    setQueue { d.queue with active := some a }
    tell (some a)
  | none =>
    match ← Timed.reckon (d.queue.mergePending c.key now d.queue.pending) with
    | some pending => setQueue { d.queue with pending }
    | none =>
      match d.queue.receive c with
      | none => return ()
      | some q =>
        setQueue q
        setQueue (q.insertPending (← valid (q.queued c now)))
        startNext tell

def interrupt (tell : Tell R L) : Work R L Unit := do
  if (← desk).active.isNone then return ()
  cancelTimer
  retire tell
  startNext tell

omit [Scalar R] [Listener R L] in
def clear (tell : Tell R L) : Work R L Unit := do
  cancelTimer
  changeQueue ({ · with pending := [] })
  if (← desk).active.isSome then retire tell

def fire (tell : Tell R L) : Job → Work R L Unit
  | .finish id => finish tell id
  | .resume => do
    setListener (Listener.resume (← desk).listener)
    startNext tell

omit [Scalar R] in
/-- How many batches of timers can go off at most. -/
def fuel (d : Desk R L) : Nat := d.clock.timers.length + d.supply + 1

def perform (tell : Tell R L) (r : Request R) : Work R L Unit := do
  match r with
  | .enqueue c => enqueue tell c
  | .interrupt => interrupt tell
  | .clear => clear tell
  | .poke => startNext tell
  | .advance ms => Timed.advance (fire tell) (← desk).fuel ms
  | .runAll limit => Timed.runAll (fire tell) (← desk).fuel limit
  | .nothing => return ()
  | .refuse cause => throw (.job cause)

omit [Scalar R] in
def note (notice : Option (Active R)) : Work R L Unit := do
  setListener (Listener.note (← desk).listener notice)

/-- Does what the listener asks for about a notice, from a place on. What it asks for meanwhile
is answered with one credit less. -/
def answer : Nat → Option (Active R) → Nat → Work R L Unit
  | 0, _, _ => return ()
  | credit + 1, notice, place => do
    match Listener.next (← desk).listener notice place with
    | none => return ()
    | some (r, after, l) =>
      setListener l
      perform (fun notice => do note notice; answer credit notice 0) r
      answer credit notice after

def tell (credit : Nat) : Tell R L := fun notice => do
  note notice
  answer credit notice 0

def run (r : Request R) : Work R L Unit := do
  perform (tell (Listener.credit (← desk).listener)) r

omit [Listener R L] in
/-- Pauses until a time from now; the listener holds cues back meanwhile. -/
def pause (delay : R) (hold : L → L) : Work R L Unit := do
  setListener (hold (← desk).listener)
  let _ ← Timed.schedule delay .resume

end Desk

end Duel.Cue
