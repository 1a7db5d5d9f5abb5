import Duel.Cue.Basic

namespace Duel.Cue

open Duel.Field

structure Queue (R : Type) where
  /-- How many cues can wait. -/
  room : Nat
  defaultLength : R
  defaultWindow : R
  active : Option (Active R) := none
  pending : List (Queued R) := []
  /-- The timer that ends the active cue. -/
  timer : Option Nat := none
  lastId : Nat := 0
  lastNumber : Nat := 0
  /-- Whether cues are being started, so that a call from within does not start any. -/
  starting : Bool := false

namespace Queue

variable {R : Type}

/-- An empty queue; there is room for one cue at least. -/
def empty (room : Int) (defaultLength defaultWindow : R) : Queue R :=
  { room := (max 1 room).toNat, defaultLength, defaultWindow }

def insert (c : Queued R) : List (Queued R) → List (Queued R)
  | [] => [c]
  | d :: rest => if d.rank < c.rank then c :: d :: rest else d :: insert c rest

/-- Whether `c` goes before `d` when there is no room: the lower rank first, then the older. -/
def weaker (c d : Queued R) : Bool :=
  decide (c.rank < d.rank) || (c.rank == d.rank && decide (c.number < d.number))

def weakest? : List (Queued R) → Option (Queued R)
  | [] => none
  | c :: rest => some (rest.foldl (fun least d => if weaker d least then d else least) c)

/-- Makes room for a cue of some rank, if the weakest cue that waits is of no higher rank. -/
def makeRoom (rank : Nat) (pending : List (Queued R)) : Option (List (Queued R)) :=
  match weakest? pending with
  | none => some pending
  | some w => if rank < w.rank then none else some (pending.filter (·.number != w.number))

def takeFirst (defers : Cue R → Bool) : List (Queued R) → Option (Queued R × List (Queued R))
  | [] => none
  | c :: rest =>
    if !c.inTransition && defers c.toCue then
      (takeFirst defers rest).map fun (d, others) => (d, c :: others)
    else some (c, rest)

variable [Scalar R]

def length (q : Queue R) (given : Option R) : R :=
  match given with
  | some d => if Scalar.isLength d then d else q.defaultLength
  | none => q.defaultLength

def window (q : Queue R) (c : Cue R) : R :=
  match c.mergeWindow with
  | some w => if Scalar.isLength w then w else q.defaultWindow
  | none => q.defaultWindow

def merges (q : Queue R) (c : Cue R) (last : R) (key : String) (now : R) :
    Except Double.Fault Bool :=
  if c.key == key then do return Scalar.atMost (← Scalar.sub now last) (q.window c)
  else .ok false

def mergePending (q : Queue R) (key : String) (now : R) :
    List (Queued R) → Except Double.Fault (Option (List (Queued R)))
  | [] => .ok none
  | c :: rest => do
    if ← q.merges c.toCue c.mergedAt key now then
      return some ({ c with repeats := c.repeats + 1, mergedAt := now } :: rest)
    else return (← mergePending q key now rest).map (c :: ·)

def mergeActive (q : Queue R) (key : String) (now : R) : Except Double.Fault (Option (Active R)) :=
  match q.active with
  | none => .ok none
  | some a => do
    if ← q.merges a.toCue a.mergedAt key now then
      return some { a with repeats := a.repeats + 1, mergedAt := now }
    else return none

/-- Counts a cue in, where there is room or room can be made; otherwise it is dropped. -/
def receive (q : Queue R) (c : Cue R) : Option (Queue R) :=
  let room := if q.pending.length < q.room then some q.pending else makeRoom c.rank q.pending
  room.map fun pending => { q with lastNumber := q.lastNumber + 1, pending }

def queued (q : Queue R) (c : Cue R) (now : R) : Except Invalid (Queued R) :=
  (both (fun queuedAt mergedAt =>
      { c with
        priority := some (c.priority.getD .normal), number := q.lastNumber
        queuedAt, mergedAt })
    (measure "queued_at" now) (measure "last_merged_at" now)).mapError (Invalid.mk Queued.formTitle)

def insertPending (q : Queue R) (c : Queued R) : Queue R :=
  { q with pending := insert c q.pending }

def activate (q : Queue R) (c : Queued R) (now ends : R) : Except Invalid (Active R) :=
  (both (fun (length, startedAt) (endsAt, mergedAt) =>
      { c.toCue with id := q.lastId, repeats := c.repeats, length, startedAt, endsAt, mergedAt })
    (both Prod.mk (measure "duration_ms" (q.length c.duration)) (measure "started_at" now))
    (both Prod.mk (measure "ends_at" ends) (measure "last_merged_at" c.mergedAt))).mapError
      (Invalid.mk Active.formTitle)

/-- Whether the active cue is still the one that was told of: the same one, and not merged. -/
def shows (q : Queue R) (a : Active R) : Bool :=
  q.active.any fun b => b.id == a.id && b.repeats == a.repeats

end Queue

end Duel.Cue
