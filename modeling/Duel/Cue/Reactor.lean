import Duel.Cue.Desk

namespace Duel.Cue

inductive Act (R : Type)
  | request (r : Request R)
  /-- From now on cues of these kinds are held back. -/
  | deferKinds (kinds : List Kind)
  deriving Repr

structure Reaction (R : Type) where
  /-- The title of a cue, or nothing for the end of one. -/
  title : Option String
  act : Act R
  times : Nat := 1
  deriving Repr

structure Reactor (R : Type) where
  deferred : List Kind := []
  reactions : List (Reaction R) := []
  /-- All notices so far. -/
  heard : List (Option (Active R)) := []

namespace Reactor

variable {R : Type}

/-- The first reaction to a title from a place on, with the reactions after it has been used. -/
def use (title : Option String) (place : Nat) :
    List (Reaction R) → Option (Act R × Nat × List (Reaction R))
  | [] => none
  | r :: rest =>
    if place = 0 && r.title == title && 0 < r.times then
      some (r.act, 1, { r with times := r.times - 1 } :: rest)
    else
      (use title (place - 1) rest).map fun (act, after, rest) => (act, after + 1, r :: rest)

def next (l : Reactor R) (notice : Option (Active R)) (place : Nat) :
    Option (Request R × Nat × Reactor R) :=
  (use (notice.map (·.title)) place l.reactions).map fun (act, after, reactions) =>
    match act with
    | .request r => (r, after, { l with reactions })
    | .deferKinds kinds => (.nothing, after, { l with reactions, deferred := kinds })

instance : Listener R (Reactor R) where
  defers l c := l.deferred.contains c.kind
  note l notice := { l with heard := l.heard ++ [notice] }
  next := next
  credit l := l.reactions.foldr (·.times + ·) 0
  resume l := l

end Reactor

def Act.perform {R : Type} [Scalar R] : Act R → Desk.Work R (Reactor R) Unit
  | .request r => Desk.run r
  | .deferKinds kinds => do
    Desk.setListener { (← Desk.desk).listener with deferred := kinds }

end Duel.Cue
