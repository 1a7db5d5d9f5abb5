import Duel.Event

namespace Duel

/-- Someone who is told of events: the log that is there from the start, or a sink; `S` names
the sinks. -/
inductive Listener (S : Type)
  | log
  | sink (name : S)
  deriving DecidableEq, Repr

/-- Those who are told of events, in the order in which they came. -/
structure Audience (S : Type) where
  listeners : List (Listener S) := [.log]
  deriving Repr

namespace Audience

variable {S W : Type} [DecidableEq S]

/-- Someone who is there already keeps the old place. -/
def register (a : Audience S) (listener : Option (Listener S)) : Audience S :=
  match listener with
  | none => a
  | some l => if l ∈ a.listeners then a else ⟨a.listeners ++ [l]⟩

def dispose (a : Audience S) (listener : Option (Listener S)) : Audience S :=
  match listener with
  | none => a
  | some l => ⟨a.listeners.filter (· ≠ l)⟩

def replaceBy (listener : Option (Listener S)) : Audience S := register {} listener

def outcome : Except W W → W
  | .ok w => w
  | .error w => w

omit [DecidableEq S] in
/-- Tells everyone once. One who fails on hearing an event does not keep it from the others. -/
def publish (a : Audience S) (hear : Listener S → Event → W → Except W W) (e : Event) (w : W) :
    W :=
  a.listeners.foldl (fun w l => outcome (hear l e w)) w

end Audience

/-- An audience, with what hearing events has come to. -/
structure Hall (S W : Type) where
  audience : Audience S := {}
  /-- For whom each registration was. Its number disposes of it. -/
  registered : List (Option (Listener S)) := []
  world : W

namespace Hall

inductive Call (S : Type)
  | register (listener : Option (Listener S))
  /-- Disposes of the registration of a number. -/
  | dispose (number : Nat)
  | replaceBy (listener : Option (Listener S))
  | publish (e : Event)

variable {S W : Type} [DecidableEq S]

def perform (hear : Listener S → Event → W → Except W W) (h : Hall S W) : Call S → Hall S W
  | .register l =>
    { h with audience := h.audience.register l, registered := h.registered ++ [l] }
  | .dispose number =>
    match h.registered[number]? with
    | some l => { h with audience := h.audience.dispose l }
    | none => h
  | .replaceBy l => { h with audience := .replaceBy l }
  | .publish e => { h with world := h.audience.publish hear e h.world }

def run (hear : Listener S → Event → W → Except W W) (h : Hall S W) (calls : List (Call S)) :
    Hall S W :=
  calls.foldl (perform hear) h

end Hall

end Duel
