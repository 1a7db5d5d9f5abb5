import Duel.Event
import Duel.Field
import Duel.Side

namespace Duel

open Duel.Field

/-- What a notice is about. -/
inductive Cue.Kind
  | turn
  | status
  | attack
  | defense
  | prompt
  deriving DecidableEq, Repr

namespace Cue.Kind

def name : Kind → String
  | turn => "turn"
  | status => "status"
  | attack => "attack"
  | defense => "defense"
  | prompt => "prompt"

def named : List (String × Kind) := [turn, status, attack, defense, prompt].map fun k => (k.name, k)

end Cue.Kind

inductive Cue.Priority
  | low
  | normal
  | high
  | urgent
  deriving DecidableEq, Repr

namespace Cue.Priority

def name : Priority → String
  | low => "low"
  | normal => "normal"
  | high => "high"
  | urgent => "urgent"

def named : List (String × Priority) := [low, normal, high, urgent].map fun p => (p.name, p)

def rank : Priority → Nat
  | low => 0
  | normal => 1
  | high => 2
  | urgent => 3

end Cue.Priority

/-- A notice to show for a while. -/
structure Cue (R : Type) where
  kind : Cue.Kind
  title : String
  subtitle : Option String := none
  icon : Option String := none
  banner : Option String := none
  /-- In milliseconds. -/
  duration : Option R := none
  side : Option Side := none
  priority : Option Cue.Priority := none
  mergeKey : Option String := none
  mergeWindow : Option R := none
  /-- Whether it can start in a pause between turns. -/
  inTransition : Bool := false
  deriving Repr

namespace Cue

def formTitle : String := "Cue"

def form : Form (Cue Number) :=
  Cue.mk <$> required "kind" (choice Kind.named) <*> required "title" text <*>
    maybe "subtitle" text <*> maybe "icon" text <*> maybe "banner" text <*>
    maybe "duration_ms" real <*> maybe "side" (choice Side.named) <*>
    maybe "priority" (choice Priority.named) <*> maybe "merge_key" text <*>
    maybe "merge_window_ms" real <*> optional "allow_during_transition" false truth

def ofDocument : Reader (Cue Number) := record form

variable {R : Type}

def rank (c : Cue R) : Nat := (c.priority.getD .normal).rank

/-- Tells cues apart by kind, title, subtitle and side. -/
def defaultKey (c : Cue R) : String :=
  "|".intercalate [c.kind.name, c.title, c.subtitle.getD "", (c.side.map (·.name)).getD ""]

def key (c : Cue R) : String := (Event.spoken c.mergeKey).getD c.defaultKey

def measure [Scalar R] (name : String) (x : R) : Checked R :=
  match Scalar.measure? x with
  | some y => .ok y
  | none => .error [⟨[.name name], .notReal⟩]

/-- A cue that waits for its turn. -/
structure Queued (R : Type) extends Cue R where
  number : Nat
  repeats : Nat := 1
  queuedAt : R
  mergedAt : R
  deriving Repr

def Queued.formTitle : String := "QueuedCue"

/-- The cue that is shown. -/
structure Active (R : Type) extends Cue R where
  id : Nat
  repeats : Nat := 1
  length : R
  startedAt : R
  endsAt : R
  mergedAt : R
  deriving Repr

def Active.formTitle : String := "ActiveCue"

end Cue

end Duel
