import Duel.Field
import Duel.Json.Reader
import Duel.Json.Writer

namespace Duel

open Duel.Field

inductive Settings.SeedMode
  | fixed
  | random
  deriving DecidableEq, Repr

namespace Settings.SeedMode

def name : SeedMode → String
  | fixed => "fixed"
  | random => "random"

def named : List (String × SeedMode) := [fixed, random].map fun m => (m.name, m)

end Settings.SeedMode

/-- Times are in milliseconds. -/
structure Settings (R : Type) where
  cueLength : Int := 1600
  cueWindow : Int := 1200
  cueRoom : Int := 8
  /-- How long cues are shown, by what they tell of. -/
  cueLengths : Ledger R
  turnEndDelay : Int := 700
  seedMode : Settings.SeedMode := .fixed
  seed : Int := 1337

namespace Settings

def title : String := "Settings"

def usualLengths : List (String × Int) :=
  [("turn", 1600), ("attackTelegraph", 2400), ("statusTick", 1800), ("statusDamage", 2800),
   ("defenseSummary", 4400), ("defenseSummaryLethal", 2600), ("statusPrompt", 2200)]

variable {R : Type} [Scalar R]

def usual : Settings R where
  cueLengths := .ofList (usualLengths.map fun (key, ms) => (key, Scalar.ofInt ms))

/-- The length of a cue: the one that is set, or a fallback, or the one for all cues. -/
def lengthOf (s : Settings R) (key : String) (fallback : Option R := none) : R :=
  match (s.cueLengths.get? key).filter Scalar.isLength with
  | some x => x
  | none => fallback.getD (Scalar.ofInt s.cueLength)

def ofLengths (length : Reader Number) : Reader (Settings Number) :=
  record (Settings.mk <$> optional "cue_default_duration_ms" 1600 whole <*>
    optional "cue_merge_window_ms" 1200 whole <*> optional "cue_max_pending" 8 whole <*>
    optional "cue_durations" usual.cueLengths (ledgerOf length) <*>
    optional "turn_end_delay_ms" 700 whole <*>
    optional "rng_seed_mode" .fixed (choice SeedMode.named) <*> optional "rng_seed" 1337 whole)

def ofDocument : Reader (Settings Number) := ofLengths real

def dialect : Json.Dialect := ⟨false, true, true, 200⟩

/-- In a file, whole numbers beyond the doubles are infinite. -/
def lengthInFile : Reader Number
  | .number n => .ok (.double n.toDouble)
  | d => real d

def lastFields : Document → Document
  | .table fields => .table (fields.foldl (fun seen (k, d) => Document.putField k d seen) [])
  | d => d

def read (text : String) : Except Invalid (Settings Number) :=
  match Json.readAs dialect text with
  | .ok d => readAs title (ofLengths lengthInFile) (lastFields d)
  | .error _ => .error ⟨title, [⟨[], .malformed⟩]⟩

instance viewed : Viewed (Settings Number) where
  view s := .record [
    ("cue_default_duration_ms", view s.cueLength),
    ("cue_merge_window_ms", view s.cueWindow),
    ("cue_max_pending", view s.cueRoom),
    ("cue_durations", view (s.cueLengths.map Scalar.measured)),
    ("turn_end_delay_ms", view s.turnEndDelay),
    ("rng_seed_mode", view s.seedMode.name),
    ("rng_seed", view s.seed)]

def write (s : Settings Number) : String := Json.write (view s)

/-- Reads the settings of a file. Where there is no file yet, one is written. -/
def load (file : Option String) : Except Invalid (Settings Number) × Option String :=
  match file with
  | some text => (read text, some text)
  | none => (.ok usual, some usual.write)

end Settings

end Duel
