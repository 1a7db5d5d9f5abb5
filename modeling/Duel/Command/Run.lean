import Duel.Command.Basic
import Duel.Content.Bundled
import Duel.Content.Check
import Duel.Content.Schema
import Duel.Dice.Twister
import Duel.Match.Simulation
import Duel.Settings.File
import Duel.Status.Table

namespace Duel.Command

structure World where
  /-- The path of the settings file. -/
  home : String
  /-- The files that there are. Paths that start with what it is called lead into it. -/
  folder : Content.Folder
  /-- A number drawn at random. -/
  chance : Int

namespace World

def start (w : World) (path : String) : Content.Folder × String :=
  let parts := Content.Path.parts path
  match (Content.Path.parts w.folder.label).isPrefixOf? parts with
  | some inner => (w.folder, Content.Path.ofParts inner)
  | none => ({ label := "" }, Content.Path.ofParts parts)

def visit {α : Type} (w : World) (path : String) (step : String → Content.Folder.Step α) :
    Except Content.Fault α :=
  let (f, inner) := w.start path
  match step inner f with
  | .ok a _ => .ok a
  | .error fault _ => .error fault

def content (w : World) (path : String) : Except Content.Fault Content.Folder := do
  let (f, inner) := w.start path
  return { (← f.reach inner) with label := path }

def settings (w : World) : Except Content.Fault (Settings Number × List (String × String)) := do
  let (f, inner) := w.start w.home
  let isNew := (← f.textAt? inner).isNone
  let s ← w.visit w.home Settings.loadAt
  return (s, if isNew then [(w.home, s.write)] else [])

end World

/-- Why a command stops. -/
inductive Crash
  | content (cause : Content.Fault)
  | rules (cause : Fault)

def Crash.text : Crash → String
  | content cause => cause.text
  | rules cause => cause.text

structure Report where
  code : Nat := 0
  output : List String := []
  errors : List String := []
  crash : Option Crash := none
  /-- Files to write, by their paths. -/
  files : List (String × String) := []

def Report.ofCrash (crash : Crash) (files : List (String × String) := []) : Report :=
  { code := 1, crash := some crash, files }

def setUp (s : Simulation) (settings : Settings Number) (chance : Int) :
    Except Content.Fault (Match Number Dice.Twister) := do
  let content ← Content.bundled
  let you ← content.hero s.you
  let ai ← content.hero s.ai
  let seed := match s.seed, settings.seedMode with
    | some seed, _ => seed
    | none, .fixed => settings.seed
    | none, .random => chance
  return .start settings .standard (.ofSeed seed) ⟨you, ai⟩ true

def playOut (turns : Nat) : Match.Step Number Dice.Twister (List String) := do
  let logs ← Match.simulate turns
  let records := (← get).records.getD []
  return logs ++ (← Match.ofExcept ((Record.summary records).mapError .number))

def runSimulation (s : Simulation) (w : World) : Report :=
  match w.settings with
  | .error cause => .ofCrash (.content cause)
  | .ok (chosen, files) =>
    match setUp s chosen w.chance with
    | .error cause => .ofCrash (.content cause) files
    | .ok m =>
      match playOut s.turns.toNat m with
      | .error cause _ => .ofCrash (.rules cause) files
      | .ok logs m => { output := logs ++ (if s.trace then m.trace else []), files }

def runValidation (f : Content.Folder) : Report :=
  let (complaints, fault) := Content.check f
  let errors := complaints.map fun c => "[ERROR] " ++ Text.spelled c.text
  match fault with
  | some cause => { Report.ofCrash (.content cause) with errors }
  | none =>
    if errors.isEmpty then { output := ["Content validated successfully."] }
    else { code := 1, errors }

def runSettings (reset : Bool) (w : World) : Report :=
  let usual : Settings Number := .usual
  let found := if reset then
      (w.visit w.home usual.saveAt).map fun _ => (usual, [(w.home, usual.write)])
    else w.settings
  match found with
  | .error cause => .ofCrash (.content cause)
  | .ok (s, files) => { output := s.write.splitOn "\n", files }

def runExport (out : String) (w : World) : Report :=
  let texts := Content.Schema.all.map fun s => (s.file, Json.write (view s))
  let place (path name : String) : String :=
    Content.Path.ofParts (Content.Path.parts path ++ [name])
  let written := w.visit out fun inner => do
    let _ ← Content.Folder.make inner
    texts.forM fun (name, text) => Content.Folder.write (place inner name) text
  let files := texts.map fun (name, text) => (out ++ "/" ++ name, text)
  match written with
  | .error cause => .ofCrash (.content cause)
  | .ok () =>
    if Text.hasHalf out then .ofCrash (.content (.half out)) files
    else { output := ["Exported schemas to " ++ out], files }

def run (c : Command) (w : World) : Report :=
  match c with
  | .statuses => {
      output := (Status.Table.header :: Status.Table.rows Registry.standard).map "  ".intercalate }
  | .simulate s => runSimulation s w
  | .validate none => runValidation Content.Bundled.folder
  | .validate (some path) =>
    match w.content path with
    | .ok f => runValidation f
    | .error cause => .ofCrash (.content cause)
  | .exportSchemas out => runExport out w
  | .settings reset => runSettings reset w

def refused : Report := { code := 2 }

end Duel.Command
