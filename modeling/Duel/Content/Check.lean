import Duel.Content.Load
import Duel.Formula.Lint
import Duel.Status.Builtin

namespace Duel.Content

/-- Something wrong with a content folder. -/
inductive Complaint
  | invalid (file : String) (cause : Field.Invalid)
  /-- A status that another file has described already. -/
  | repeated (file id earlier : String)
  | formula (line : String)
  /-- A status that abilities grant but nobody describes. -/
  | missing (id : String) (files : List String)
  deriving Repr

namespace Complaint

def countText (n : Nat) : String :=
  toString n ++ (if n = 1 then " validation error" else " validation errors")

/-- A step of a path, in quotes if it could be read as several. -/
def placeText : Field.Place → String
  | .index n => toString n
  | .name s => if s.contains '.' then "`" ++ s ++ "`" else s

def issueLines (cause : Field.Invalid) : List String :=
  (cause.issues.filter fun i => !i.path.isEmpty).map fun i =>
    ".".intercalate (i.path.map placeText)

def text : Complaint → String
  | invalid file cause =>
    "\n".intercalate ((file ++ ": " ++ countText cause.issues.length ++ " for " ++ cause.title) ::
      issueLines cause)
  | repeated file id earlier =>
    file ++ ": duplicate status id '" ++ id ++ "' (first in " ++ earlier ++ ")"
  | formula line => line
  | missing id files =>
    "Missing status id '" ++ id ++ "' referenced from: " ++ ", ".intercalate files

end Complaint

/-- What a check has found so far. -/
structure Check where
  complaints : List Complaint := []
  /-- The statuses of the folder, each with the last file that describes it. -/
  files : Ledger String := .empty
  /-- The statuses that are granted, with the files that grant them. -/
  granted : Ledger (List String) := .empty

namespace Check

abbrev Step (α : Type) := EStateM Fault Check α

def ofExcept {α : Type} : Except Fault α → Step α
  | .ok a => return a
  | .error fault => throw fault

def complain (c : Complaint) : Step Unit :=
  modify fun s => { s with complaints := s.complaints ++ [c] }

def checkFormula (file id field : String) (source : Option Formula.Source) : Step Unit :=
  match source with
  | some (.text s) =>
    (Formula.Lint.report file (id ++ ".modify." ++ field) s
      ((Formula.Program.read s).map fun _ => ())).forM fun line => complain (.formula line)
  | _ => return

def checkStatus (file : String) (d : Document) : Step Unit := do
  match Status.Entry.read d with
  | .error cause => complain (.invalid file cause)
  | .ok e =>
    match (← get).files.get? e.id with
    | some earlier => complain (.repeated file e.id earlier)
    | none => pure ()
    modify fun s => { s with files := s.files.put e.id file }
    match e.modify with
    | some m =>
      checkFormula file e.id "baseDamage" m.damage
      checkFormula file e.id "baseBlock" m.block
    | none => pure ()

def addGrant (file : String) (granted : Ledger (List String)) (id : String) :
    Ledger (List String) :=
  let files := (granted.get? id).getD []
  granted.put id (if files.contains file then files else files ++ [file])

def checkHero (file : String) (d : Document) : Step Unit := do
  match Hero.read d with
  | .error cause => complain (.invalid file cause)
  | .ok h =>
    let ids := h.abilities.flatMap fun a => a.grants.names
    modify fun s => { s with granted := ids.foldl (addGrant file) s.granted }

def unknown (s : Check) : List (String × List String) :=
  let known := Status.Builtin.all.map (·.id) ++ s.files.names
  (s.granted.entries.filter fun e => !known.contains e.1).mergeSort fun a b =>
    Text.atMost a.1 b.1

def checkGrants : Step Unit := do
  for (id, files) in (← get).unknown do
    complain (.missing id (files.mergeSort Text.atMost))

/-- Checks the statuses first, then the heroes, and then what the heroes grant. -/
def checkFolder (f : Folder) : Step Unit := do
  let statuses := f.enter "statuses"
  for (path, text) in statuses.list Folder.contentSuffixes do
    for d in ← ofExcept (documents path text) do
      checkStatus (statuses.call path) d
  let heroes := f.enter "heroes"
  for (path, text) in heroes.list Folder.contentSuffixes do
    checkHero (heroes.call path) (← ofExcept (readFile path text))
  checkGrants

end Check

/-- All complaints about a folder, and the fault that has stopped the check, if any. -/
def check (f : Folder) : List Complaint × Option Fault :=
  match Check.checkFolder f {} with
  | .ok _ s => (s.complaints, none)
  | .error fault s => (s.complaints, some fault)

end Duel.Content
