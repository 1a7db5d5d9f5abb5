import Duel.Content.Fault
import Duel.Content.Path
import Duel.Text.Lines

namespace Duel.Content

/-- Text files below a folder, by their paths from there. -/
structure Folder where
  /-- How the folder is called in messages. -/
  label : String
  files : Ledger String := .empty
  /-- Folders that need not hold a file. -/
  made : List String := []

namespace Folder

def call (f : Folder) (path : String) : String :=
  if f.label == "." then path
  else if f.label.endsWith "/" then f.label ++ path
  else f.label ++ "/" ++ path

def inner? (name path : String) : Option String :=
  match Path.parts path with
  | top :: next :: rest => if top == name then some (Path.ofParts (next :: rest)) else none
  | _ => none

def enter (f : Folder) (name : String) : Folder where
  label := f.call name
  files := .ofList <| f.files.entries.filterMap fun (path, text) =>
    (inner? name path).map fun path => (path, text)
  made := f.made.filterMap (inner? name)

def holds (f : Folder) (parts : List String) : Bool :=
  f.made.any (fun path => parts.isPrefixOf (Path.parts path)) ||
    f.files.entries.any fun (path, _) => parts.isPrefixOf (Path.parts path).dropLast

/-- What a path can lead to. -/
inductive Place
  | file (text : String)
  | folder (f : Folder)

def wrong? (path : String) : Option Fault :=
  if !Path.hasBytes path then some (.half path)
  else if path.contains '\x00' then some (.endInName path)
  else if Path.pathLimit ≤ (Path.bytes path).length then some (.longName path)
  else none

/-- Follows the parts of `path`; `above` are the folders that have been left below. What is above
the topmost folder is empty. -/
def walk (path : String) : (above : List Folder) → Folder → List String → Except Fault Place
  | _, f, [] => .ok (.folder f)
  | above, f, part :: rest =>
    if part == ".." then
      match above with
      | up :: above => walk path above up rest
      | [] => walk path [] { label := path } rest
    else if Path.isLong part then .error (.longName path)
    else
      match f.files.get? part with
      | some text => if rest.isEmpty then .ok (.file text) else .error (.notFolder path)
      | none =>
        if f.holds [part] then walk path (f :: above) (f.enter part) rest
        else .error (.noFile path)

/-- What there is at a path from a folder on. Paths that start at the top lead elsewhere. -/
def find (f : Folder) (path : String) : Except Fault Place :=
  let parts := Path.parts (Path.found path)
  let start : Folder := if path.startsWith "/" then { label := "/" } else f
  match wrong? (Path.ofParts (f.label :: Path.parts path)) with
  | some fault => .error fault
  | none => walk path [] start parts

/-- The folder at a path. It is called by that path, and it is empty if there is none. -/
def reach (f : Folder) (path : String) : Except Fault Folder :=
  let label := if path.startsWith "/" then path else Path.ofParts (f.label :: Path.parts path)
  match f.find path with
  | .ok (.folder g) => .ok { g with label }
  | .error (.longName path) => .error (.longName path)
  | _ => .ok { label }

def textAt? (f : Folder) (path : String) : Except Fault (Option String) :=
  match f.find path with
  | .ok (.file text) => .ok (some text)
  | .ok (.folder _) => .error (.notFile path)
  | .error (.longName path) => .error (.longName path)
  | .error _ => .ok none

abbrev Step (α : Type) := EStateM Fault Folder α

def ofExcept {α : Type} : Except Fault α → Step α
  | .ok a => return a
  | .error fault => throw fault

/-- More folders than this are not made within each other at once. -/
def depthLimit : Nat := 985

/-- How far the making of folders has come. -/
structure Progress where
  /-- The parts of the folder that has been reached. -/
  here : List String := []
  /-- Whether a folder had to be made. -/
  hasMade : Bool := false
  /-- Whether the folder that has been reached is new, and so has nothing in it. -/
  isNew : Bool := false

/-- Makes a new folder. One that has an inner folder need not be known for itself. -/
def add (p : Progress) (name : String) : Step Progress := do
  let here := p.here ++ [name]
  modify fun f => { f with
    made := (if p.isNew then f.made.dropLast else f.made) ++ [Path.ofParts here] }
  return { here, hasMade := true, isNew := true }

/-- Makes the folders of `path` that are missing, from the top down. Returns the parts of the last
one. A file on the way is in the way of a folder that is to be made, or else no folder. -/
def makeFrom (path : String) (p : Progress) : List String → Step (List String)
  | [] => return p.here
  | part :: rest => do
    if part == ".." then makeFrom path { p with here := p.here.dropLast, isNew := false } rest
    else if Path.isLong part then throw (.longName path)
    else if p.isNew then makeFrom path (← add p part) rest
    else
      let f ← get
      let here := p.here ++ [part]
      if f.files.has (Path.ofParts here) then
        throw (if p.hasMade || rest.isEmpty then .taken path else .notFolder path)
      else if f.holds here then makeFrom path { p with here } rest
      else if depthLimit ≤ rest.length then throw (.tooDeep path)
      else makeFrom path (← add p part) rest

def check (path : String) : Step Unit := do
  match wrong? (Path.ofParts ((← get).label :: Path.parts path)) with
  | some fault => throw fault
  | none => return

def make (path : String) : Step (List String) := do
  check path
  makeFrom path {} (Path.parts (Path.found path))

/-- Writes a text file, and makes the folder for it. A path that starts at the top leads
elsewhere. -/
def write (path text : String) : Step Unit := do
  if path.startsWith "/" then return
  let here ← make (Path.ofParts (Path.parts path).dropLast)
  check path
  let name := (Path.parts (Path.found path)).getLastD ".."
  let target := here ++ [name]
  if name == ".." then throw (.notFile path)
  if Path.isLong name then throw (.longName path)
  if (← get).holds target then throw (.notFile path)
  if Text.hasHalf text then throw (.half text)
  modify fun f => { f with
    files := f.files.put (Path.ofParts target) (Text.unifyBreaks text) }

def ofFiles (label : String) (files : List (String × String)) : Except Fault Folder :=
  match (files.forM fun (path, text) => write path text : Step Unit) { label } with
  | .ok _ f => .ok f
  | .error fault _ => .error fault

def contentSuffixes : List String := [".json", ".yaml", ".yml"]

def list (f : Folder) (suffixes : List String) : List (String × String) :=
  (f.files.entries.filter fun (path, _) => suffixes.contains (Path.suffixOf path)).mergeSort
    fun a b =>
      compare ((Path.parts a.1).map Text.codes) ((Path.parts b.1).map Text.codes) != .gt

end Folder

/-- Reads a file as its suffix tells; a YAML file that holds nothing is an empty table. -/
def readFile (path text : String) : Except Fault Document :=
  if [".yaml", ".yml"].contains (Path.suffixOf path) then
    match Yaml.read text with
    | .ok d => .ok (if d.isEmpty then .table [] else d)
    | .error e => .error (.yaml e)
  else (Json.read text).mapError .json

def Folder.read (f : Folder) (path : String) : Except Fault Document := do
  match ← f.find path with
  | .file text => readFile path text
  | .folder _ => throw (.notFile path)

/-- The documents of a file, which can hold a list of them. -/
def documents (path text : String) : Except Fault (List Document) :=
  (readFile path text).map fun d =>
    match d with
    | .list ds => ds
    | d => [d]

end Duel.Content
