import Duel.Content.Folder
import Duel.Hero

namespace Duel

structure Content where
  statuses : Ledger Status.Entry := .empty
  heroes : Ledger Hero := .empty

namespace Content

def addStatus (file : String) (known : Ledger Status.Entry) (d : Document) :
    Except Fault (Ledger Status.Entry) := do
  let e ← (Status.Entry.read d).mapError .invalid
  if known.has e.id then throw (.repeatedStatus e.id file)
  return known.put e.id e

def loadStatuses (f : Folder) : Except Fault (Ledger Status.Entry) :=
  (f.list Folder.contentSuffixes).foldlM (fun known (path, text) => do
    (← documents path text).foldlM (addStatus (f.call path)) known) .empty

def addHero (file : String) (known : Ledger Hero) (d : Document) : Except Fault (Ledger Hero) := do
  let h ← (Hero.read d).mapError .invalid
  if known.has h.id then throw (.repeatedHero h.id file)
  return known.put h.id h

/-- The heroes of a folder, one in each file; no id may come twice. -/
def loadHeroes (f : Folder) : Except Fault (Ledger Hero) :=
  (f.list Folder.contentSuffixes).foldlM (fun known (path, text) => do
    addHero (f.call path) known (← readFile path text)) .empty

def load (f : Folder) : Except Fault Content := do
  let statuses ← loadStatuses (f.enter "statuses")
  let heroes ← loadHeroes (f.enter "heroes")
  return { statuses, heroes }

def hero (c : Content) (id : String) : Except Fault Hero :=
  match c.heroes.get? id with
  | some h => .ok h
  | none => .error (.unknownHero id)

def status (c : Content) (id : String) : Except Fault Status.Entry :=
  match c.statuses.get? id with
  | some e => .ok e
  | none => .error (.unknownStatus id)

end Content

namespace Registry

def enterEntry (reg : Registry Number) (e : Status.Entry) :
    Except Content.Fault (Status Number) × Registry Number :=
  match e.draft with
  | .error cause => (.error (.formula cause), reg)
  | .ok draft =>
    let (s, reg) := reg.enter draft
    (s.mapError .behavior, reg)

def enterAll (reg : Registry Number) :
    List Status.Entry → Except Content.Fault (List (Status Number)) × Registry Number
  | [] => (.ok [], reg)
  | e :: rest =>
    match reg.enterEntry e with
    | (.error fault, reg) => (.error fault, reg)
    | (.ok s, reg) =>
      let (more, reg) := enterAll reg rest
      (more.map (s :: ·), reg)

/-- Defines the statuses of a folder. All of them are read before the first one is defined. -/
def loadPack (reg : Registry Number) (f : Content.Folder) :
    Except Content.Fault (List (Status Number)) × Registry Number :=
  match Content.loadStatuses f with
  | .error fault => (.error fault, reg)
  | .ok entries => reg.enterAll entries.values

end Registry

end Duel
