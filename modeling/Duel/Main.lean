import Duel.Command.Run

namespace Duel.Main

open Command

/-- The text files below a directory. -/
partial def textsBelow (path name : String) : IO (List (String × String)) := do
  let mut found := []
  for entry in ← (← IO.FS.realPath path).readDir do
    let inner := path ++ "/" ++ entry.fileName
    let innerName := if name.isEmpty then entry.fileName else name ++ "/" ++ entry.fileName
    if ← entry.path.isDir then found := found ++ (← textsBelow inner innerName)
    else
      if Content.Folder.contentSuffixes.contains (Content.Path.suffixOf innerName) then
        found := found ++ [(innerName, ← IO.FS.readFile inner)]
  return found

def readText? (path : String) : IO (List (String × String)) := do
  try return [(path, ← IO.FS.readFile path)] catch _ => return []

/-- The files that a command can read; paths that start at the top are like others. -/
def readFiles (home : String) (command : Command) : IO Content.Folder := do
  let content ← match command with
    | .validate (some root) => try textsBelow root root catch _ => pure []
    | _ => pure []
  let files := (← readText? home) ++ content
  let plain := files.map fun (path, text) => (Content.Path.relative path, text)
  return (Content.Folder.ofFiles "" plain).toOption.getD { label := "" }

def writeText (path text : String) : IO Unit := do
  let parts := path.splitOn "/"
  IO.FS.createDirAll ("/".intercalate parts.dropLast)
  IO.FS.writeFile path text

/-- Says what a report says, and writes its files. -/
def carryOut (r : Report) : IO Unit := do
  r.output.forM IO.println
  r.errors.forM fun line => do IO.eprintln line
  r.crash.forM fun crash => do IO.eprintln ("error: " ++ crash.text)
  for (path, text) in r.files do writeText path text

end Duel.Main

open Duel

def main (words : List String) : IO UInt32 := do
  let home := ((← IO.getEnv "HOME").getD ".") ++ "/.duel/settings.json"
  match Command.read words with
  | none =>
    IO.eprintln "usage: duel statuses | simulate | validate | export-schemas | settings"
    return UInt32.ofNat Command.refused.code
  | some command =>
    let folder ← Main.readFiles home command
    let report := command.run { home, folder, chance := ← IO.rand 0 0xffffffff }
    Main.carryOut report
    return UInt32.ofNat report.code
