import Duel.Yaml.Text

namespace Duel.Yaml

/-- The kinds of values that tags can name. -/
inductive Tag
  | nothing
  | truth
  | whole
  | double
  | bytes
  | moment
  /-- A list of pairs, each written as a table of one field. -/
  | pairs
  | set
  | text
  | list
  | table
  /-- The key under which a table takes over the fields of others. -/
  | merge
  /-- The key under which a table has the value that it can stand for itself. -/
  | sign
  | unknown
  deriving DecidableEq, Repr

namespace Tag

def common : String := "tag:yaml.org,2002:"

def named : List (String × Tag) :=
  [("null", .nothing), ("bool", .truth), ("int", .whole), ("float", .double), ("binary", .bytes),
   ("timestamp", .moment), ("omap", .pairs), ("pairs", .pairs), ("set", .set), ("str", .text),
   ("seq", .list), ("map", .table), ("merge", .merge), ("value", .sign)].map
    fun (name, tag) => (common ++ name, tag)

def ofName (name : String) : Tag := (named.lookup name).getD .unknown

/-- A tag as it is written: a name, or the rest of one behind a handle. -/
structure Spelling where
  handle : Option String
  rest : String
  deriving DecidableEq, Repr

def handles : List (String × String) := [("!", "!"), ("!!", common)]

def Spelling.name? (s : Spelling) (handles : List (String × String)) : Option String :=
  match s.handle with
  | none => some s.rest
  | some h => (handles.lookup h).map (· ++ s.rest)

def isNameChar (c : Char) : Bool := c.isAlphanum || c == '-' || c == '_'

def isUriChar (c : Char) : Bool := c.isAlphanum || "-;/?:@&=+$,_.!~*'()[]".toList.contains c

def numberedBytes : Nat → Cursor → Except Fault (List UInt8 × Cursor)
  | 0, c => .ok ([], c)
  | fuel + 1, c =>
    match c.rest with
    | '%' :: rest =>
      match Quoted.code? 2 rest with
      | none => .error .tokens
      | some n =>
        (numberedBytes fuel (c.forwardBy 3)).map fun (more, c) => (n.toUInt8 :: more, c)
    | _ => .ok ([], c)

def uriFrom : Nat → Cursor → Except Fault (List Char × Cursor)
  | 0, c => .ok ([], c)
  | fuel + 1, c => do
    let (run, c) := c.takeWhile isUriChar
    if !c.sees '%' then return (run, c)
    let (numbers, c) ← numberedBytes (c.rest.length + 1) c
    match String.fromUTF8? (ByteArray.mk numbers.toArray) with
    | none => throw .tokens
    | some decoded =>
      let (more, c) ← uriFrom fuel c
      return (run ++ decoded.toList ++ more, c)

def uri (c : Cursor) : Except Fault (String × Cursor) := do
  let (cs, c) ← uriFrom (c.rest.length + 1) c
  if cs.isEmpty then throw .tokens
  return (String.ofList cs, c)

def handle (c : Cursor) : Except Fault (String × Cursor) :=
  if !c.sees '!' then .error .tokens
  else if c.peek 1 == some ' ' then .ok ("!", c.forward)
  else
    let (name, after) := c.forward.takeWhile isNameChar
    if after.sees '!' then .ok ("!" ++ String.ofList name ++ "!", after.forward)
    else .error .tokens

def endsHere (c : Cursor) : Bool := c.sees ' ' || c.endsAt 0

def read (c : Cursor) : Except Fault (Spelling × Cursor) := do
  let (handle, rest, c) ←
    if c.peek 1 == some '<' then do
      let (name, c) ← uri (c.forwardBy 2)
      if !c.sees '>' then throw .tokens
      pure (none, name, c.forward)
    else if c.gapAt 1 then pure (none, "!", c.forward)
    else do
      let word := c.forward.rest.takeWhile fun ch => !(ch == ' ' || isBreak ch)
      let (handle, c) ← if word.contains '!' then handle c else pure ("!", c.forward)
      let (rest, c) ← uri c
      pure (some handle, rest, c)
  if !endsHere c then throw .tokens
  return (⟨handle, rest⟩, c)

end Tag

inductive Directive
  | version (major : Nat)
  | handle (name start : String)
  | other
  deriving DecidableEq, Repr

namespace Directive

def skipBlanks (c : Cursor) : Cursor := c.skipWhile (· == ' ')

def number (c : Cursor) : Except Fault (Nat × Cursor) :=
  let (digits, c) := c.takeWhile fun ch => '0' ≤ ch && ch ≤ '9'
  if digits.isEmpty then .error .tokens
  else if Number.digitLimit < digits.length then .error .value
  else .ok (digits.foldl (fun n d => n * 10 + (d.toNat - 48)) 0, c)

def readVersion (c : Cursor) : Except Fault (Directive × Cursor) := do
  let (major, c) ← number (skipBlanks c)
  if !c.sees '.' then throw .tokens
  let (_, c) ← number c.forward
  if !Tag.endsHere c then throw .tokens
  return (.version major, c)

def readHandle (c : Cursor) : Except Fault (Directive × Cursor) := do
  let (name, c) ← Tag.handle (skipBlanks c)
  if !c.sees ' ' then throw .tokens
  let (start, c) ← Tag.uri (skipBlanks c)
  if !Tag.endsHere c then throw .tokens
  return (.handle name start, c)

def read (c : Cursor) : Except Fault (Directive × Cursor) := do
  let (name, c) := c.forward.takeWhile Tag.isNameChar
  if name.isEmpty || !Tag.endsHere c then throw .tokens
  let (d, c) ←
    match String.ofList name with
    | "YAML" => readVersion c
    | "TAG" => readHandle c
    | _ => pure (.other, c.toLineEnd)
  let c := skipBlanks c
  let c := if c.sees '#' then c.toLineEnd else c
  if !c.endsAt 0 then throw .tokens
  return (d, c.lineBreak.2)

end Directive

end Duel.Yaml
