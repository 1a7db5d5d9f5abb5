import Duel.Number
import Duel.Text.Half
import Duel.Yaml.Cursor

namespace Duel.Yaml

inductive Fault
  /-- A character cannot stand in a text at all. -/
  | unprintable
  /-- The characters make no tokens. -/
  | tokens
  /-- The tokens make no document. -/
  | grammar
  /-- A name stands for nothing, or for two things, or there are several documents. -/
  | composition
  /-- A key has no plain value, or a tag has no meaning. -/
  | construction
  /-- A number, date or character that does not exist. -/
  | value
  /-- A number that is too large for its place. -/
  | overflow
  /-- A number without any character. -/
  | noNumber
  /-- A word that is no truth value. -/
  | noTruth
  /-- A text without the form of a date. -/
  | noDate
  /-- A table in the place of a text. -/
  | noText
  /-- Nodes too deep within each other. -/
  | tooDeep
  deriving DecidableEq, Repr

/-- What line ends and the blank lines after them come to when lines are folded. -/
def folded (lineBreak : List Char) (more : List Char) : List Char :=
  (if lineBreak != ['\n'] then lineBreak else if more.isEmpty then [' '] else []) ++ more

namespace Quoted

def blankLines : Nat → Cursor → Except Fault (List Char × Cursor)
  | 0, c => .ok ([], c)
  | fuel + 1, c =>
    if c.atSeparator then .error .tokens
    else
      let c := c.skipWhile fun ch => ch == ' ' || ch == '\t'
      if c.atBreak then do
        let (br, c) := c.lineBreak
        let (more, c) ← blankLines fuel c
        return (br ++ more, c)
      else .ok ([], c)

def escapes : List (Char × Char) :=
  [('0', '\x00'), ('a', '\x07'), ('b', '\x08'), ('t', '\t'), ('\t', '\t'), ('n', '\n'),
   ('v', '\x0b'), ('f', '\x0c'), ('r', '\r'), ('e', '\x1b'), (' ', ' '), ('"', '"'),
   ('\\', '\\'), ('/', '/'), ('N', '\x85'), ('_', '\xa0'), ('L', '\u2028'), ('P', '\u2029')]

def codeLengths : List (Char × Nat) := [('x', 2), ('u', 4), ('U', 8)]

def hexDigit? (c : Char) : Option Nat :=
  if '0' ≤ c ∧ c ≤ '9' then some (c.toNat - 48)
  else if 'a' ≤ c ∧ c ≤ 'f' then some (c.toNat - 87)
  else if 'A' ≤ c ∧ c ≤ 'F' then some (c.toNat - 55)
  else none

def code? (n : Nat) (s : List Char) : Option Nat := do
  let ds ← (s.take n).mapM hexDigit?
  if ds.length = n then some (ds.foldl (fun v d => v * 16 + d) 0) else none

/-- The character of a number, which may be half of one. -/
def character (code : Nat) : Except Fault (List Char) :=
  if 0x80000000 ≤ code then .error .overflow
  else if 0x10FFFF < code then .error .value
  else .ok (Text.ofCode code)

def escape (c : Cursor) : Except Fault (List Char × Cursor) :=
  match c.rest with
  | [] => .error .tokens
  | ch :: rest =>
    match escapes.lookup ch, codeLengths.lookup ch with
    | some e, _ => .ok ([e], c.forward)
    | none, some n =>
      match code? n rest with
      | some code => (character code).map fun cs => (cs, c.forwardBy (n + 1))
      | none => .error .tokens
    | none, none =>
      if isBreak ch then blankLines (rest.length + 2) c.lineBreak.2 else .error .tokens

def solid (double : Bool) : Nat → Cursor → Except Fault (List Char × Cursor)
  | 0, c => .ok ([], c)
  | fuel + 1, c =>
    match c.rest with
    | [] => .ok ([], c)
    | ch :: rest =>
      if ch == ' ' || ch == '\t' || isBreak ch then .ok ([], c)
      else if !double && ch == '\'' && rest.head? == some '\'' then
        (solid double fuel (c.forwardBy 2)).map fun (more, c) => ('\'' :: more, c)
      else if ch == (if double then '"' else '\'') then .ok ([], c)
      else if double && ch == '\\' then do
        let (e, c) ← escape c.forward
        let (more, c) ← solid double fuel c
        return (e ++ more, c)
      else (solid double fuel c.forward).map fun (more, c) => (ch :: more, c)

def blanks (c : Cursor) : Except Fault (List Char × Cursor) :=
  let (spaces, c) := c.takeWhile fun ch => ch == ' ' || ch == '\t'
  if c.rest.isEmpty then .error .tokens
  else if c.atBreak then do
    let (br, c) := c.lineBreak
    let (more, c) ← blankLines (c.rest.length + 1) c
    return (folded br more, c)
  else .ok (spaces, c)

def body (double : Bool) : Nat → Cursor → Except Fault (List Char × Cursor)
  | 0, _ => .error .tokens
  | fuel + 1, c => do
    let (text, c) ← solid double (c.rest.length + 1) c
    if c.sees (if double then '"' else '\'') then return (text, c.forward)
    else
      let (gap, c) ← blanks c
      let (more, c) ← body double fuel c
      return (text ++ gap ++ more, c)

def read (double : Bool) (c : Cursor) : Except Fault (String × Cursor) :=
  (body double (c.rest.length + 1) c.forward).map fun (cs, c) => (String.ofList cs, c)

end Quoted

namespace Plain

def stops (flow : Bool) (ch : Char) (next : Option Char) : Bool :=
  isGap ch ||
    (ch == ':' && next.all fun n => isGap n || (flow && flowSigns.contains n)) ||
    (flow && (ch == '?' || flowSigns.contains ch))

def word (flow : Bool) : List Char → List Char
  | [] => []
  | ch :: rest => if stops flow ch rest.head? then [] else ch :: word flow rest

/-- Blank lines inside a plain text, or nothing where a document ends. -/
def blankLines : Nat → Cursor → Option (List Char) × Cursor
  | 0, c => (some [], c)
  | fuel + 1, c =>
    let c := c.skipWhile (· == ' ')
    if c.atBreak then
      let (br, c) := c.lineBreak
      if c.atSeparator then (none, c)
      else
        let (more, c) := blankLines fuel c
        (more.map (br ++ ·), c)
    else (some [], c)

def blanks (c : Cursor) : List Char × Bool × Cursor :=
  let (spaces, c) := c.takeWhile (· == ' ')
  if c.atBreak then
    let (br, c) := c.lineBreak
    if c.atSeparator then ([], true, c)
    else
      match blankLines (c.rest.length + 1) c with
      | (some more, c) => (folded br more, true, c)
      | (none, c) => ([], true, c)
  else (spaces, false, c)

/-- The words of a plain text, with the gap before each; also whether a line ended after the last
one. -/
def body (flow : Bool) (indent : Int) : Nat → List Char → Bool → Cursor → List Char × Bool × Cursor
  | 0, _, broken, c => ([], broken, c)
  | fuel + 1, gap, broken, c =>
    let w := word flow c.rest
    if c.sees '#' || w.isEmpty then ([], broken, c)
    else
      let (next, broken, c) := blanks (c.forwardBy w.length)
      if next.isEmpty || c.sees '#' || (!flow && decide ((c.column : Int) < indent)) then
        (gap ++ w, broken, c)
      else
        let (more, broken, c) := body flow indent fuel next broken c
        (gap ++ w ++ more, broken, c)

end Plain

namespace Block

/-- How the line ends after a block text are kept. -/
inductive Chomp
  | strip
  | clip
  | keep
  deriving DecidableEq

def chomp? (c : Cursor) : Option (Chomp × Cursor) :=
  match c.rest with
  | '+' :: _ => some (.keep, c.forward)
  | '-' :: _ => some (.strip, c.forward)
  | _ => none

def step? (c : Cursor) : Except Fault (Option Nat × Cursor) :=
  match c.rest with
  | d :: _ =>
    if d == '0' then .error .tokens
    else if '1' ≤ d ∧ d ≤ '9' then .ok (some (d.toNat - 48), c.forward)
    else .ok (none, c)
  | [] => .ok (none, c)

def header (c : Cursor) : Except Fault (Chomp × Option Nat × Cursor) := do
  let (chomp, step, c) ←
    match chomp? c with
    | some (chomp, c) => do
      let (step, c) ← step? c
      pure (chomp, step, c)
    | none => do
      let (step, c) ← step? c
      match step, chomp? c with
      | some _, some (chomp, c) => pure (chomp, step, c)
      | _, _ => pure (.clip, step, c)
  if !(c.endsAt 0 || c.sees ' ') then throw .tokens
  let c := c.skipWhile (· == ' ')
  let c := if c.sees '#' then c.toLineEnd else c
  if !c.endsAt 0 then throw .tokens
  return (chomp, step, c.lineBreak.2)

/-- Blank lines before a block text, and the deepest column of their blanks. -/
def leading : Nat → Nat → Cursor → List Char × Nat × Cursor
  | 0, deepest, c => ([], deepest, c)
  | fuel + 1, deepest, c =>
    if c.atBreak then
      let (br, c) := c.lineBreak
      let (more, deepest, c) := leading fuel deepest c
      (br ++ more, deepest, c)
    else if c.sees ' ' then
      let c := c.forward
      leading fuel (max deepest c.column) c
    else ([], deepest, c)

def indentTo (indent : Nat) (c : Cursor) : Cursor :=
  c.forwardBy (min (c.rest.takeWhile (· == ' ')).length (indent - c.column))

def blankLines (indent : Nat) : Nat → Cursor → List Char × Cursor
  | 0, c => ([], c)
  | fuel + 1, c =>
    let c := indentTo indent c
    if c.atBreak then
      let (br, c) := c.lineBreak
      let (more, c) := blankLines indent fuel c
      (br ++ more, c)
    else ([], c)

/-- The lines of a block text with the blank lines before them; also the last line end and the
blank lines after it. -/
def lines (fold : Bool) (indent : Nat) :
    Nat → List Char → Cursor → List Char × List Char × List Char × Cursor
  | 0, breaks, c => ([], [], breaks, c)
  | fuel + 1, breaks, c =>
    if c.column ≠ indent || c.rest.isEmpty then ([], [], breaks, c)
    else
      let solid := !c.seesAny " \t"
      let (text, c) := c.takeWhile (!isBreak ·)
      let (br, c) := c.lineBreak
      let (more, c) := blankLines indent (c.rest.length + 1) c
      if c.column = indent && !c.rest.isEmpty then
        let joint :=
          if fold && br == ['\n'] && solid && !c.seesAny " \t" then
            if more.isEmpty then [' '] else []
          else br
        let (after, last, trailing, c) := lines fold indent fuel more c
        (breaks ++ text ++ joint ++ after, last, trailing, c)
      else (breaks ++ text, br, more, c)

def read (fold : Bool) (parent : Int) (c : Cursor) : Except Fault (String × Cursor) := do
  let (chomp, step, c) ← header c.forward
  let least := (max 1 (parent + 1)).toNat
  let (breaks, indent, c) :=
    match step with
    | none =>
      let (breaks, deepest, c) := leading (c.rest.length + 1) 0 c
      (breaks, max least deepest, c)
    | some n =>
      let indent := least + n - 1
      let (breaks, c) := blankLines indent (c.rest.length + 1) c
      (breaks, indent, c)
  let (text, last, trailing, c) := lines fold indent (c.rest.length + 1) breaks c
  let tail :=
    match chomp with
    | .strip => []
    | .clip => last
    | .keep => last ++ trailing
  return (String.ofList (text ++ tail), c)

end Block

end Duel.Yaml
