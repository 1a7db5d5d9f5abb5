import Duel.Yaml.Tag

namespace Duel.Yaml

inductive Token
  | directive (said : Directive)
  | documentStart
  | documentEnd
  | streamEnd
  | sequenceStart
  | mappingStart
  | blockEnd
  | flowSequenceStart
  | flowSequenceEnd
  | flowMappingStart
  | flowMappingEnd
  | blockEntry
  | flowEntry
  | key
  | value
  | reference (name : String)
  | anchor (name : String)
  | tag (spelling : Tag.Spelling)
  | scalar (text : String) (plain : Bool)
  /-- What the characters are from here on makes no token. -/
  | fault (cause : Fault)
  deriving DecidableEq, Repr

/-- A token that is a key if a colon comes next. -/
structure Candidate where
  /-- How many tokens came before it. -/
  place : Nat
  required : Bool
  index : Nat
  line : Nat
  column : Nat

structure Scanner where
  cursor : Cursor
  /-- How many brackets are open. -/
  depth : Int := 0
  indent : Int := -1
  indents : List Int := []
  keyAllowed : Bool := true
  candidates : List (Int × Candidate) := []
  held : List Token := []
  /-- How many tokens were handed out. -/
  taken : Nat := 0
  finished : Bool := false

namespace Scanner

def inFlow (s : Scanner) : Bool := s.depth != 0

def push (s : Scanner) (t : Token) : Scanner := { s with held := s.held ++ [t] }

def toNextToken : Nat → Scanner → Scanner
  | 0, s => s
  | fuel + 1, s =>
    let c := s.cursor.skipWhile (· == ' ')
    let c := if c.sees '#' then c.toLineEnd else c
    if c.atBreak then
      toNextToken fuel
        { s with cursor := c.lineBreak.2, keyAllowed := s.keyAllowed || !s.inFlow }
    else { s with cursor := c }

def isStale (s : Scanner) (k : Candidate) : Bool :=
  k.line != s.cursor.line || decide (k.index + 1024 < s.cursor.index)

/-- A key and its colon stand on one line. -/
def dropStale (s : Scanner) : Except Fault Scanner :=
  if s.candidates.any fun (_, k) => s.isStale k && k.required then .error .tokens
  else .ok { s with candidates := s.candidates.filter fun (_, k) => !s.isStale k }

def candidate? (s : Scanner) : Option Candidate := s.candidates.lookup s.depth

def forget (s : Scanner) : Scanner :=
  { s with candidates := s.candidates.filter (·.1 != s.depth) }

def dropCandidate (s : Scanner) : Except Fault Scanner :=
  if s.candidate?.any (·.required) then .error .tokens else .ok s.forget

def saveCandidate (s : Scanner) : Except Fault Scanner := do
  if !s.keyAllowed then return s
  let t ← s.dropCandidate
  let k : Candidate := {
    place := s.taken + s.held.length
    required := !s.inFlow && s.indent == s.cursor.column
    index := s.cursor.index, line := s.cursor.line, column := s.cursor.column }
  return { t with candidates := (s.depth, k) :: t.candidates }

def closeBlocks (column : Int) : List Int → Scanner → Scanner
  | [], s => s
  | outer :: rest, s =>
    if s.indent ≤ column then s
    else closeBlocks column rest ({ s with indent := outer, indents := rest }.push .blockEnd)

def unwind (s : Scanner) (column : Int) : Scanner :=
  if s.inFlow then s else closeBlocks column s.indents s

def openBlock (s : Scanner) (column : Int) : Bool × Scanner :=
  if s.indent < column then (true, { s with indent := column, indents := s.indent :: s.indents })
  else (false, s)

def step (s : Scanner) (n : Nat) : Scanner := { s with cursor := s.cursor.forwardBy n }

def streamEnd (s : Scanner) : Except Fault Scanner := do
  let s ← (s.unwind (-1)).dropCandidate
  return { s.push .streamEnd with keyAllowed := false, candidates := [], finished := true }

def closeAll (s : Scanner) : Except Fault Scanner := do
  let s ← (s.unwind (-1)).dropCandidate
  return { s with keyAllowed := false }

def directive (s : Scanner) : Except Fault Scanner := do
  let s ← s.closeAll
  let (said, c) ← Directive.read s.cursor
  return { s with cursor := c }.push (.directive said)

def mark (s : Scanner) (t : Token) : Except Fault Scanner := do
  return ((← s.closeAll).step 3).push t

def flowStart (s : Scanner) (t : Token) : Except Fault Scanner := do
  let s ← s.saveCandidate
  return ({ s with depth := s.depth + 1, keyAllowed := true }.step 1).push t

def flowEnd (s : Scanner) (t : Token) : Except Fault Scanner := do
  let s ← s.dropCandidate
  return ({ s with depth := s.depth - 1, keyAllowed := false }.step 1).push t

def flowEntry (s : Scanner) : Except Fault Scanner := do
  let s ← s.dropCandidate
  return ({ s with keyAllowed := true }.step 1).push .flowEntry

def openAt (s : Scanner) (opening : Token) : Except Fault Scanner :=
  if s.inFlow then .ok s
  else if !s.keyAllowed then .error .tokens
  else
    let (opened, s) := s.openBlock s.cursor.column
    .ok (if opened then s.push opening else s)

def blockEntry (s : Scanner) : Except Fault Scanner := do
  let s ← s.openAt .sequenceStart
  let s ← { s with keyAllowed := true }.dropCandidate
  return (s.step 1).push .blockEntry

def explicitKey (s : Scanner) : Except Fault Scanner := do
  let s ← s.openAt .mappingStart
  let s ← { s with keyAllowed := !s.inFlow }.dropCandidate
  return (s.step 1).push .key

/-- A colon makes the candidate before it a key, in front of which a table may begin. -/
def value (s : Scanner) : Except Fault Scanner :=
  match s.candidate? with
  | some k =>
    let s := s.forget
    let (opened, s) := if s.inFlow then (false, s) else s.openBlock k.column
    let front := k.place - s.taken
    let keys := if opened then [.mappingStart, .key] else [.key]
    let s := { s with keyAllowed := false, held := s.held.take front ++ keys ++ s.held.drop front }
    .ok ((s.step 1).push .value)
  | none => do
    let s ← s.openAt .mappingStart
    let s ← { s with keyAllowed := !s.inFlow }.dropCandidate
    return (s.step 1).push .value

def named (s : Scanner) (make : String → Token) : Except Fault Scanner := do
  let s ← s.saveCandidate
  let (name, c) := s.cursor.forward.takeWhile Tag.isNameChar
  if name.isEmpty || !(c.gapAt 0 || c.seesAny "?:,]\x7d%@\x60") then throw .tokens
  return { s with keyAllowed := false, cursor := c }.push (make (String.ofList name))

def tag (s : Scanner) : Except Fault Scanner := do
  let s ← s.saveCandidate
  let (spelling, c) ← Tag.read s.cursor
  return { s with keyAllowed := false, cursor := c }.push (.tag spelling)

def blockText (s : Scanner) (fold : Bool) : Except Fault Scanner := do
  let s ← { s with keyAllowed := true }.dropCandidate
  let (text, c) ← Block.read fold s.indent s.cursor
  return { s with cursor := c }.push (.scalar text false)

def quotedText (s : Scanner) (double : Bool) : Except Fault Scanner := do
  let s ← s.saveCandidate
  let (text, c) ← Quoted.read double s.cursor
  return { s with keyAllowed := false, cursor := c }.push (.scalar text false)

def plainText (s : Scanner) : Except Fault Scanner := do
  let s ← s.saveCandidate
  let (text, broken, c) :=
    Plain.body s.inFlow (s.indent + 1) (s.cursor.rest.length + 1) [] false s.cursor
  return { s with keyAllowed := broken, cursor := c }.push (.scalar (String.ofList text) true)

/-- The characters that begin something else than a plain text. -/
def signs : List Char :=
  ['-', '?', ':', ',', '[', ']', '\x7b', '\x7d', '#', '&', '*', '!', '|', '>', '\'', '"', '%', '@',
   '\x60']

def startsPlain (s : Scanner) (ch : Char) : Bool :=
  !(isGap ch || signs.contains ch) ||
    (!s.cursor.gapAt 1 && (ch == '-' || (!s.inFlow && (ch == '?' || ch == ':'))))

def token (s : Scanner) (ch : Char) : Except Fault Scanner :=
  let c := s.cursor
  if ch == '%' && c.column == 0 then s.directive
  else if c.column == 0 && ch == '-' && c.atSeparator then s.mark .documentStart
  else if c.column == 0 && ch == '.' && c.atSeparator then s.mark .documentEnd
  else if ch == '[' then s.flowStart .flowSequenceStart
  else if ch == '\x7b' then s.flowStart .flowMappingStart
  else if ch == ']' then s.flowEnd .flowSequenceEnd
  else if ch == '\x7d' then s.flowEnd .flowMappingEnd
  else if ch == ',' then s.flowEntry
  else if ch == '-' && c.gapAt 1 then s.blockEntry
  else if ch == '?' && (s.inFlow || c.gapAt 1) then s.explicitKey
  else if ch == ':' && (s.inFlow || c.gapAt 1) then s.value
  else if ch == '*' then s.named .reference
  else if ch == '&' then s.named .anchor
  else if ch == '!' then s.tag
  else if (ch == '|' || ch == '>') && !s.inFlow then s.blockText (ch == '>')
  else if ch == '\'' || ch == '"' then s.quotedText (ch == '"')
  else if s.startsPlain ch then s.plainText
  else .error .tokens

def advance (s : Scanner) : Except Fault Scanner := do
  let s ← (toNextToken (s.cursor.rest.length + 1) s).dropStale
  let s := s.unwind s.cursor.column
  match s.cursor.peek 0 with
  | none => s.streamEnd
  | some ch => s.token ch

/-- Whether the first token that is held may still turn out to be a key. -/
def isUnsettled (s : Scanner) : Bool :=
  s.held.isEmpty || s.candidates.any fun (_, k) => k.place == s.taken

def settle : Nat → Scanner → Except Fault Scanner
  | 0, s => .ok s
  | fuel + 1, s =>
    if s.finished then .ok s
    else do
      let s ← if s.held.isEmpty then pure s else s.dropStale
      if s.isUnsettled then settle fuel (← s.advance) else return s

def handOut : Nat → Scanner → List Token
  | 0, _ => []
  | fuel + 1, s =>
    match settle (s.cursor.rest.length + 2) s with
    | .error cause => [.fault cause]
    | .ok s =>
      match s.held with
      | [] => []
      | t :: held => t :: handOut fuel { s with held, taken := s.taken + 1 }

end Scanner

def Token.ofText (text : String) : List Token :=
  let cs := text.toList
  let cs := if cs.head? == some '\uFEFF' then cs.drop 1 else cs
  Scanner.handOut (6 * cs.length + 8) { cursor := { rest := cs } }

end Duel.Yaml
