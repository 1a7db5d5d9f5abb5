import Duel.Formula.Token
import Duel.Text.Word

namespace Duel.Formula

/-- A formula ready for evaluation, with as many cells as it has empty lists. -/
structure Program where
  tokens : List Token
  cells : Nat
  deriving Repr

namespace Program

inductive Stage
  /-- An operand, a sign or an opening parenthesis. -/
  | operand
  /-- As before, or the closing parenthesis of an empty list. -/
  | opened
  /-- An operator, a comma or a closing parenthesis. -/
  | value
  /-- As before, or the opening parenthesis of a call. -/
  | callable
  /-- The opening parenthesis after the name of a function. -/
  | argument
  deriving DecidableEq, Repr

namespace Stage

def takesOperand : Stage → Bool
  | operand | opened => true
  | _ => false

def takesOpening : Stage → Bool
  | value => false
  | _ => true

def takesClosing : Stage → Bool
  | value | callable => true
  | _ => false

end Stage

structure Draft where
  position : Nat
  rest : List Char
  /-- The tokens so far, the last one first. -/
  output : List Token
  /-- The operators that wait for their operands, each with its priority. -/
  waiting : List (Token × Int)
  /-- Ten for every parenthesis that is open. -/
  depth : Int
  stage : Stage
  /-- How many operands the operators ask for. -/
  wanted : Int
  cells : Nat

namespace Draft

def start (source : String) : Draft :=
  ⟨0, source.toList, [], [], 0, .operand, 0, 0⟩

def skip (d : Draft) (n : Nat) : Draft :=
  { d with
    position := d.position + (Text.codesOf (d.rest.take n)).length
    rest := d.rest.drop n }

/-- Moves operators out that bind at least as tightly as `priority`. -/
def release (priority : Int) : List (Token × Int) → List Token → List (Token × Int) × List Token
  | (t, p) :: waiting, output =>
    if priority ≤ p then release priority waiting (t :: output) else ((t, p) :: waiting, output)
  | [], output => ([], output)

def operator (d : Draft) (t : Token) (priority operands : Int) (stage : Stage) : Draft :=
  let own := priority + d.depth
  let (waiting, output) := release own d.waiting d.output
  { d with waiting := (t, own) :: waiting, output, wanted := d.wanted + operands, stage }

def constant (d : Draft) (v : Value) : Draft :=
  { d with output := .constant v :: d.output, stage := .value }

end Draft

def isDigit (c : Char) : Bool := '0' ≤ c && c ≤ '9'

def digitsValue (ds : List Char) : Nat :=
  ds.foldl (fun n d => n * 10 + (d.toNat - 48)) 0

def scientific? (s : List Char) : Option (List Char × List Char × Int × Nat) :=
  let before := s.takeWhile isDigit
  let rest := s.dropWhile isDigit
  let (after, rest) :=
    match rest with
    | '.' :: r => (r.takeWhile isDigit, r.dropWhile isDigit)
    | r => ([], r)
  match rest with
  | e :: r =>
    if e == 'e' || e == 'E' then
      let (negative, r) :=
        match r with
        | '-' :: r => (true, r)
        | '+' :: r => (false, r)
        | r => (false, r)
      let digits := r.takeWhile isDigit
      if digits.isEmpty then none
      else
        let power : Int := digitsValue digits
        some (before, after, if negative then -power else power,
          s.length - (r.dropWhile isDigit).length)
    else none
  | [] => none

def notNumber (text : List Char) : Failure :=
  .badValue ("could not convert string to float: '" ++ String.ofList text ++ "'")

/-- The value of a run of digits and points; a second point spoils it. -/
def decimal (run : List Char) : Outcome Value :=
  let run := if run.head? == some '.' then '0' :: run else run
  let before := run.takeWhile isDigit
  match run.dropWhile isDigit with
  | [] =>
    if Number.digitLimit < before.length then
      .ok (.double (Double.ofDecimal false (digitsValue before) 0))
    else .ok (.whole (digitsValue before))
  | _ :: rest =>
    let after := rest.takeWhile isDigit
    if after.length < rest.length then .error (notNumber (before ++ ['.'] ++ after ++ ['.']))
    else .ok (.double (Double.ofDecimal false (digitsValue (before ++ after)) (-after.length)))

def number? (s : List Char) : Option (Outcome (Value × Nat)) :=
  match s with
  | [] => none
  | c :: _ =>
    if c == 'E' then none
    else
      match scientific? s with
      | some (before, after, power, length) =>
        if before.isEmpty && after.isEmpty then some (.error (notNumber (s.take length)))
        else
          let value :=
            Double.ofDecimal false (digitsValue (before ++ after)) (power - after.length)
          some (.ok (.double value, length))
      | none =>
        let run := s.takeWhile fun c => isDigit c || c == '.'
        if run.isEmpty then none
        else some ((decimal run).map fun v => (v, run.length))

/-- What stands between two quotes, and how many characters that is; a quote after a backslash
does not count. -/
def quotedBody? (quote : Char) : Option Char → List Char → Option (List Char)
  | _, [] => none
  | last, c :: r =>
    if c == quote && last != some '\\' then some []
    else (quotedBody? quote (some c) r).map (c :: ·)

/-- Resolves the first escape of a text and drops what follows it. -/
def unescape (source : String) (column : Nat) : List Char → Outcome (List Char)
  | [] => .ok []
  | '\\' :: c :: _ =>
    match c with
    | '\'' | '\\' | '/' => .ok [c]
    | 'b' => .ok ['\x08']
    | 'f' => .ok ['\x0c']
    | 'n' => .ok ['\n']
    | 'r' => .ok ['\r']
    | 't' => .ok ['\t']
    | 'u' => .error (.mismatch "string indices must be integers, not 'tuple'")
    | c => .error (.misspelt (column + 1) (.badEscape c) source)
  | '\\' :: [] => .ok []
  | c :: r => do return c :: (← unescape source (column + 1) r)

def word (s : List Char) : List Char :=
  match s with
  | c :: r =>
    if Text.isLetter c then c :: r.takeWhile fun c => Text.isLetter c || c == '_' || isDigit c
    else []
  | [] => []

def variableName (inQuotes first : Bool) : List Char → List Char
  | [] => []
  | c :: r =>
    let plain := Text.isLetter c || c == '"' || (!first && (c == '_' || c == '.' || isDigit c))
    if plain || inQuotes then c :: variableName (inQuotes != (c == '"')) false r else []

/-- How many characters of a comment, slash and star behind, are left. -/
def commentLength? : List Char → Option Nat
  | '*' :: '/' :: _ => some 2
  | _ :: r => (commentLength? r).map (· + 1)
  | [] => none

def constants : List (String × Float) := [("E", Operation.euler), ("PI", Operation.pi)]

def constant? (s : List Char) : Option (Float × Nat) :=
  constants.findSome? fun (name, x) =>
    let n := name.toList
    let apart :=
      match s.drop n.length with
      | [] => true
      | c :: _ => !Text.isWordChar c
    if n.isPrefixOf s && apart then some (x, n.length) else none

def readOperator (d : Draft) (text : String) (priority : Int) (op : Binary) : Outcome Draft :=
  let d := d.skip text.length
  if op == .sub && d.stage.takesOperand then .ok (d.operator (.unary .neg) 5 1 .operand)
  else if op == .add && d.stage.takesOperand then .ok { d with stage := .operand }
  else if op == .negation && d.stage.takesOperand then
    .ok (d.operator (.unary .negation) 2 1 .operand)
  else
    match op, d.rest with
    | .div, [] => .error .exhausted
    | .div, '*' :: _ =>
      match commentLength? d.rest with
      | some n => .ok (d.skip n)
      | none => .error (.badValue "substring not found")
    | op, _ => .ok (d.operator (.binary op) priority 2 .operand)

def readOpening (source : String) (d : Draft) : Outcome Draft :=
  let d := { d.skip 1 with depth := d.depth + 10 }
  if !d.stage.takesOpening then .error (.misspelt d.position .unexpectedOpening source)
  else
    let d := if d.stage = .callable then d.operator .call (-2) 2 .opened else d
    .ok { d with stage := .opened }

def readClosing (source : String) (d : Draft) : Outcome Draft :=
  let d := { d.skip 1 with depth := d.depth - 10 }
  if d.stage = .opened then
    .ok { d with output := .cell d.cells :: d.output, cells := d.cells + 1, stage := .callable }
  else if d.stage.takesClosing then .ok { d with stage := .callable }
  else .error (.misspelt d.position .unexpectedClosing source)

def readComma (source : String) (d : Draft) : Outcome Draft :=
  let d := d.skip 1
  if d.stage.takesClosing then .ok (d.operator (.binary .comma) (-1) 2 .operand)
  else .error (.misspelt d.position .unexpectedComma source)

def readText (source : String) (d : Draft) (quote : Char) (r : List Char) : Outcome Draft :=
  match quotedBody? quote none r with
  | none => .error .exhausted
  | some body => do
    let s ← unescape source d.position body
    let after := d.skip (body.length + 2)
    if d.stage.takesOperand then return after.constant (.text (String.ofList s))
    else .error (.misspelt after.position .unexpectedText source)

def readWord (source : String) (d : Draft) : Outcome Draft :=
  let w := String.ofList (word d.rest)
  let asFunction (t : Token) (operands : Int) : Outcome Draft :=
    let d := d.skip w.length
    if d.stage.takesOperand then .ok (d.operator t 9 operands .argument)
    else .error (.misspelt d.position .unexpectedFunction source)
  match Token.binaryWords.lookup w, Token.unaryWords.lookup w with
  | some op, _ => asFunction (.binary op) 2
  | none, some op => asFunction (.unary op) 1
  | none, none =>
    match variableName false true d.rest with
    | [] =>
      if d.rest.headD 'x' |> Text.isSpacing then .ok (d.skip 1)
      else .error (.misspelt d.position .unknownCharacter source)
    | name =>
      let d := d.skip name.length
      if d.stage.takesOperand then
        .ok { d with output := .variable (String.ofList name) :: d.output, stage := .callable }
      else .error (.misspelt d.position .unexpectedVariable source)

def readToken (source : String) (d : Draft) : Outcome Draft :=
  match Token.operators.find? fun o => o.1.toList.isPrefixOf d.rest with
  | some (text, priority, op) => readOperator d text priority op
  | none =>
    match number? d.rest with
    | some result => do
      let (v, length) ← result
      return (d.skip length).constant v
    | none =>
      match d.rest with
      | '\'' :: r => readText source d '\'' r
      | '"' :: r => readText source d '"' r
      | '(' :: _ => readOpening source d
      | ')' :: _ => readClosing source d
      | ',' :: _ => readComma source d
      | rest =>
        match constant? rest with
        | some (x, length) =>
          let after := d.skip length
          if d.stage.takesOperand then .ok (after.constant (.double x))
          else .error (.misspelt after.position .unexpectedConstant source)
        | none => readWord source d

/-- Every token has at least one character, so the length of the text bounds their number. -/
def readTokens (source : String) : Nat → Draft → Outcome Draft
  | 0, d => .ok d
  | fuel + 1, d =>
    if d.rest.isEmpty then .ok d else readToken source d >>= readTokens source fuel

def read (source : String) : Outcome Program := do
  let d ← readTokens source source.length (Draft.start source)
  if d.depth < 0 ∨ 10 ≤ d.depth then .error (.misspelt d.position .unmatched source)
  else
    let tokens := (d.waiting.foldl (fun out w => w.1 :: out) d.output).reverse
    if d.wanted + 1 ≠ tokens.length then .error (.misspelt d.position .parity source)
    else return ⟨tokens, d.cells⟩

end Program

end Duel.Formula
