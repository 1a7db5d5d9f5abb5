import Duel.Document
import Duel.Text.Half

namespace Duel.Json

inductive Fault
  | malformed
  /-- A whole number with more digits than a reader has to accept. -/
  | outsized
  /-- Lists and tables too deep within each other. -/
  | tooDeep
  deriving DecidableEq, Repr

/-- What a reader takes, and where it stops. -/
structure Dialect where
  /-- Half of a character beyond the basic plane can stand alone. -/
  halves : Bool
  /-- All fields of one name are kept, and not only the last. -/
  repeats : Bool
  /-- The digits of doubles count too, up to the point or the exponent. -/
  countsDoubles : Bool
  /-- How deep tables and lists that hold something can be within each other. -/
  depth : Nat
  deriving Repr

abbrev Reader (α : Type) := List Char → Except Fault (α × List Char)

def isSpace (c : Char) : Bool := c == ' ' || c == '\t' || c == '\n' || c == '\r'

def skip (s : List Char) : List Char := s.dropWhile isSpace

def hexValue? (c : Char) : Option Nat :=
  if '0' ≤ c ∧ c ≤ '9' then some (c.toNat - 48)
  else if 'a' ≤ c ∧ c ≤ 'f' then some (c.toNat - 87)
  else if 'A' ≤ c ∧ c ≤ 'F' then some (c.toNat - 55)
  else none

def hex4? (a b c d : Char) : Option Nat := do
  return ((← hexValue? a) * 16 + (← hexValue? b)) * 256 + (← hexValue? c) * 16 + (← hexValue? d)

def isHigh (n : Nat) : Bool := 0xD800 ≤ n && n < 0xDC00

def isLow (n : Nat) : Bool := 0xDC00 ≤ n && n < 0xE000

/-- A unit that stands alone, which a half may not be allowed to. -/
def single? (halves : Bool) (n : Nat) : Option (List Char) :=
  if Text.isHalf n && !halves then none else some (Text.ofCode n)

def joinHalves? (halves : Bool) : List (Nat ⊕ Char) → Option (List Char)
  | [] => some []
  | .inr c :: rest => (joinHalves? halves rest).map (c :: ·)
  | .inl hi :: .inl lo :: rest =>
    if isHigh hi && isLow lo then
      (joinHalves? halves rest).map
        (Text.ofCode (0x10000 + (hi - 0xD800) * 1024 + (lo - 0xDC00)) ++ ·)
    else do return (← single? halves hi) ++ (← joinHalves? halves (.inl lo :: rest))
  | .inl n :: rest => do return (← single? halves n) ++ (← joinHalves? halves rest)

def escape? : Char → Option Char
  | '"' => some '"'
  | '\\' => some '\\'
  | '/' => some '/'
  | 'b' => some '\x08'
  | 'f' => some '\x0c'
  | 'n' => some '\n'
  | 'r' => some '\r'
  | 't' => some '\t'
  | _ => none

/-- The units of a string up to its closing quote; numbers are the units written as `\u`. -/
def units : Reader (List (Nat ⊕ Char))
  | [] => .error .malformed
  | '"' :: rest => .ok ([], rest)
  | '\\' :: 'u' :: a :: b :: c :: d :: rest =>
    match hex4? a b c d with
    | some n => (units rest).map fun (us, r) => (.inl n :: us, r)
    | none => .error .malformed
  | '\\' :: e :: rest =>
    match escape? e with
    | some c => (units rest).map fun (us, r) => (.inr c :: us, r)
    | none => .error .malformed
  | c :: rest =>
    if c.toNat < 32 then .error .malformed
    else (units rest).map fun (us, r) => (.inr c :: us, r)

def string (d : Dialect) : Reader String := fun s => do
  let (us, rest) ← units s
  match joinHalves? d.halves us with
  | some cs => return (String.ofList cs, rest)
  | none => .error .malformed

def digitsValue (ds : List Char) : Nat :=
  ds.foldl (fun n d => n * 10 + (d.toNat - 48)) 0

def isDigit (c : Char) : Bool := '0' ≤ c && c ≤ '9'

def exponent (s : List Char) : Option (Int × List Char) :=
  let (negative, ds) :=
    match s with
    | '-' :: r => (true, r)
    | '+' :: r => (false, r)
    | r => (false, r)
  match ds.takeWhile isDigit with
  | [] => none
  | digits =>
    let n : Int := digitsValue digits
    some (if negative then -n else n, ds.dropWhile isDigit)

/-- A number without its sign. A point or an exponent makes it a double. -/
def magnitude (dialect : Dialect) (negative : Bool) (s : List Char) :
    Except Fault (Number × List Char) :=
  let digits := s.takeWhile isDigit
  let rest := s.dropWhile isDigit
  match digits with
  | [] => .error .malformed
  | d :: more =>
    let (digits, rest) := if d == '0' then ([d], more ++ rest) else (digits, rest)
    let (fraction, rest) :=
      match rest with
      | '.' :: r => if (r.takeWhile isDigit).isEmpty then ([], rest)
        else (r.takeWhile isDigit, r.dropWhile isDigit)
      | r => ([], r)
    let power :=
      match rest with
      | 'e' :: r | 'E' :: r => exponent r
      | _ => none
    let isWhole := fraction.isEmpty && power.isNone
    if (isWhole || dialect.countsDoubles) && Number.digitLimit < digits.length then .error .outsized
    else if isWhole then
      let n : Int := digitsValue digits
      .ok (.whole (if negative then -n else n), rest)
    else
      let (e, rest) := power.getD (0, rest)
      let value :=
        Double.ofDecimal negative (digitsValue (digits ++ fraction)) (e - fraction.length)
      .ok (.double value, rest)

def literal (word : String) (value : Document) : Reader Document := fun s =>
  let w := word.toList
  if w.isPrefixOf s then .ok (value, s.drop w.length) else .error .malformed

mutual

/-- A value that starts at the first character; `depth` levels are left for what holds others. -/
def value (d : Dialect) : (fuel depth : Nat) → Reader Document
  | 0, _, _ => .error .malformed
  | fuel + 1, depth, s =>
    match s with
    | '"' :: r => (string d r).map fun (t, rest) => (.text t, rest)
    | '[' :: r =>
      match skip r, depth with
      | ']' :: rest, _ => .ok (.list [], rest)
      | _, 0 => .error .tooDeep
      | r, depth + 1 => (items d fuel depth r).map fun (xs, rest) => (.list xs, rest)
    | '\x7b' :: r =>
      match skip r, depth with
      | '\x7d' :: rest, _ => .ok (.table [], rest)
      | _, 0 => .error .tooDeep
      | r, depth + 1 => (fields d fuel depth [] r).map fun (fs, rest) => (.table fs, rest)
    | 't' :: _ => literal "true" (.truth true) s
    | 'f' :: _ => literal "false" (.truth false) s
    | 'n' :: _ => literal "null" .null s
    | 'N' :: _ => literal "NaN" (.number (.double Double.nan)) s
    | 'I' :: _ => literal "Infinity" (.number (.double Double.infinity)) s
    | '-' :: 'I' :: _ => literal "-Infinity" (.number (.double (-Double.infinity))) s
    | '-' :: r => (magnitude d true r).map fun (n, rest) => (.number n, rest)
    | _ => (magnitude d false s).map fun (n, rest) => (.number n, rest)

def items (d : Dialect) : (fuel depth : Nat) → Reader (List Document)
  | 0, _, _ => .error .malformed
  | fuel + 1, depth, s => do
    let (x, rest) ← value d fuel depth s
    match skip rest with
    | ',' :: r => do
      let (xs, rest) ← items d fuel depth (skip r)
      return (x :: xs, rest)
    | ']' :: r => return ([x], r)
    | _ => .error .malformed

def fields (d : Dialect) :
    (fuel depth : Nat) → List (Document × Document) → Reader (List (Document × Document))
  | 0, _, _, _ => .error .malformed
  | fuel + 1, depth, seen, s =>
    match s with
    | '"' :: r => do
      let (key, rest) ← string d r
      match skip rest with
      | ':' :: r => do
        let (v, rest) ← value d fuel depth (skip r)
        let seen :=
          if d.repeats then seen ++ [(.text key, v)] else Document.putField (.text key) v seen
        match skip rest with
        | ',' :: r => fields d fuel depth seen (skip r)
        | '\x7d' :: r => return (seen, r)
        | _ => .error .malformed
      | _ => .error .malformed
    | _ => .error .malformed

end

def readAs (d : Dialect) (text : String) : Except Fault Document := do
  let s := text.toList
  let (doc, rest) ← value d (2 * s.length + 2) d.depth (skip s)
  if (skip rest).isEmpty then return doc else .error .malformed

def lenient : Dialect := ⟨true, false, false, 985⟩

def read (text : String) : Except Fault Document := readAs lenient text

end Duel.Json
