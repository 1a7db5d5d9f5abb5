import Duel.Double.Places
import Duel.Formula.Operation

namespace Duel.Formula

structure Directive where
  /-- The marks between percent sign and width, such as `-` and `0`. -/
  marks : List Char
  width : Nat := 0
  precision : Option Nat := none
  kind : Char

namespace Directive

def has (d : Directive) (mark : Char) : Bool := d.marks.contains mark

def widthLimit : Nat := Operation.wordLimit - 1

def precisionLimit : Nat := 0x7fffffff

structure Filling where
  rest : List Char
  supply : List Value

abbrev Fill (α : Type) := StateT Filling (Except Failure) α

def take : Fill Value := do
  let f ← get
  match f.supply with
  | v :: vs =>
    set { f with supply := vs }
    return v
  | [] => throw (.mismatch "not enough arguments for format string")

def accept (wanted : Char → Bool) : Fill (Option Char) := do
  let f ← get
  match f.rest with
  | c :: r =>
    if wanted c then
      set { f with rest := r }
      return some c
    else return none
  | [] => return none

def acceptAll (wanted : Char → Bool) : Fill (List Char) :=
  modifyGet fun f => (f.rest.takeWhile wanted, { f with rest := f.rest.dropWhile wanted })

def parenthesised? : Nat → List Char → Option (List Char × List Char)
  | _, [] => none
  | depth, c :: r =>
    if c == ')' && depth == 0 then some ([], r)
    else
      let depth := if c == '(' then depth + 1 else if c == ')' then depth - 1 else depth
      (parenthesised? depth r).map fun (inside, behind) => (c :: inside, behind)

def takeName (s : Store) (source : Value) : Fill Unit := do
  if (← accept (· == '(')).isSome then
    match source with
    | .list _ | .table _ =>
      match parenthesised? 0 (← get).rest with
      | none => throw (.badValue "incomplete format key")
      | some (name, rest) =>
        let name := String.ofList name
        match source with
        | .table i =>
          match (s.entries i).lookup name with
          | some v => set ({ rest, supply := [v] } : Filling)
          | none => throw (.noEntry name)
        | _ => throw (.mismatch "list indices must be integers or slices, not str")
    | _ => throw (.mismatch "format requires a mapping")

def digitsValue (ds : List Char) : Nat := ds.foldl (fun n d => n * 10 + (d.toNat - 48)) 0

/-- A size in digits, or a star that stands for a value. -/
def takeSize (limit : Nat) (complaint : String) : Fill (Option Int) := do
  if (← accept (· == '*')).isSome then
    match ← take with
    | .whole n => if n < -(limit : Int) - 1 ∨ (limit : Int) < n then throw .overflow else return n
    | .truth b => return some (if b then 1 else 0)
    | _ => throw (.mismatch "* wants int")
  else
    let ds ← acceptAll Char.isDigit
    if ds.isEmpty then return none
    else if limit < digitsValue ds then throw (.badValue complaint)
    else return some (digitsValue ds)

def read (s : Store) (source : Value) : Fill Directive := do
  takeName s source
  let marks ← acceptAll fun c => c == '-' || c == '+' || c == ' ' || c == '#' || c == '0'
  let width := (← takeSize widthLimit "width too big").getD 0
  let marks := if width < 0 then '-' :: marks else marks
  let precision ←
    if (← accept (· == '.')).isSome then
      pure (some ((← takeSize precisionLimit "precision too big").getD 0).toNat)
    else pure none
  let _ ← accept fun c => c == 'h' || c == 'l' || c == 'L'
  match ← accept fun _ => true with
  | some kind => return { marks, width := width.natAbs, precision, kind }
  | none => throw (.badValue "incomplete format")

def blanks (c : Char) (n : Nat) : String := String.ofList (List.replicate n c)

def guarded (d : Directive) (sizes : List Nat) : Outcome Unit :=
  if (d.width :: sizes).any (Operation.room < ·) then .error .tooLong else .ok ()

def ofText (d : Directive) (cut : Bool) (t : String) : Outcome String := do
  d.guarded []
  let t :=
    match d.precision with
    | some n => if cut && n < Text.size t then Text.take n t else t
    | none => t
  let gap := blanks ' ' (d.width - Text.size t)
  return if d.has '-' then t ++ gap else gap ++ t

/-- A number has a sign, a mark of its base and digits; zeros go between the last two. -/
def ofParts (d : Directive) (negative : Bool) (base digits : String) : Outcome String := do
  d.guarded []
  let sign := if negative then "-" else if d.has '+' then "+" else if d.has ' ' then " " else ""
  let gap := d.width - (sign.length + base.length + digits.length)
  return if d.has '-' then sign ++ base ++ digits ++ blanks ' ' gap
    else if d.has '0' then sign ++ base ++ blanks '0' gap ++ digits
    else blanks ' ' gap ++ sign ++ base ++ digits

def cutWhole (v : Value) : Outcome Int :=
  match v.number? with
  | some (.whole n) => .ok n
  | some (.double x) => Operation.fromNumber (Double.truncate? x)
  | none => .error (.mismatch "a real number is required")

def ofWhole (d : Directive) (v : Value) : Outcome String := do
  let based (radix : Nat) (mark : String) (n : Int) : String × String :=
    (if d.has '#' then mark else "", String.ofList (Nat.toDigits radix n.natAbs))
  let n ← if ['o', 'x', 'X'].contains d.kind then Operation.whole v else cutWhole v
  let (base, digits) ←
    match d.kind with
    | 'o' => pure (based 8 "0o" n)
    | 'x' => pure (based 16 "0x" n)
    | 'X' =>
      let (base, digits) := based 16 "0X" n
      pure (base, digits.map Char.toUpper)
    | _ => do
      let t ← Store.wholeText n.natAbs
      pure ("", t)
  let places := d.precision.getD 0
  if precisionLimit - 3 < places then .error .overflow
  d.guarded [places]
  d.ofParts (n < 0) base (blanks '0' (places - digits.length) ++ digits)

def magnitudeText (d : Directive) (x : Float) : String :=
  let places := d.precision.getD 6
  match Double.read x with
  | .nan => "nan"
  | .infinite _ => "inf"
  | .finite _ m e =>
    let x : Double.Magnitude := ⟨m, e⟩
    match d.kind with
    | 'e' | 'E' => x.scientific places (d.has '#')
    | 'f' | 'F' => x.fixed places (d.has '#')
    | _ => x.general places (d.has '#')

def ofReal (d : Directive) (v : Value) : Outcome String := do
  let x ← Operation.real v
  d.guarded [d.precision.getD 0]
  let t := d.magnitudeText x
  let negative := !x.isNaN && decide (0x8000000000000000 ≤ x.toBits.toNat)
  d.ofParts negative "" (if d.kind.isUpper then t.map Char.toUpper else t)

def ofChar (d : Directive) (v : Value) : Outcome String := do
  match v with
  | .text t =>
    if Text.size t = 1 then d.ofText false t else .error (.mismatch "%c requires int or char")
  | v =>
    let n ← Operation.whole v
    if n < 0 ∨ 0x10ffff < n then .error .overflow
    else d.ofText false (Text.ofCodes [n.toNat])

def apply (d : Directive) (s : Store) (v : Value) : Outcome String :=
  match d.kind with
  | 's' => do d.ofText true (← s.written v)
  | 'r' => do d.ofText true (← s.display v)
  | 'a' => do d.ofText true (Text.asciiOnly (← s.display v))
  | 'd' | 'i' | 'u' | 'o' | 'x' | 'X' => d.ofWhole v
  | 'e' | 'E' | 'f' | 'F' | 'g' | 'G' => d.ofReal v
  | 'c' => d.ofChar v
  | _ => .error (.badValue "unsupported format character")

/-- Fills the places from the left; every round takes one character at least. -/
def fillFrom (s : Store) (source : Value) : Nat → List String → Fill (List String)
  | 0, parts => return parts
  | fuel + 1, parts => do
    let plain ← acceptAll (· != '%')
    let parts := String.ofList plain :: parts
    if (← accept fun _ => true).isNone then return parts
    if (← accept (· == '%')).isSome then fillFrom s source fuel ("%" :: parts)
    else
      let d ← read s source
      let v ← take
      fillFrom s source fuel ((← d.apply s v) :: parts)

/-- Fills a text with a value. Only lists and tables may hold more than there are places for. -/
def fill (s : Store) (template : String) (source : Value) : Outcome String := do
  let (parts, filling) ←
    (fillFrom s source (template.length + 1) []).run ⟨template.toList, [source]⟩
  let sparing :=
    match source with
    | .list _ | .table _ => true
    | _ => false
  if !filling.supply.isEmpty && !sparing then
    .error (.mismatch "not all arguments converted during string formatting")
  else return String.join parts.reverse

end Directive

end Duel.Formula
