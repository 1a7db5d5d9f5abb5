import Duel.Document
import Duel.Double.Shortest
import Duel.Ledger
import Duel.Text.Digit
import Duel.Text.Quoted

namespace Duel.Field

/-- A step from a document into one of its parts. -/
inductive Place
  | name (s : String)
  | index (n : Int)
  deriving DecidableEq, Repr

inductive Problem
  | missing
  | notRecord
  | notList
  | notTable
  | notText
  /-- A text with half of a character in it. -/
  | brokenText
  | notChoice
  | notWhole
  | unreadableWhole
  | fractional
  | notFinite
  | outsized
  | notReal
  | unreadableReal
  | notTruth
  | unreadableTruth
  /-- The text is no document at all. -/
  | malformed
  /-- A rule of the record itself is broken. -/
  | broken (rule : String)
  deriving DecidableEq, Repr

structure Issue where
  path : List Place
  problem : Problem
  deriving DecidableEq, Repr

/-- A document that is no record of the kind called `title`. -/
structure Invalid where
  title : String
  issues : List Issue
  deriving DecidableEq, Repr

abbrev Checked (α : Type) := Except (List Issue) α

abbrev Reader (α : Type) := Document → Checked α

def fail {α : Type} (p : Problem) : Checked α := .error [⟨[], p⟩]

def within {α : Type} (place : Place) (c : Checked α) : Checked α :=
  c.mapError fun issues => issues.map fun i => { i with path := place :: i.path }

def both {α β γ : Type} (f : α → β → γ) : Checked α → Checked β → Checked γ
  | .ok a, .ok b => .ok (f a b)
  | .error is, .error js => .error (is ++ js)
  | .error is, .ok _ => .error is
  | .ok _, .error js => .error js

def decoded? (bs : List UInt8) : Option String :=
  (String.fromUTF8? (ByteArray.mk bs.toArray)).map Text.literal

def text : Reader String
  | .text s => .ok s
  | .bytes bs =>
    match decoded? bs with
    | some s => .ok s
    | none => fail .brokenText
  | _ => fail .notText

def spelling {α : Type} (read : String → Checked α) (s : String) : Checked α :=
  if Text.hasHalf s then fail .brokenText else read s

def spellingOfBytes {α : Type} (read : String → Checked α) (unreadable : Problem)
    (bs : List UInt8) : Checked α :=
  match decoded? bs with
  | some s => read s
  | none => fail unreadable

def ungroup? (s : List Char) : Option (List Char) :=
  let rec lonely : List Char → Bool
    | '_' :: '_' :: _ => false
    | _ :: r => lonely r
    | [] => true
  if lonely s && s.head? != some '_' && s.getLast? != some '_' then some (s.filter (· != '_'))
  else none

/-- Drops zeros at the start, and underscores among them, but leaves the last character before a
point or the end. A minus sign can stand behind the zeros, but not before them. -/
def dropZeros? (s : List Char) : Option (List Char) :=
  let rec go : Char → List Char → Option (List Char)
    | last, [] => some [last]
    | last, c :: r =>
      if c == '0' || c == '_' then go c r
      else if c == '.' then some (last :: c :: r)
      else if c.isDigit || c == '-' then some (c :: r)
      else none
  match s with
  | '0' :: r => go '0' r
  | c :: r => if c.isDigit then some (c :: r) else none
  | [] => none

/-- Drops a point with zeros after it, of which there has to be one at least. -/
def dropPoint? (s : List Char) : Option (List Char) :=
  match s.dropWhile (· != '.') with
  | [] => some s
  | _ :: zeros =>
    if !zeros.isEmpty && zeros.all (· == '0') then some (s.takeWhile (· != '.')) else none

def tidyWhole? (s : List Char) : Option (List Char) := do
  let body ←
    match Text.trimBy Text.isBlank s with
    | '+' :: '-' :: _ => none
    | '+' :: r => some r
    | r => some r
  let (sign, digits) := match body with
    | '-' :: r => (['-'], r)
    | r => ([], r)
  ungroup? (← dropPoint? (sign ++ (← dropZeros? digits)))

def digitsValue (ds : List Char) : Nat := ds.foldl (fun n d => n * 10 + (d.toNat - 48)) 0

/-- The whole number in strict writing: a minus sign and digits, of which the first is nought only
if it stands alone. What does not begin so is unreadable, and so is what goes on behind it. -/
def strictWhole (s : List Char) : Except Problem Int :=
  let (negative, body) :=
    match s with
    | '-' :: r => (true, r)
    | r => (false, r)
  let digits := if body.head? == some '0' then ['0'] else body.takeWhile Char.isDigit
  if Number.digitLimit < digits.length then .error .outsized
  else if digits.isEmpty || digits.length < body.length then .error .unreadableWhole
  else
    let n : Int := digitsValue digits
    .ok (if negative then -n else n)

/-- The whole number that a text spells. Only strict writing can be too long. -/
def wholeOfText (s : String) : Except Problem Int :=
  match strictWhole s.toList with
  | .error .unreadableWhole =>
    match tidyWhole? s.toList with
    | some body => (strictWhole body).mapError fun _ => .unreadableWhole
    | none => .error .unreadableWhole
  | r => r

/-- The size from which on a whole number does not fit into a machine word with a sign. -/
def wordLimit : Nat := 0x8000000000000000

def fitsWord (n : Int) : Bool := -(wordLimit : Int) ≤ n && n < wordLimit

def wholeSpelled (s : String) : Checked Int := (wholeOfText s).mapError fun p => [⟨[], p⟩]

def whole : Reader Int
  | .number (.whole n) => .ok n
  | .truth b => .ok (if b then 1 else 0)
  | .number (.double x) =>
    if !x.isFinite then fail .notFinite
    else
      match Double.whole? x with
      | none => fail .fractional
      | some n => if n.natAbs < wordLimit then .ok n else fail .outsized
  | .text s => spelling wholeSpelled s
  | .bytes bs => spellingOfBytes wholeSpelled .unreadableWhole bs
  | _ => fail .notWhole

def lowerAscii (s : String) : String := s.map Char.toLower

/-- A decimal without its sign: digits, a point, an exponent; one digit at least. -/
def decimalOfChars? (negative : Bool) (s : List Char) : Option Float :=
  let isDigit (c : Char) : Bool := '0' ≤ c && c ≤ '9'
  let before := s.takeWhile isDigit
  let rest := s.dropWhile isDigit
  let (after, rest) :=
    match rest with
    | '.' :: r => (r.takeWhile isDigit, r.dropWhile isDigit)
    | r => ([], r)
  let value (ds : List Char) : Nat := ds.foldl (fun n d => n * 10 + (d.toNat - 48)) 0
  let power : Option Int :=
    match rest with
    | [] => some 0
    | e :: r =>
      if e == 'e' || e == 'E' then
        let (minus, r) :=
          match r with
          | '-' :: r => (true, r)
          | '+' :: r => (false, r)
          | r => (false, r)
        if !r.isEmpty && r.all isDigit then
          some (if minus then -(value r : Int) else value r)
        else none
      else none
  if before.isEmpty && after.isEmpty then none
  else power.map fun p => Double.ofDecimal negative (value (before ++ after)) (p - after.length)

def realOfChars? (body : List Char) : Option Float :=
  let (negative, rest) :=
    match body with
    | '-' :: r => (true, r)
    | '+' :: r => (false, r)
    | r => (false, r)
  let word := lowerAscii (String.ofList rest)
  if word == "inf" || word == "infinity" then some (Double.signed negative Double.infinity)
  else if word == "nan" then some Double.nan
  else decimalOfChars? negative rest

/-- Blanks around a double are left out, or underscores within it, but not both. -/
def realOfText? (s : String) : Option Float :=
  realOfChars? (Text.trimBy Text.isBlank s.toList) <|> (ungroup? s.toList >>= realOfChars?)

def realSpelled (s : String) : Checked Number :=
  match realOfText? s with
  | some x => .ok (.double x)
  | none => fail .unreadableReal

def real : Reader Number
  | .number (.double x) => .ok (.double x)
  | .number (.whole n) =>
    match Double.ofInt? n with
    | .ok x => .ok (.double x)
    | .error _ => fail .notReal
  | .truth b => .ok (.double (if b then 1 else 0))
  | .text s => spelling realSpelled s
  | .bytes bs => spellingOfBytes realSpelled .unreadableReal bs
  | _ => fail .notReal

/-- Only whole numbers that fit into a machine word are looked at. -/
def truthOfWhole (n : Int) : Checked Bool :=
  if n = 0 then .ok false
  else if n = 1 then .ok true
  else if fitsWord n then fail .unreadableTruth
  else fail .notTruth

def truthSpelled (s : String) : Checked Bool :=
  let word := lowerAscii s
  if ["1", "true", "t", "yes", "y", "on"].contains word then .ok true
  else if ["0", "false", "f", "no", "n", "off"].contains word then .ok false
  else fail .unreadableTruth

def truth : Reader Bool
  | .truth b => .ok b
  | .number (.whole n) => truthOfWhole n
  | .number (.double x) =>
    match Double.whole? x with
    | some n => if n.natAbs < wordLimit then truthOfWhole n else fail .notTruth
    | none => fail .notTruth
  | .text s => spelling truthSpelled s
  | .bytes bs => spellingOfBytes truthSpelled .unreadableTruth bs
  | _ => fail .notTruth

def choice {α : Type} (options : List (String × α)) : Reader α
  | .text s =>
    spelling (fun s =>
      match options.lookup s with
      | some a => .ok a
      | none => fail .notChoice) s
  | _ => fail .notChoice

def nullable {α : Type} (r : Reader α) : Reader (Option α)
  | .null => .ok none
  | d => (r d).map some

def listItems {α : Type} (r : Reader α) : Nat → List Document → Checked (List α)
  | _, [] => .ok []
  | i, d :: ds => both List.cons (within (.index i) (r d)) (listItems r (i + 1) ds)

def listOf {α : Type} (r : Reader α) : Reader (List α)
  | .list ds | .set ds => listItems r 0 ds
  | _ => fail .notList

def placeOfKey : Document → Place
  | .text s => .name (Text.whole s)
  | .truth b => .index (if b then 1 else 0)
  | .number (.whole n) =>
    if fitsWord n then .index n
    else .name ((Number.digits n).toOption.getD "<unprintable int object>")
  | .number (.double x) => .name (Double.plain.write x)
  | .null => .name "None"
  | .moment t => .name t.text
  | .bytes bs => .name (Text.quotedBytes bs)
  | .list _ | .table _ | .set _ | .endless => .name ""

def tableItems {α : Type} (r : Reader α) :
    List (Document × Document) → Checked (List (String × α))
  | [] => .ok []
  | (k, d) :: rest =>
    let place := placeOfKey k
    let key := within place (within (.name "[key]") (text k))
    both List.cons (both Prod.mk key (within place (r d))) (tableItems r rest)

def tableOf {α : Type} (r : Reader α) : Reader (List (String × α))
  | .table fields => tableItems r fields
  | _ => fail .notTable

def ledgerOf {α : Type} (r : Reader α) : Reader (Ledger α) := fun d =>
  (tableOf r d).map Ledger.ofList

def anything : Reader Document := .ok

/-- A reader of the fields of a record. -/
structure Form (α : Type) where
  /-- The names of the fields, and whether each has to be there. -/
  names : List (String × Bool)
  run : List (Document × Document) → Checked α

namespace Form

instance : Functor Form where
  map f x := ⟨x.names, fun fields => (x.run fields).map f⟩

instance : Applicative Form where
  pure a := ⟨[], fun _ => .ok a⟩
  seq f x :=
    ⟨f.names ++ (x ()).names,
      fun fields => both (fun g a => g a) (f.run fields) ((x ()).run fields)⟩

/-- The rules of a record, looked at once its fields are read; those broken are named together. -/
def obeying {α : Type} (form : Form α) (rules : α → List String) : Form α :=
  ⟨form.names, fun fields => do
    let a ← form.run fields
    match rules a with
    | [] => return a
    | rs => fail (.broken ("; ".intercalate rs))⟩

end Form

def required {α : Type} (name : String) (r : Reader α) : Form α :=
  ⟨[(name, true)], fun fields =>
    within (.name name) <|
      match Document.field? name fields with
      | some d => r d
      | none => fail .missing⟩

def optional {α : Type} (name : String) (default : α) (r : Reader α) : Form α :=
  ⟨[(name, false)], fun fields =>
    within (.name name) <|
      match Document.field? name fields with
      | some d => r d
      | none => .ok default⟩

def maybe {α : Type} (name : String) (r : Reader α) : Form (Option α) :=
  optional name none (nullable r)

def record {α : Type} (form : Form α) : Reader α
  | .table fields => form.run fields
  | _ => fail .notRecord

def readAs {α : Type} (title : String) (r : Reader α) (d : Document) : Except Invalid α :=
  (r d).mapError (Invalid.mk title)

end Duel.Field
