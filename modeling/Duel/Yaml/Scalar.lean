import Duel.Field
import Duel.Text.Digit
import Duel.Yaml.Tag

namespace Duel.Yaml.Scalar

def nulls : List String := ["", "~", "null", "Null", "NULL"]

def truths : List String :=
  ["yes", "Yes", "YES", "true", "True", "TRUE", "on", "On", "ON",
   "no", "No", "NO", "false", "False", "FALSE", "off", "Off", "OFF"]

def isDigit (c : Char) : Bool := '0' ≤ c && c ≤ '9'

def isGrouped (c : Char) : Bool := isDigit c || c == '_'

def sign (s : List Char) : Bool × List Char :=
  match s with
  | '-' :: r => (true, r)
  | '+' :: r => (false, r)
  | r => (false, r)

def isHexGrouped (c : Char) : Bool := (Quoted.hexDigit? c).isSome || c == '_'

def parts : List Char → List (List Char)
  | [] => [[]]
  | c :: rest =>
    if c == ':' then [] :: parts rest
    else
      match parts rest with
      | p :: ps => (c :: p) :: ps
      | [] => [[c]]

def isSixtieth (p : List Char) : Bool :=
  match p with
  | [d] => isDigit d
  | [t, d] => '0' ≤ t && t ≤ '5' && isDigit d
  | _ => false

def startsAt (p : Char → Bool) (s : List Char) : Bool := s.head?.any p

/-- Whether a text without its sign has the form of a whole number: decimal, binary, octal,
hexadecimal or in sixtieths. -/
def isMagnitude (s : List Char) : Bool :=
  match s with
  | ['0'] => true
  | '0' :: 'b' :: ds => !ds.isEmpty && ds.all fun c => c == '0' || c == '1' || c == '_'
  | '0' :: 'x' :: ds => !ds.isEmpty && ds.all isHexGrouped
  | '0' :: ds => ds.all fun c => ('0' ≤ c && c ≤ '7') || c == '_'
  | _ =>
    startsAt isDigit s &&
      match parts s with
      | [] => false
      | first :: rest => first.all isGrouped && rest.all isSixtieth

def isExponent (s : List Char) : Bool :=
  match s with
  | [] => true
  | e :: r =>
    (e == 'e' || e == 'E') && startsAt (fun c => c == '+' || c == '-') r &&
      !(r.drop 1).isEmpty && (r.drop 1).all isDigit

def isDecimal (signed : Bool) (s : List Char) : Bool :=
  let before := s.takeWhile isGrouped
  match s.dropWhile isGrouped with
  | '.' :: r =>
    isExponent (r.dropWhile isGrouped) &&
      (if before.isEmpty then !signed && startsAt isDigit r else startsAt isDigit before)
  | _ => false

def isSixtieths (s : List Char) : Bool :=
  match s.dropWhile (· != '.'), parts (s.takeWhile (· != '.')) with
  | '.' :: r, first :: rest =>
    startsAt isDigit first && first.all isGrouped && !rest.isEmpty && rest.all isSixtieth &&
      r.all isGrouped
  | _, _ => false

def isDouble (s : List Char) : Bool :=
  let (_, body) := sign s
  let signed := body.length < s.length
  let word := String.ofList body
  [".inf", ".Inf", ".INF"].contains word || ([".nan", ".NaN", ".NAN"].contains word && !signed) ||
    isDecimal signed body || isSixtieths body

def digits? (least most : Nat) (s : List Char) : Option (Nat × List Char) :=
  let ds := (s.take most).takeWhile isDigit
  if ds.length < least then none else some (Field.digitsValue ds, s.drop ds.length)

def char? (c : Char) (s : List Char) : Option (List Char) :=
  if s.head? == some c then some s.tail else none

def skipBlanks (s : List Char) : List Char := s.dropWhile fun c => c == ' ' || c == '\t'

def fraction (s : List Char) : Nat × List Char :=
  match s with
  | '.' :: r =>
    let ds := (r.takeWhile isDigit).take 6
    (Field.digitsValue (ds ++ List.replicate (6 - ds.length) '0'), r.dropWhile isDigit)
  | r => (0, r)

/-- The zone at the end of a time, in minutes ahead of universal time. -/
def zone? (s : List Char) : Option (Option Int) :=
  match skipBlanks s with
  | [] => if s.isEmpty then some none else none
  | ['Z'] => some (some 0)
  | z :: r =>
    if z != '+' && z != '-' then none
    else
      let signed (minutes : Nat) : Option Int :=
        some (if z == '-' then -(minutes : Int) else minutes)
      match digits? 1 2 r with
      | none => none
      | some (h, []) => some (signed (h * 60))
      | some (h, r) =>
        match char? ':' r >>= digits? 2 2 with
        | some (m, []) => some (signed (h * 60 + m))
        | _ => none

def time? (s : List Char) : Option TimeOfDay := do
  let s ← match s with
    | 't' :: r | 'T' :: r => some r
    | ' ' :: _ | '\t' :: _ => some (skipBlanks s)
    | _ => none
  let (hour, s) ← digits? 1 2 s
  let (minute, s) ← char? ':' s >>= digits? 2 2
  let (second, s) ← char? ':' s >>= digits? 2 2
  let (micro, s) := fraction s
  let offset ← zone? s
  return { hour, minute, second, micro, offset }

/-- A date with or without a time, be there such a one or not. -/
def moment? (s : List Char) : Option Timestamp := do
  let (year, r) ← digits? 4 4 s
  let (month, r) ← char? '-' r >>= digits? 1 2
  let (day, r) ← char? '-' r >>= digits? 1 2
  let time ← if r.isEmpty then some none else (time? r).map some
  return { year, month, day, time }

/-- A date without a time has to be written out. -/
def isMoment (s : List Char) : Bool :=
  (moment? s).any fun t => t.time.isSome || s.length = 10

/-- One line end after a text does not count for its form. -/
def withoutEnd (s : List Char) : List Char := if s.getLast? == some '\n' then s.dropLast else s

def tagOf (text : String) : Tag :=
  let s := withoutEnd text.toList
  let word := String.ofList s
  if text == "" || (word != "" && nulls.contains word) then .nothing
  else if truths.contains word then .truth
  else if isDouble s then .double
  else if isMagnitude (sign s).2 then .whole
  else if word == "<<" then .merge
  else if isMoment s then .moment
  else if word == "=" then .sign
  else .text

/-- The digits of a number in a base of two, eight or sixteen may come behind the letter of that
base. -/
def withoutBase (base : Nat) (s : List Char) : List Char :=
  let letter? := [(2, 'b'), (8, 'o'), (16, 'x')].lookup base
  match s with
  | '0' :: c :: r => if letter? == some c.toLower then r else s
  | s => s

/-- A whole number with a sign of its own. There is a limit to decimal digits. -/
def integer (base : Nat) (s : List Char) : Except Fault Int :=
  let (negative, body) := sign (Text.numeral s)
  let ds := withoutBase base body
  match ds.mapM Quoted.hexDigit? with
  | some values =>
    if values.isEmpty || values.any (base ≤ ·) || (base = 10 && Number.digitLimit < ds.length) then
      .error .value
    else
      let n : Int := Int.ofNat (values.foldl (fun n d => n * base + d) 0)
      .ok (if negative then -n else n)
  | none => .error .value

def sixtieths (digits : List Int) : Int := digits.foldl (fun n d => n * 60 + d) 0

def magnitude (s : List Char) : Except Fault Int :=
  match s with
  | [] => .error .noNumber
  | ['0'] => .ok 0
  | '0' :: 'b' :: ds => integer 2 ds
  | '0' :: 'x' :: ds => integer 16 ds
  | '0' :: _ => integer 8 s
  | _ => if s.contains ':' then sixtieths <$> (parts s).mapM (integer 10) else integer 10 s

def whole (s : List Char) : Except Fault Int :=
  match s.filter (· != '_') with
  | [] => .error .noNumber
  | s =>
    let (negative, body) := sign s
    (magnitude body).map fun n => if negative then -n else n

def float (s : List Char) : Except Fault Float :=
  match Field.realOfChars? (Text.numeral s) with
  | some x => .ok x
  | none => .error .value

/-- Adds parts up from the last one, each worth sixty times as much as the one after it. -/
def sumSixtieths (parts : List Float) : Except Fault Float :=
  (parts.reverse.zipIdx.foldlM fun (sum : Float) (x, i) =>
    match Double.ofInt? (Nat.pow 60 i) with
    | .ok unit => .ok (sum + x * unit)
    | .error _ => .error .overflow) 0

/-- A double in small letters, without the strokes that part digits. -/
def tidyDouble (s : List Char) : List Char := (s.filter (· != '_')).map Char.toLower

/-- Whether a double is written as a NaN, and does not only come to be one. -/
def isPlainNaN (text : String) : Bool :=
  String.ofList (sign (tidyDouble text.toList)).2 == ".nan"

def double (s : List Char) : Except Fault Float :=
  match tidyDouble s with
  | [] => .error .noNumber
  | s =>
    let (negative, body) := sign s
    let word := String.ofList body
    if word == ".nan" then .ok Double.nan
    else do
      let x ←
        if word == ".inf" then .ok Double.infinity
        else if body.contains ':' then (parts body).mapM float >>= sumSixtieths
        else float body
      return if negative then -x else x

def moment (s : List Char) : Except Fault Timestamp :=
  match moment? (withoutEnd s) with
  | none => .error .noDate
  | some t => if t.isValid then .ok t else .error .value

def truthOf (text : String) : Except Fault Bool :=
  let word := Field.lowerAscii text
  if ["yes", "true", "on"].contains word then .ok true
  else if ["no", "false", "off"].contains word then .ok false
  else .error .noTruth

def sixBits? (c : Char) : Option Nat :=
  if c.isUpper then some (c.toNat - 65)
  else if c.isLower then some (c.toNat - 71)
  else if isDigit c then some (c.toNat + 4)
  else if c == '+' then some 62
  else if c == '/' then some 63
  else none

/-- Reads groups of four signs; `held` are the bits of a group so far, `count` tells how many of
its signs are behind, and `ends` how many end marks. Other characters count for nothing. -/
def bytesFrom (held count ends : Nat) : List Char → Except Fault (List UInt8)
  | [] => if count = 0 then .ok [] else .error .construction
  | c :: r =>
    if c == '=' then
      if 2 ≤ count && 4 ≤ count + ends + 1 then .ok []
      else bytesFrom held count (if 2 ≤ count then ends + 1 else ends) r
    else
      match sixBits? c with
      | none => bytesFrom held count ends r
      | some bits =>
        let held := (held * 64 + bits) % 0x1000
        let byte (shift : Nat) : UInt8 := (held / shift % 256).toUInt8
        match count with
        | 0 => bytesFrom held 1 0 r
        | 1 => (bytesFrom held 2 0 r).map (byte 16 :: ·)
        | 2 => (bytesFrom held 3 0 r).map (byte 4 :: ·)
        | _ => (bytesFrom held 0 0 r).map (byte 1 :: ·)

def bytes (s : List Char) : Except Fault (List UInt8) :=
  if s.all (·.toNat < 128) then bytesFrom 0 0 0 s else .error .construction

def read (tag : Tag) (text : String) : Except Fault Document :=
  let s := text.toList
  match tag with
  | .nothing => .ok .null
  | .truth => (truthOf text).map .truth
  | .whole => (whole s).map fun n => .number (.whole n)
  | .double => (double s).map fun x => .number (.double x)
  | .bytes => (bytes s).map .bytes
  | .moment => (moment s).map .moment
  | .text => .ok (.text text)
  | _ => .error .construction

/-- Whether a text is a double that comes to be a NaN. -/
def becomesNaN (text : String) : Bool :=
  !isPlainNaN text && (double text.toList).toOption.any Float.isNaN

end Duel.Yaml.Scalar
