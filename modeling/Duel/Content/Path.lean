import Duel.Text.Half
import Duel.Text.Lower

namespace Duel.Content.Path

def parts (path : String) : List String :=
  ((path.toList.splitOn '/').map String.ofList).filter fun part => part != "" && part != "."

def ofParts (parts : List String) : String := "/".intercalate parts

def relative (path : String) : String := ofParts (parts path)

/-- A path without parts that say nothing. Two strokes at the start differ from one and from
three. -/
def tidy (path : String) : String :=
  let strokes := (path.toList.takeWhile (· == '/')).length
  let start := if strokes = 0 then "" else if strokes = 2 then "//" else "/"
  let whole := start ++ ofParts (parts path)
  if whole.isEmpty then "." else whole

/-- The end of a name from its last point on; a point at either end of the name counts for
nothing. -/
def suffix (name : String) : String :=
  let cs := name.toList
  let tail := (cs.reverse.takeWhile (· != '.')).reverse
  if tail.isEmpty || cs.length ≤ tail.length + 1 then "" else String.ofList ('.' :: tail)

def suffixOf (path : String) : String := Text.lower (suffix ((parts path).getLastD ""))

/-- Whether a half stands for a byte that is no text. -/
def isByte (n : Nat) : Bool := 0xDC80 ≤ n && n < 0xDD00

def hasBytes (path : String) : Bool :=
  !Text.hasHalf path || (Text.codes path).all fun n => !Text.isHalf n || isByte n

def bytes (path : String) : List UInt8 :=
  (Text.codes path).flatMap fun n =>
    if Text.isHalf n then [UInt8.ofNat n] else (Char.ofNat n).toString.toUTF8.toList

/-- Reads bytes as text; `fuel` is at least their number. A byte that is none has a half for it. -/
def codesOfBytes : (fuel : Nat) → List UInt8 → List Nat
  | 0, _ | _, [] => []
  | fuel + 1, b :: rest =>
    let long? := [1, 2, 3, 4].findSome? fun n =>
      let head := (b :: rest).take n
      (String.fromUTF8? ⟨head.toArray⟩).bind fun s => s.toList.head?.map fun c => (n, c)
    match long? with
    | some (n, c) => c.toNat :: codesOfBytes fuel ((b :: rest).drop n)
    | none => (b.toNat + 0xDC00) :: codesOfBytes fuel rest

def found (path : String) : String :=
  if Text.hasHalf path then
    let bs := bytes path
    Text.ofCodes (codesOfBytes bs.length bs)
  else path

/-- A name of more bytes is refused wherever it is looked up. -/
def nameLimit : Nat := 255

/-- A path of as many bytes is refused before any part of it is looked up. -/
def pathLimit : Nat := 4096

def isLong (name : String) : Bool := nameLimit < (bytes name).length

end Duel.Content.Path
