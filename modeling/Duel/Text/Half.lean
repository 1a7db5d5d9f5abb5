/-!
Texts that hold halves of characters. Where characters are written in units of sixteen bits, one
beyond the basic plane takes two, and a text can hold one of the two alone. No `Char` is such a
half, so each half has a stand-in from a plane without characters of its own. A character that is
among the stand-ins itself comes behind a mark, and so does the mark.
-/

namespace Duel.Text

def isHalf (n : Nat) : Bool := 0xD800 ≤ n && n < 0xE000

def halfShift : Nat := 0xC0000

def literalMark : Char := Char.ofNat 0xCD7FF

def isReserved (c : Char) : Bool := literalMark ≤ c && c.toNat < 0xE000 + halfShift

/-- How the character of a number, or a half, is held in a text. -/
def ofCode (n : Nat) : List Char :=
  if isHalf n then [Char.ofNat (n + halfShift)]
  else
    let c := Char.ofNat n
    if isReserved c then [literalMark, c] else [c]

def codesOf : List Char → List Nat
  | [] => []
  | c :: rest =>
    if c == literalMark then
      match rest with
      | d :: rest => d.toNat :: codesOf rest
      | [] => [c.toNat]
    else (if isReserved c then c.toNat - halfShift else c.toNat) :: codesOf rest

def codes (s : String) : List Nat :=
  if s.any isReserved then codesOf s.toList else s.toList.map Char.toNat

def ofCodes (ns : List Nat) : String := String.ofList (ns.flatMap ofCode)

def literal (s : String) : String :=
  if s.any isReserved then ofCodes (s.toList.map Char.toNat) else s

def hasHalf (s : String) : Bool := s.any isReserved && (codes s).any isHalf

/-- What stands for a half in a text without halves: a mark for each byte that it would take. -/
def halfMarks : List Nat := [0xFFFD, 0xFFFD, 0xFFFD]

def whole (s : String) : String :=
  if s.any isReserved then ofCodes ((codes s).flatMap fun n => if isHalf n then halfMarks else [n])
  else s

def halfByNumber (n : Nat) : String := "\\u" ++ String.ofList (Nat.toDigits 16 n)

def spelled (s : String) : String :=
  if s.any isReserved then
    String.join <| (codes s).map fun n =>
      if isHalf n then halfByNumber n else String.singleton (Char.ofNat n)
  else s

def size (s : String) : Nat := if s.any isReserved then (codes s).length else s.length

def letters (s : String) : List String := (codes s).map fun n => String.ofList (ofCode n)

def take (n : Nat) (s : String) : String := ofCodes ((codes s).take n)

def order (s t : String) : Ordering :=
  if s.any isReserved || t.any isReserved then compare (codes s) (codes t) else compare s t

def atMost (s t : String) : Bool := order s t != .gt

def isWithin (part : List Nat) : List Nat → Bool
  | [] => part.isEmpty
  | n :: rest => part.isPrefixOf (n :: rest) || isWithin part rest

def isPart (part whole : String) : Bool := isWithin (codes part) (codes whole)

end Duel.Text
