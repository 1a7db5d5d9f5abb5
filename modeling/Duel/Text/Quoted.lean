import Duel.Text.Half
import Duel.Text.Hidden

namespace Duel.Text

def hexDigits (width n : Nat) : List Char :=
  let ds := Nat.toDigits 16 n
  List.replicate (width - ds.length) '0' ++ ds

/-- A character by its number, in as few digits as its number asks for. -/
def byNumber (n : Nat) : List Char :=
  if n < 256 then ['\\', 'x'] ++ hexDigits 2 n
  else if n < 65536 then ['\\', 'u'] ++ hexDigits 4 n
  else ['\\', 'U'] ++ hexDigits 8 n

def quotedCode (quote : Char) (n : Nat) : List Char :=
  let c := Char.ofNat n
  if c == quote || c == '\\' then ['\\', c]
  else if c == '\n' then ['\\', 'n']
  else if c == '\r' then ['\\', 'r']
  else if c == '\t' then ['\\', 't']
  else if isHalf n || isHidden c then byNumber n
  else [c]

/-- A text in single quotes, or in double ones where that saves a mark before a quote. -/
def quoted (s : String) : String :=
  let quote := if s.contains '\'' && !s.contains '"' then '"' else '\''
  String.ofList ([quote] ++ (codes s).flatMap (quotedCode quote) ++ [quote])

def quotedByte (quote : Char) (b : UInt8) : List Char :=
  let c := Char.ofNat b.toNat
  if c == quote || c == '\\' then ['\\', c]
  else if c == '\n' then ['\\', 'n']
  else if c == '\r' then ['\\', 'r']
  else if c == '\t' then ['\\', 't']
  else if b < 32 || 127 ≤ b then byNumber b.toNat
  else [c]

def quotedBytes (bs : List UInt8) : String :=
  let quote := if bs.contains 39 && !bs.contains 34 then '"' else '\''
  String.ofList (['b', quote] ++ bs.flatMap (quotedByte quote) ++ [quote])

def asciiOnly (s : String) : String :=
  String.ofList ((codes s).flatMap fun n => if n < 128 then [Char.ofNat n] else byNumber n)

end Duel.Text
