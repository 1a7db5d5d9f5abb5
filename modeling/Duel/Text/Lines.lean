namespace Duel.Text

/-- Writes the end of each line in one way, where it may be written in three. -/
def unifyChars : List Char → List Char
  | '\r' :: '\n' :: r => '\n' :: unifyChars r
  | '\r' :: r => '\n' :: unifyChars r
  | c :: r => c :: unifyChars r
  | [] => []

def unifyBreaks (s : String) : String := String.ofList (unifyChars s.toList)

/-- Ends a line, beside the two that a line can end with together. -/
def isBreak (c : Char) : Bool :=
  [0x0a, 0x0b, 0x0c, 0x0d, 0x1c, 0x1d, 0x1e, 0x85, 0x2028, 0x2029].contains c.toNat

def cutLines : List Char → List (List Char)
  | [] => []
  | c :: r =>
    if isBreak c then [] :: cutLines r
    else
      match cutLines r with
      | [] => [[c]]
      | line :: rest => (c :: line) :: rest

/-- The lines of a text; after the last end of a line nothing is left. -/
def lines (s : String) : List String := (cutLines (unifyChars s.toList)).map String.ofList

end Duel.Text
