namespace Duel.Yaml

/-- A place in a text: what is still to come, and where that is. -/
structure Cursor where
  rest : List Char
  index : Nat := 0
  line : Nat := 0
  column : Nat := 0

def isBreak (c : Char) : Bool :=
  c == '\n' || c == '\r' || c == '\x85' || c == '\u2028' || c == '\u2029'

def isGap (ch : Char) : Bool := ch == ' ' || ch == '\t' || isBreak ch

def flowSigns : List Char := [',', '[', ']', '\x7b', '\x7d']

namespace Cursor

def peek (c : Cursor) (n : Nat) : Option Char := c.rest[n]?

def atBreak (c : Cursor) : Bool := (c.peek 0).any isBreak

def endsAt (c : Cursor) (n : Nat) : Bool := (c.peek n).all isBreak

def gapAt (c : Cursor) (n : Nat) : Bool := (c.peek n).all isGap

def sees (c : Cursor) (ch : Char) : Bool := c.peek 0 == some ch

def seesAny (c : Cursor) (chars : String) : Bool :=
  (c.peek 0).any fun ch => chars.toList.contains ch

/-- Goes one character on. The two characters of one line end count as one end. -/
def forward (c : Cursor) : Cursor :=
  match c.rest with
  | [] => c
  | ch :: rest =>
    if isBreak ch && !(ch == '\r' && rest.head? == some '\n') then
      { rest, index := c.index + 1, line := c.line + 1, column := 0 }
    else
      { rest, index := c.index + 1, line := c.line
        column := if ch == '\uFEFF' then c.column else c.column + 1 }

def forwardBy (c : Cursor) : Nat → Cursor
  | 0 => c
  | n + 1 => c.forward.forwardBy n

def takeWhile (c : Cursor) (p : Char → Bool) : List Char × Cursor :=
  let run := c.rest.takeWhile p
  (run, c.forwardBy run.length)

def skipWhile (c : Cursor) (p : Char → Bool) : Cursor := (c.takeWhile p).2

/-- Reads a line end, if there is one; all but the two separators count as the same. -/
def lineBreak (c : Cursor) : List Char × Cursor :=
  match c.rest with
  | '\r' :: '\n' :: _ => (['\n'], c.forwardBy 2)
  | ch :: _ =>
    if ch == '\u2028' || ch == '\u2029' then ([ch], c.forward)
    else if isBreak ch then (['\n'], c.forward)
    else ([], c)
  | [] => ([], c)

def atSeparator (c : Cursor) : Bool :=
  (c.rest.take 3 == ['-', '-', '-'] || c.rest.take 3 == ['.', '.', '.']) && c.gapAt 3

def toLineEnd (c : Cursor) : Cursor := c.skipWhile (!isBreak ·)

end Cursor

end Duel.Yaml
