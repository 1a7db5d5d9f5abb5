import Duel.Double.Shortest
import Duel.Text.Half
import Duel.View.Basic

namespace Duel.Json

/-- Doubles have a point, and an exponent beyond sixteen digits or five leading zeros. -/
def layout : Double.Layout where
  least := -5
  most := 16
  signedExponent := true
  exponentWidth := 1
  nan := "null"
  infinity := "null"

def number : Number → String
  | .whole n => toString n
  | .double x => if x.isFinite then layout.write x else "null"

def hexDigit (n : Nat) : Char := Char.ofNat (if n < 10 then 48 + n else 87 + n)

def escaped (c : Char) : List Char :=
  match c with
  | '"' => ['\\', '"']
  | '\\' => ['\\', '\\']
  | '\n' => ['\\', 'n']
  | '\r' => ['\\', 'r']
  | '\t' => ['\\', 't']
  | '\x08' => ['\\', 'b']
  | '\x0c' => ['\\', 'f']
  | c =>
    if c.toNat < 32 then ['\\', 'u', '0', '0', hexDigit (c.toNat / 16), hexDigit (c.toNat % 16)]
    else [c]

/-- A text in quotes. There are three marks for each half, one for each byte that it would take. -/
def quoted (s : String) : String :=
  "\"" ++ String.ofList ((Text.whole s).toList.flatMap escaped) ++ "\""

def bracketed (items : List String) : String := "[" ++ ", ".intercalate items ++ "]"

def braced (indent : String) (fields : List (String × String)) : String :=
  if fields.isEmpty then "\x7b\x7d"
  else
    let lines := fields.map fun (key, value) => indent ++ "  " ++ quoted key ++ ": " ++ value
    "\x7b\n" ++ ",\n".intercalate lines ++ "\n" ++ indent ++ "\x7d"

def scalar : Document → String
  | .truth b => if b then "true" else "false"
  | .number n => number n
  | .text s => quoted s
  | _ => "null"

def key : Document → String
  | .text s => s
  | d => scalar d

mutual

def document (indent : String) : Document → String
  | .list ds => bracketed (documents indent ds)
  | .table fields => braced indent (entries (indent ++ "  ") fields)
  | .null => scalar .null
  | .truth b => scalar (.truth b)
  | .number n => scalar (.number n)
  | .text s => scalar (.text s)
  | .moment t => scalar (.moment t)
  | .bytes b => scalar (.bytes b)
  | .set ds => bracketed (documents indent ds)
  | .endless => scalar .endless

def documents (indent : String) : List Document → List String
  | [] => []
  | d :: ds => document indent d :: documents indent ds

def entries (indent : String) : List (Document × Document) → List (String × String)
  | [] => []
  | (k, d) :: rest => (key k, document indent d) :: entries indent rest

end

mutual

def writeAt (indent : String) : View → String
  | .plain d => document indent d
  | .list vs => bracketed (writeItems indent vs)
  | .record fields => braced indent (writeFields (indent ++ "  ") fields)
  | .table fields => braced indent (writeFields (indent ++ "  ") fields)

def writeItems (indent : String) : List View → List String
  | [] => []
  | v :: vs => writeAt indent v :: writeItems indent vs

def writeFields (indent : String) : List (String × View) → List (String × String)
  | [] => []
  | (name, v) :: rest => (name, writeAt indent v) :: writeFields indent rest

end

def write (v : View) : String := writeAt "" v

end Duel.Json
