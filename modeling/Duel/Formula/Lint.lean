import Duel.Formula.Cache

namespace Duel.Formula.Lint

def symbols : List String := ["baseBlock", "baseDamage", "stacks"]

def functions : List String := ["ceil", "floor", "max", "min"]

/-- The longest runs of word characters, each with what follows it. -/
def runs : List Char → List Char → List (List Char × List Char)
  | [], [] => []
  | run, [] => [(run.reverse, [])]
  | run, c :: r =>
    if Text.isWordChar c then runs (c :: run) r
    else if run.isEmpty then runs [] r
    else (run.reverse, c :: r) :: runs [] r

def isPlainStart (c : Char) : Bool := c.isAlpha || c == '_'

def isPlain (run : List Char) : Bool :=
  match run with
  | [] => false
  | c :: r => isPlainStart c && r.all fun c => isPlainStart c || c.isDigit

def names (source : String) : List (String × Bool) :=
  ((runs [] source.toList).filter fun r => isPlain r.1).map fun (run, rest) =>
    (String.ofList run, (rest.dropWhile Text.isSpacing).head? == some '(')

def insertSorted (s : String) : List String → List String
  | [] => [s]
  | t :: rest => if s < t then s :: t :: rest else if s == t then t :: rest
    else t :: insertSorted s rest

def sorted (xs : List String) : List String := xs.foldr insertSorted []

def calls (source : String) : List String :=
  sorted ((names source).filterMap fun (n, call) => if call then some n else none)

def reads (source : String) : List String :=
  let called := calls source
  sorted ((names source).filterMap fun (n, _) => if called.contains n then none else some n)

def unknownCalls (source : String) : List String :=
  (calls source).filter fun n => !functions.contains n

def unknownReads (source : String) : List String :=
  (reads source).filter fun n => !symbols.contains n

def listed (xs : List String) : String := "[" ++ ", ".intercalate (xs.map Text.quoted) ++ "]"

def complaints (source : String) : List String :=
  let calls := unknownCalls source
  let reads := unknownReads source
  (if calls.isEmpty then [] else ["unknown function(s): " ++ listed calls]) ++
  (if reads.isEmpty then []
   else ["unknown symbol(s): " ++ listed reads ++ "; allowed: " ++ listed symbols])

def report (file place source : String) (readable : Outcome Unit) : List String :=
  let lines :=
    match readable with
    | .error e => ["invalid expression syntax: " ++ e.text]
    | .ok () => complaints source
  lines.map fun l => file ++ ":" ++ place ++ ": " ++ l

def ofDocument (file place : String) (d : Document) : Kept (List String) := do
  let report := report file place
  match d with
  | .number _ | .truth _ => throw (.mismatch "expected string or bytes-like object")
  | .text s => return report s (← (Cache.checkOf d).outcome)
  | _ => return report "" (← (Cache.checkOf d).outcome)

end Duel.Formula.Lint
