import Duel.Field
import Duel.Formula.Failure
import Duel.Text.Digit

namespace Duel.Formula

inductive Function
  | random
  | fac
  | log
  | min
  | max
  | pyt
  | pow
  | atan2
  | concat
  | choose
  | floor
  | ceil
  deriving DecidableEq, Repr

def Function.named : List (String × Function) :=
  [("random", .random), ("fac", .fac), ("log", .log), ("min", .min), ("max", .max),
   ("pyt", .pyt), ("pow", .pow), ("atan2", .atan2), ("concat", .concat), ("if", .choose),
   ("floor", .floor), ("ceil", .ceil)]

/-- The values of a formula. Lists and tables are known by their place in a store, since what is
added to a list shows wherever it is used. -/
inductive Value
  | nothing
  | whole (n : Int)
  | double (x : Float)
  /-- A NaN equals no value, but it is found in a list that it was put into. -/
  | nan (mark : Nat)
  | truth (b : Bool)
  | text (s : String)
  /-- A complex number; one with a part that is NaN has a mark, as a NaN has. -/
  | complex (re im : Float) (mark : Option Nat)
  | list (place : Nat)
  | table (place : Nat)
  | function (f : Function)
  deriving Repr, Inhabited

namespace Value

def number? : Value → Option Number
  | whole n => some (.whole n)
  | truth b => some (.whole (if b then 1 else 0))
  | double x => some (.double x)
  | nan _ => some (.double Double.nan)
  | _ => none

def ofNumber : Number → Value
  | .whole n => whole n
  | .double x => double x

/-- Whether two values are one and the same thing. Of the others it is enough that they are
equal. -/
def isSame : Value → Value → Bool
  | list i, list j => i == j
  | table i, table j => i == j
  | nan i, nan j => i == j
  | complex _ _ (some i), complex _ _ (some j) => i == j
  | _, _ => false

/-- Drops underscores that stand between two digits; any other underscore is refused. -/
def ungroup? : Bool → List Char → Option (List Char)
  | _, [] => some []
  | afterDigit, '_' :: d :: r =>
    if afterDigit && d.isDigit then (ungroup? true r).map (d :: ·) else none
  | _, '_' :: [] => none
  | _, c :: r => (ungroup? c.isDigit r).map (c :: ·)

def doubleOfText? (s : String) : Option Float :=
  ungroup? false (Text.numeral s.toList) >>= Field.realOfChars?

end Value

end Duel.Formula
