import Duel.Formula.Directive

namespace Duel.Formula

inductive Binary
  | add
  | sub
  | mul
  | div
  | mod
  | pow
  | concat
  | equal
  | unequal
  | atMost
  | atLeast
  | less
  | greater
  | isIn
  | negation
  | both
  | either
  | exclusive
  | rolls
  /-- The comma, which makes a list of its operands. -/
  | comma
  deriving DecidableEq, Repr

inductive Unary
  | neg
  | negation
  | sin
  | cos
  | tan
  | asin
  | acos
  | atan
  | sind
  | cosd
  | tand
  | asind
  | acosd
  | atand
  | sqrt
  | abs
  | ceil
  | floor
  | round
  | exp
  deriving DecidableEq, Repr

inductive Token
  | constant (value : Value)
  /-- An empty list of the source, which keeps what is added to it. -/
  | cell (index : Nat)
  | variable (name : String)
  | unary (op : Unary)
  | binary (op : Binary)
  | call
  deriving Repr

namespace Token

def operators : List (String × Int × Binary) :=
  [("**", 8, .pow), ("^", 8, .pow), ("%", 6, .mod), ("/", 6, .div), ("\u2219", 5, .mul),
   ("\u2022", 5, .mul), ("*", 5, .mul), ("+", 4, .add), ("-", 4, .sub), ("||", 3, .concat),
   ("==", 3, .equal), ("!=", 3, .unequal), ("<=", 3, .atMost), (">=", 3, .atLeast),
   ("<", 3, .less), (">", 3, .greater), ("in ", 3, .isIn), ("not ", 2, .negation),
   ("and ", 1, .both), ("xor ", 0, .exclusive), ("or ", 0, .either)]

def unaryWords : List (String × Unary) :=
  [("sin", .sin), ("cos", .cos), ("tan", .tan), ("asin", .asin), ("acos", .acos),
   ("atan", .atan), ("sind", .sind), ("cosd", .cosd), ("tand", .tand), ("asind", .asind),
   ("acosd", .acosd), ("atand", .atand), ("sqrt", .sqrt), ("abs", .abs), ("ceil", .ceil),
   ("floor", .floor), ("round", .round), ("not", .negation), ("exp", .exp)]

def binaryWords : List (String × Binary) :=
  [("and", .both), ("or", .either), ("xor", .exclusive), ("in", .isIn), ("D", .rolls)]

def degrees : Float := Operation.pi / 180

end Token

def Unary.function (op : Unary) (v : Value) : Outcome Value :=
  match op with
  | .neg => Operation.neg v
  | .negation => .ok v
  | .sin => Operation.onReal Float.sin v
  | .cos => Operation.onReal Float.cos v
  | .tan => Operation.onReal Float.tan v
  | .asin => Operation.onReal Float.asin v
  | .acos => Operation.onReal Float.acos v
  | .atan => Operation.onReal Float.atan v
  | .sind => Operation.onReal (fun x => Float.sin (x * Token.degrees)) v
  | .cosd => Operation.onReal (fun x => Float.cos (x * Token.degrees)) v
  | .tand => Operation.onReal (fun x => Float.tan (x * Token.degrees)) v
  | .asind => Operation.onReal (fun x => Float.asin x * (180 / Operation.pi)) v
  | .acosd => Operation.onReal (fun x => Float.acos x * (180 / Operation.pi)) v
  | .atand => Operation.onReal (fun x => Float.atan x * (180 / Operation.pi)) v
  | .sqrt => Operation.onReal Float.sqrt v
  | .abs => Operation.abs v
  | .ceil => Operation.rounding Double.ceil? v
  | .floor => Operation.rounding Double.floor? v
  | .round => Operation.rounding Operation.roundHalfEven v
  | .exp => Operation.onReal Float.exp v

end Duel.Formula
