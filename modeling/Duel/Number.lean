import Duel.Double

namespace Duel

/-- The numbers that durations and damage factors are written in. The rules need no more than
this, so their laws can be read over exact fractions while a program runs them on `Number`. -/
class Scalar (R : Type) where
  ofInt : Int → R
  half : R
  add : R → R → Except Double.Fault R
  sub : R → R → Except Double.Fault R
  less : R → R → Bool
  atMost : R → R → Bool
  isFinite : R → Bool
  /-- The number as one that comes from measuring, which need not be exact. -/
  measured : R → R
  /-- The product with a whole number. -/
  scale : Int → R → Except Double.Fault R
  floor : R → Except Double.Fault Int

namespace Scalar

variable {R : Type} [Scalar R]

def zero : R := ofInt 0

def one : R := ofInt 1

def positivePart (x : R) : R := if less zero x then x else measured zero

def measure? (x : R) : Option R :=
  if isFinite x && !isFinite (measured x) then none else some (measured x)

def larger (x y : R) : R := if less x y then y else x

/-- The nearest number between zero and one; zero where there is no order. -/
def clampUnit (x : R) : R :=
  let y := positivePart x
  measured (if less y one then y else one)

/-- Finite and not negative, as a length of time has to be. -/
def isLength (x : R) : Bool := isFinite x && !less x zero

def roundHalfUp (x : R) : Except Double.Fault Int := add x half >>= floor

def scaleDown (n : Int) (x : R) : Except Double.Fault Int := scale n x >>= floor

def least? : List R → Option R
  | [] => none
  | x :: xs => some (xs.foldl (fun best y => if less y best then y else best) x)

end Scalar

instance : Scalar Rat where
  ofInt n := n
  half := 1 / 2
  add x y := .ok (x + y)
  sub x y := .ok (x - y)
  less x y := decide (x < y)
  atMost x y := decide (x ≤ y)
  isFinite _ := true
  measured x := x
  scale n x := .ok (n * x)
  floor x := .ok x.floor

/-- A number as content and callers write it: a whole number of any size, or a double. -/
inductive Number
  | whole (n : Int)
  | double (x : Float)
  deriving Repr, Inhabited

namespace Number

instance : OfNat Number n := ⟨.whole n⟩

/-- The largest count of digits that a whole number is written with. -/
def digitLimit : Nat := 4300

def digits (n : Int) : Except Double.Fault String :=
  if 14285 ≤ n.natAbs.log2 then .error .lengthy
  else
    let t := toString n.natAbs
    if digitLimit < t.length then .error .lengthy else .ok (if n < 0 then "-" ++ t else t)

/-- The nearest double, infinite for whole numbers beyond the doubles. -/
def toDouble : Number → Float
  | whole n => Double.signed (n < 0) (Double.nearest n.natAbs 1)
  | double x => x

/-- Compares a whole number with a double exactly; nothing compares with a NaN. -/
def compareWhole (n : Int) (x : Float) : Option Ordering :=
  match Double.read x with
  | .nan => none
  | .infinite negative => some (if negative then .gt else .lt)
  | .finite negative m e =>
    let v : Int := if negative then -(m : Int) else m
    some (if 0 ≤ e then compare n (v <<< e.toNat) else compare (n <<< (-e).toNat) v)

def compare? : Number → Number → Option Ordering
  | whole a, whole b => some (compare a b)
  | whole a, double y => compareWhole a y
  | double x, whole b => (compareWhole b x).map Ordering.swap
  | double x, double y =>
    if x < y then some .lt else if y < x then some .gt else if x == y then some .eq else none

def less (x y : Number) : Bool := compare? x y == some .lt

def atMost (x y : Number) : Bool := compare? x y == some .lt || compare? x y == some .eq

def same (x y : Number) : Bool := compare? x y == some .eq

def isNaN : Number → Bool
  | whole _ => false
  | double x => x.isNaN

def double? : Number → Except Double.Fault Float
  | whole n => Double.ofInt? n
  | double x => .ok x

/-- Exact on whole numbers; where one of two is a double, both have to be. -/
def arith (f : Int → Int → Int) (g : Float → Float → Float) :
    Number → Number → Except Double.Fault Number
  | whole a, whole b => .ok (whole (f a b))
  | x, y => do return double (g (← x.double?) (← y.double?))

instance : Scalar Number where
  ofInt := whole
  half := double 0.5
  add := arith (· + ·) (· + ·)
  sub := arith (· - ·) (· - ·)
  less := less
  atMost := atMost
  isFinite
    | whole _ => true
    | double x => x.isFinite
  measured x := double x.toDouble
  scale n
    | whole m => .ok (whole (n * m))
    | double x => (Double.ofInt? n).map fun y => double (y * x)
  floor
    | whole n => .ok n
    | double x => Double.floor? x

end Number

end Duel
