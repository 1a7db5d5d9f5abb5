namespace Duel.Double

inductive Fault
  | notANumber
  | infinite
  | outsized
  /-- A whole number with more digits than are written. -/
  | lengthy
  deriving DecidableEq, Repr

/-- What the bits of a double stand for; a finite one is `mantissa * 2 ^ exponent` with a sign. -/
inductive Reading
  | nan
  | infinite (negative : Bool)
  | finite (negative : Bool) (mantissa : Nat) (exponent : Int)
  deriving DecidableEq, Repr

/-- The leading bit of a mantissa, which the bits of a double leave out. -/
def leadingBit : Nat := 0x10000000000000

def read (x : Float) : Reading :=
  let bits := x.toBits.toNat
  let negative := decide (0x8000000000000000 ≤ bits)
  let field : Nat := bits / leadingBit % 2048
  let fraction : Nat := bits % leadingBit
  if field = 2047 then
    if fraction = 0 then .infinite negative else .nan
  else if field = 0 then .finite negative fraction (-1074)
  else .finite negative (fraction + leadingBit) ((field : Int) - 1075)

def signed (negative : Bool) (magnitude : Float) : Float :=
  if negative then -magnitude else magnitude

def infinity : Float := Float.ofBits 0x7ff0000000000000

def nan : Float := Float.ofBits 0x7ff8000000000000

/-- The double nearest to `num / den`, the even neighbour on a tie, infinite when out of range.
The bits of a finite double count the doubles below it, so a carry needs no case of its own. -/
def nearest (num den : Nat) : Float :=
  if num = 0 then Float.ofBits 0 else
  let guess : Int := (num.log2 : Int) - den.log2 - 52
  let scaled (e : Int) : Nat × Nat :=
    if 0 ≤ e then (num, den <<< e.toNat) else (num <<< (-e).toNat, den)
  let short (e : Int) : Bool := decide ((scaled e).1 / (scaled e).2 < leadingBit)
  let e := max (-1074) (if short guess then guess - 1 else guess)
  let (a, b) := scaled e
  let q := a / b
  let r := a % b
  let q := if b < 2 * r ∨ (2 * r = b ∧ q % 2 = 1) then q + 1 else q
  let bits := (e + 1074).toNat * leadingBit + q
  if 2047 * leadingBit ≤ bits then infinity else Float.ofBits (UInt64.ofNat bits)

def ofDecimal (negative : Bool) (digits : Nat) (exponent : Int) : Float :=
  let length : Int := (digits.log2 : Int) / 4
  let magnitude :=
    if digits = 0 then Float.ofBits 0
    else if 400 < exponent then infinity
    else if exponent + (digits.log2 : Int) + 1 < -400 then Float.ofBits 0
    else if 400 < exponent + length then infinity
    else if 0 ≤ exponent then nearest (digits * Nat.pow 10 exponent.toNat) 1
    else nearest digits (Nat.pow 10 (-exponent).toNat)
  signed negative magnitude

def ofInt? (n : Int) : Except Fault Float :=
  let magnitude := nearest n.natAbs 1
  if magnitude.isFinite then .ok (signed (n < 0) magnitude) else .error .outsized

def floor? (x : Float) : Except Fault Int :=
  match read x with
  | .nan => .error .notANumber
  | .infinite _ => .error .infinite
  | .finite negative m e =>
    let v : Int := if negative then -(m : Int) else m
    if 0 ≤ e then .ok (v <<< e.toNat) else .ok (v >>> (-e).toNat)

def ceil? (x : Float) : Except Fault Int :=
  (floor? (-x)).map fun n => -n

def whole? (x : Float) : Option Int :=
  match floor? x, ceil? x with
  | .ok a, .ok b => if a = b then some a else none
  | _, _ => none

def truncate? (x : Float) : Except Fault Int :=
  if x < Float.ofBits 0 then ceil? x else floor? x

end Duel.Double
