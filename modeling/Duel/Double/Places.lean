import Duel.Double

namespace Duel.Double

def roundDiv (num den : Nat) : Nat :=
  let q := num / den
  let r := num % den
  if den < 2 * r ∨ (2 * r = den ∧ q % 2 = 1) then q + 1 else q

/-- A finite double without its sign, as `mantissa * 2 ^ exponent`. -/
structure Magnitude where
  mantissa : Nat
  exponent : Int

namespace Magnitude

def ratio (x : Magnitude) (places : Int) : Nat × Nat :=
  (x.mantissa * (1 <<< x.exponent.toNat) * Nat.pow 10 places.toNat,
    (1 <<< (-x.exponent).toNat) * Nat.pow 10 (-places).toNat)

def digits (x : Magnitude) (places : Int) : Nat :=
  let (num, den) := x.ratio places
  roundDiv num den

/-- More places than any double needs to its first digit. -/
def deep : Int := 400

def power (x : Magnitude) : Int :=
  let (num, den) := x.ratio deep
  if x.mantissa = 0 then 0 else ((toString (num / den)).length : Int) - 1 - deep

def leading (x : Magnitude) (count : Nat) : String × Int :=
  let p := x.power
  let s := toString (x.digits ((count : Int) - 1 - p))
  if count < s.length then ((s.take count).toString, p + 1)
  else (s ++ String.ofList (List.replicate (count - s.length) '0'), p)

def zeros (n : Nat) : String := String.ofList (List.replicate n '0')

def withPoint (s : String) (places : Nat) (pointed : Bool) : String :=
  let s := zeros (places + 1 - s.length) ++ s
  let before := (s.take (s.length - places)).toString
  let after := (s.drop (s.length - places)).toString
  if places = 0 then (if pointed then before ++ "." else before) else before ++ "." ++ after

def fixed (x : Magnitude) (places : Nat) (pointed : Bool) : String :=
  withPoint (toString (x.digits places)) places pointed

def exponentText (p : Int) : String :=
  let s := toString p.natAbs
  (if p < 0 then "e-" else "e+") ++ (if s.length < 2 then "0" else "") ++ s

def scientific (x : Magnitude) (places : Nat) (pointed : Bool) : String :=
  let (s, p) := x.leading (places + 1)
  withPoint s places pointed ++ exponentText p

def trimmed (s : String) : String :=
  if s.contains '.' then ((s.dropEndWhile '0').toString.dropEndWhile '.').toString else s

def general (x : Magnitude) (count : Nat) (pointed : Bool) : String :=
  let count := max 1 count
  let (s, p) := x.leading count
  let trim (s : String) : String := if pointed then s else trimmed s
  if p < -4 ∨ count ≤ p then trim (withPoint s (count - 1) pointed) ++ exponentText p
  else
    let places := ((count : Int) - 1 - p).toNat
    trim (withPoint s places pointed)

end Magnitude

end Duel.Double
