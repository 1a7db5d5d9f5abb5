import Duel.Double.Root
import Duel.Double.Shortest
import Duel.Formula.Failure

namespace Duel.Formula.Plane

abbrev Point := Float × Float

/-- The parts have no `.0`, and a real part that is nought is left out. -/
def text (z : Point) : String :=
  let part (x : Float) : String :=
    let s := Double.plain.write x
    if s.endsWith ".0" then (s.dropEnd 2).toString else s
  let im := part z.2
  let signed := if im.startsWith "-" then im else "+" ++ im
  if z.1.toBits = 0 then im ++ "j" else "(" ++ part z.1 ++ signed ++ "j)"

def times (z w : Point) : Point := (z.1 * w.1 - z.2 * w.2, z.1 * w.2 + z.2 * w.1)

/-- Divides by the larger part of the divisor first, so that nothing overflows on the way. -/
def quotient (z w : Point) : Outcome Point :=
  if w.1 == 0 && w.2 == 0 then .error .zeroDivisor
  else if w.2.abs ≤ w.1.abs then
    let r := w.2 / w.1
    let d := w.1 + w.2 * r
    .ok ((z.1 + z.2 * r) / d, (z.2 - z.1 * r) / d)
  else
    let r := w.1 / w.2
    let d := w.1 * r + w.2
    .ok ((z.1 * r + z.2) / d, (z.2 * r - z.1) / d)

def size (z : Point) : Outcome Float :=
  let x := Double.hypotenuse z.1 z.2
  if x.isInf && z.1.isFinite && z.2.isFinite then .error .overflow else .ok x

def powerOf : Nat → Nat → Point → Point → Point
  | 0, _, r, _ => r
  | fuel + 1, n, r, p =>
    if n = 0 then r
    else powerOf fuel (n / 2) (if n % 2 = 1 then times r p else r) (times p p)

def one : Point := (1, 0)

def wholePower (z : Point) (n : Int) : Outcome Point :=
  let p := powerOf n.natAbs n.natAbs one z
  if 0 < n then .ok p else quotient one p

/-- The power with any exponent, by length and angle. An angle without end has no direction. -/
def polarPower (z w : Point) : Outcome Point :=
  if w.1 == 0 && w.2 == 0 then .ok one
  else if z.1 == 0 && z.2 == 0 then
    if w.2 != 0 || w.1 < 0 then .error .zeroDivisor else .ok (0, 0)
  else
    let size := Double.hypotenuse z.1 z.2
    let angle := Float.atan2 z.2 z.1
    let length := Float.pow size w.1
    let phase := angle * w.1
    let (length, phase) :=
      if w.2 == 0 then (length, phase)
      else (length / Float.exp (angle * w.2), phase + w.2 * Float.log size)
    if phase.isInf then .error .zeroDivisor
    else .ok (length * Float.cos phase, length * Float.sin phase)

def squaringLimit : Int := 100

def power (z w : Point) : Outcome Point := do
  let r ←
    match if w.2 == 0 then Double.whole? w.1 else none with
    | some n => if n.natAbs ≤ squaringLimit then wholePower z n else polarPower z w
    | none => polarPower z w
  if r.1.isInf || r.2.isInf then .error .overflow else return r

end Duel.Formula.Plane
