import Duel.Double

namespace Duel.Double

/-- The root of the sum of two squares, the larger number first. The rounding error of the plain
root is worked out from the difference to one of the two numbers and taken away. -/
def correctedRoot (a b : Float) : Float :=
  let h := Float.sqrt (a * a + b * b)
  let rest :=
    if h ≤ 2 * b then
      let d := h - b
      a * (2 * d - a) + (d - 2 * (a - b)) * d
    else
      let d := h - a
      2 * d * (a - 2 * b) + ((4 * d - b) * b + d * d)
  h - rest / (2 * h)

def powerOfTwo (e : Int) : Float := Float.scaleB 1 e

/-- The length of the way from the origin to a point of the plane. What is too large or too small
for its square is scaled first, and beside a much larger number a small one is only added. -/
def hypotenuse (x y : Float) : Float :=
  if x.isInf || y.isInf then infinity
  else if x.isNaN || y.isNaN then nan
  else
    let (x, y) := (x.abs, y.abs)
    let (a, b) := if x < y then (y, x) else (x, y)
    let scale := powerOfTwo (-600)
    let negligible := powerOfTwo (-54)
    if powerOfTwo 511 < a then
      if b ≤ a * negligible then a + b else correctedRoot (a * scale) (b * scale) / scale
    else if b < powerOfTwo (-459) then
      if b / negligible ≤ a then a + b else correctedRoot (a / scale) (b / scale) * scale
    else if b ≤ a * negligible then a + b
    else correctedRoot a b

end Duel.Double
