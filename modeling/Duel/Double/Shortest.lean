import Duel.Double

namespace Duel.Double.Shortest

/-- Decimal digits with the power of ten of the first one. -/
structure Digits where
  digits : Nat
  exponent : Int
  deriving DecidableEq, Repr

/-- The power of ten of the first digit of `num / den`, searched from `guess` downwards. -/
def leadingFrom (num den : Nat) : Nat → Int → Int
  | 0, guess => guess
  | fuel + 1, guess =>
    let reached :=
      if 0 ≤ guess then den * Nat.pow 10 guess.toNat ≤ num
      else den ≤ num * Nat.pow 10 (-guess).toNat
    if reached then guess else leadingFrom num den fuel (guess - 1)

def leading (num den : Nat) : Int := leadingFrom num den 700 310

/-- The point of the grid of `count` digits that lies in the interval from `lo` to `hi` and is
nearest to `v`, all over the denominator `den`; the even point of two equally near ones. -/
def onGrid (v lo hi den : Nat) (closed : Bool) (lead : Int) (count : Nat) : Option Digits :=
  let step : Int := lead - count + 1
  let up := Nat.pow 10 step.toNat
  let down := Nat.pow 10 (-step).toNat
  let unit := den * up
  let below := v * down / unit
  let inside (d : Nat) : Bool :=
    let p := d * unit
    if closed then decide (lo * down ≤ p ∧ p ≤ hi * down)
    else decide (lo * down < p ∧ p < hi * down)
  let past := v * down - below * unit
  let ahead := (below + 1) * unit - v * down
  match inside below, inside (below + 1) with
  | true, true =>
    if past < ahead ∨ (past = ahead ∧ below % 2 = 0) then some ⟨below, step⟩
    else some ⟨below + 1, step⟩
  | true, false => some ⟨below, step⟩
  | false, true => some ⟨below + 1, step⟩
  | false, false => none

/-- Trailing zeros carry no information, so they move into the exponent. -/
def trim : Nat → Digits → Digits
  | 0, d => d
  | fuel + 1, d =>
    if d.digits % 10 = 0 ∧ d.digits ≠ 0 then trim fuel ⟨d.digits / 10, d.exponent + 1⟩ else d

/-- The fewest digits that read back as the double, and of those the nearest. Here `exponent` is
the power of ten of the last digit. -/
def ofFinite (m : Nat) (e : Int) : Digits :=
  if m = 0 then ⟨0, 0⟩ else
  let den := 4 <<< (-e).toNat
  let unit := 1 <<< e.toNat
  let v := 4 * m * unit
  let lo := if m = leadingBit ∧ -1074 < e then v - unit else v - 2 * unit
  let hi := v + 2 * unit
  let lead := leading v den
  let found := (List.range 17).findSome? fun i => onGrid v lo hi den (m % 2 = 0) lead (i + 1)
  trim 400 (found.getD ⟨0, 0⟩)

end Duel.Double.Shortest

namespace Duel.Double

/-- How the digits of a double are laid out as text. -/
structure Layout where
  /-- Positional notation needs the point to stand more than this many places left of the digits. -/
  least : Int
  /-- Positional notation needs the point to stand at most this many places right of the start. -/
  most : Int
  signedExponent : Bool
  exponentWidth : Nat
  nan : String
  infinity : String
  deriving Repr

def padLeft (width : Nat) (s : String) : String :=
  String.ofList (List.replicate (width - s.length) '0') ++ s

/-- A whole double keeps `.0` in positional notation, so that it reads back as a double. -/
def Layout.write (layout : Layout) (x : Float) : String :=
  match read x with
  | .nan => layout.nan
  | .infinite negative => (if negative then "-" else "") ++ layout.infinity
  | .finite negative m e =>
    let d := Shortest.ofFinite m e
    let digits := toString d.digits
    let point : Int := if m = 0 then 1 else d.exponent + digits.length
    let sign := if negative then "-" else ""
    let body :=
      if layout.least < point ∧ point ≤ layout.most then
        if point ≤ 0 then "0." ++ padLeft (digits.length + (-point).toNat) digits
        else if (digits.length : Int) ≤ point then
          digits ++ String.ofList (List.replicate (point.toNat - digits.length) '0') ++ ".0"
        else (digits.take point.toNat).toString ++ "." ++ (digits.drop point.toNat).toString
      else
        let power := point - 1
        let mark := if power < 0 then "-" else if layout.signedExponent then "+" else ""
        let head := (digits.take 1).toString
        let tail := (digits.drop 1).toString
        head ++ (if tail.isEmpty then "" else "." ++ tail) ++ "e" ++ mark ++
          padLeft layout.exponentWidth (toString power.natAbs)
    sign ++ body

/-- The plain layout: positional from a ten-thousandth up to sixteen places, a sign and two digits
in an exponent. -/
def plain : Layout := ⟨-4, 16, true, 2, "nan", "inf"⟩

end Duel.Double
