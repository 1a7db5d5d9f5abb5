import Duel.Double.Places
import Duel.Formula.Store

namespace Duel.Formula.Operation

def mismatched {α : Type} : Outcome α := .error (.mismatch "")

def fromNumber {α : Type} (r : Except Double.Fault α) : Outcome α := r.mapError Failure.ofNumber

def fits (n : Number) : Outcome Float :=
  match n with
  | .whole k => fromNumber (Double.ofInt? k)
  | .double x => .ok x

def real (v : Value) : Outcome Float :=
  match v.number? with
  | some n => fits n
  | none => mismatched

def whole (v : Value) : Outcome Int :=
  match v.number? with
  | some (.whole n) => .ok n
  | _ => mismatched

def point (v : Value) : Outcome Plane.Point :=
  match v with
  | .complex re im _ => .ok (re, im)
  | v => do return (← real v, 0)

def onPlane (z : Plane.Point) : Value := .complex z.1 z.2 none

def arith (exact : Int → Int → Outcome Value) (rounded : Float → Float → Outcome Value)
    (plane : Plane.Point → Plane.Point → Outcome Value) (a b : Value) : Outcome Value :=
  match a.number?, b.number? with
  | some (.whole m), some (.whole n) => exact m n
  | some m, some n => do rounded (← fits m) (← fits n)
  | _, _ =>
    match a, b with
    | .complex .., _ | _, .complex .. => do plane (← point a) (← point b)
    | _, _ => mismatched

def add (a b : Value) : Outcome Value :=
  match a, b with
  | .text s, .text t => .ok (.text (s ++ t))
  | a, b =>
    arith (fun m n => .ok (.whole (m + n))) (fun x y => .ok (.double (x + y)))
      (fun z w => .ok (onPlane (z.1 + w.1, z.2 + w.2))) a b

def sub (a b : Value) : Outcome Value :=
  arith (fun m n => .ok (.whole (m - n))) (fun x y => .ok (.double (x - y)))
    (fun z w => .ok (onPlane (z.1 - w.1, z.2 - w.2))) a b

def mul (a b : Value) : Outcome Value :=
  arith (fun m n => .ok (.whole (m * n))) (fun x y => .ok (.double (x * y)))
    (fun z w => .ok (onPlane (Plane.times z w))) a b

def wordLimit : Nat := 0x8000000000000000

def room : Nat := 0x40000000

/-- How often something of a given length is repeated; nothing is repeated less than never. -/
def copies (length : Nat) (n : Int) (beyond : Failure) : Outcome Nat :=
  if n < -(wordLimit : Int) ∨ (wordLimit : Int) ≤ n then .error .overflow
  else if length = 0 then .ok 0
  else if wordLimit ≤ n.toNat * length then .error beyond
  else if room < n.toNat * length then .error .tooLong
  else .ok n.toNat

def repeatText : Nat → Nat → String → String → String
  | 0, _, out, _ => out
  | fuel + 1, n, out, s =>
    if n = 0 then out
    else repeatText fuel (n / 2) (if n % 2 = 1 then out ++ s else out) (if n ≤ 1 then s else s ++ s)

def timesText (s : String) (v : Value) : Outcome Value := do
  let n ← copies (Text.size s) (← whole v) .overflow
  return .text (repeatText (n.log2 + 1) n "" s)

def timesItems (xs : List Value) (v : Value) : Outcome (List Value) := do
  let n ← copies xs.length (← whole v) .tooLong
  return (List.replicate n xs).flatten

def quotient (m n : Int) : Outcome Value :=
  if n = 0 then .error .zeroDivisor
  else
    let x := Double.nearest m.natAbs n.natAbs
    if x.isFinite then .ok (.double (Double.signed ((m < 0) != (n < 0)) x)) else .error .overflow

def div (a b : Value) : Outcome Value :=
  arith quotient
    (fun x y => if y == 0 then .error .zeroDivisor else .ok (.double (x / y)))
    (fun z w => (Plane.quotient z w).map onPlane) a b

/-- The remainder of doubles, with the sign of the divisor. It is exact. -/
def remainder (x y : Float) : Float :=
  match Double.read x, Double.read y with
  | .finite nx mx ex, .finite ny my ey =>
    let e := min ex ey
    let a : Int := (mx : Int) <<< (ex - e).toNat
    let b : Int := (my : Int) <<< (ey - e).toNat
    let a := if nx then -a else a
    let r := a.emod b
    if r = 0 then Double.signed ny 0
    else
      let r := if ny then r - b else r
      let size := r.natAbs
      Double.signed (r < 0)
        (if 0 ≤ e then Double.nearest (size <<< e.toNat) 1
         else Double.nearest size (1 <<< (-e).toNat))
  | .finite nx mx _, .infinite ny =>
    if mx = 0 then Double.signed ny 0
    else if nx = ny then x
    else y
  | _, _ => Double.nan

def mod (a b : Value) : Outcome Value :=
  match a, b with
  | .complex .., _ | _, .complex .. => mismatched
  | a, b =>
    arith (fun m n => if n = 0 then .error .zeroDivisor else .ok (.whole (m.fmod n)))
      (fun x y => if y == 0 then .error .zeroDivisor else .ok (.double (remainder x y)))
      (fun _ _ => mismatched) a b

def doublePower (x y : Float) : Outcome Value :=
  if x == 0 && y < 0 && y.isFinite then .error .zeroDivisor
  else if x < 0 && x.isFinite && y.isFinite && (Double.whole? y).isNone then
    (Plane.power (x, 0) (y, 0)).map onPlane
  else
    let r := Float.pow x y
    if r.isInf && x.isFinite && y.isFinite then .error .overflow else .ok (.double r)

def pow (a b : Value) : Outcome Value :=
  arith (fun m n => if 0 ≤ n then .ok (.whole (m.pow n.toNat)) else do
      doublePower (← fits (.whole m)) (← fits (.whole n)))
    doublePower (fun z w => (Plane.power z w).map onPlane) a b

/-- Exclusive or on two's complement of unbounded width. -/
def xorInt : Int → Int → Int
  | .ofNat m, .ofNat n => .ofNat (m ^^^ n)
  | .negSucc m, .negSucc n => .ofNat (m ^^^ n)
  | .ofNat m, .negSucc n => .negSucc (m ^^^ n)
  | .negSucc m, .ofNat n => .negSucc (m ^^^ n)

def xor (a b : Value) : Outcome Value :=
  match a, b with
  | .truth p, .truth q => .ok (.truth (p != q))
  | a, b => do return .whole (xorInt (← whole a) (← whole b))

def neg (a : Value) : Outcome Value :=
  match a with
  | .complex re im _ => .ok (onPlane (-re, -im))
  | a =>
    match a.number? with
    | some (.whole n) => .ok (.whole (-n))
    | some (.double x) => .ok (.double (-x))
    | none => mismatched

def abs (a : Value) : Outcome Value :=
  match a with
  | .complex re im _ => (Plane.size (re, im)).map .double
  | a =>
    match a.number? with
    | some (.whole n) => .ok (.whole n.natAbs)
    | some (.double x) => .ok (.double x.abs)
    | none => mismatched

def rounding (f : Float → Except Double.Fault Int) (a : Value) : Outcome Value :=
  match a.number? with
  | some (.whole n) => .ok (.whole n)
  | some (.double x) => do return .whole (← fromNumber (f x))
  | none => mismatched

/-- The nearest whole number, the even one of two equally near. -/
def roundHalfEven (x : Float) : Except Double.Fault Int :=
  match Double.read x with
  | .finite negative m e =>
    if 0 ≤ e then Double.floor? x
    else
      let q : Int := Double.roundDiv m (1 <<< (-e).toNat)
      .ok (if negative then -q else q)
  | _ => Double.floor? x

def pi : Float := Float.ofBits 0x400921fb54442d18

def euler : Float := Float.ofBits 0x4005bf0a8b145769

/-- A function of doubles; where it leaves the reals or the finite doubles there is no value. -/
def onReal (f : Float → Float) (a : Value) : Outcome Value := do
  let x ← real a
  let y := f x
  if y.isNaN && !x.isNaN then .error (.badValue "math domain error")
  else if y.isInf && x.isFinite then .error .overflow
  else return .double y

def naturalLog (n : Number) : Outcome Float :=
  match n with
  | .whole k =>
    if k ≤ 0 then .error (.badValue "math domain error")
    else
      match Double.ofInt? k with
      | .ok x => .ok (Float.log x)
      | .error _ =>
        let e := k.natAbs.log2 + 1
        let part := Double.nearest k.natAbs (1 <<< e)
        let (part, e) := if part == 1 then (0.5, e + 1) else (part, e)
        .ok (Float.log part + Float.log 2 * Float.ofNat e)
  | .double x =>
    if x.isNaN then .ok x
    else if x ≤ 0 then .error (.badValue "math domain error")
    else .ok (Float.log x)

def logOf (v : Value) : Outcome Float :=
  match v.number? with
  | some n => naturalLog n
  | none => mismatched

def factorial : Nat → Nat
  | 0 => 1
  | n + 1 => (n + 1) * factorial n

def factorialOf (v : Value) : Outcome Value := do
  let n ← whole v
  if n < 0 then .error (.badValue "factorial() not defined for negative values")
  else if (wordLimit : Int) ≤ n then .error .overflow
  else return .whole (factorial n.toNat)

def realPower (x y : Float) : Outcome Value :=
  let r := Float.pow x y
  if x.isFinite && y.isFinite then
    if r.isNaN || (x == 0 && y < 0) then .error (.badValue "math domain error")
    else if r.isInf then .error .overflow
    else .ok (.double r)
  else .ok (.double r)

/-- How many sides a die has; a double will do if it is a whole number. -/
def sides (v : Value) : Outcome Nat :=
  let checked (n : Int) : Outcome Nat :=
    if n < 1 then .error (.badValue "empty range for randrange()") else .ok n.toNat
  match v.number? with
  | some (.whole n) => checked n
  | some (.double x) => do
    let n ← fromNumber (Double.truncate? (x + 1))
    if (Double.whole? (x + 1)).isSome then checked (n - 1)
    else .error (.badValue "non-integer stop for randrange()")
  | none => mismatched

end Duel.Formula.Operation
