import Duel.Formula.Token

namespace Duel.Formula

namespace Work

def add (a b : Value) : Work Value := do
  match a, b with
  | .list i, .list j =>
    let s ← get
    Store.newList (s.items i ++ s.items j)
  | a, b => Store.settle (Operation.add a b)

def mul (a b : Value) : Work Value := do
  match a, b with
  | .text s, n | n, .text s => Store.ofOutcome (Operation.timesText s n)
  | .list i, n | n, .list i =>
    Store.newList (← Store.ofOutcome (Operation.timesItems ((← get).items i) n))
  | a, b => Store.settle (Operation.mul a b)

def mod (a b : Value) : Work Value := do
  match a with
  | .text t => return .text (← Store.ofOutcome (Directive.fill (← get) t b))
  | a => Store.settle (Operation.mod a b)

def roll (sides : Nat) : Nat → List Value → Chance → List Value × Chance
  | 0, rolls, c => (rolls, c)
  | n + 1, rolls, c =>
    let (k, c) := c.below sides
    roll sides n (.whole (k + 1) :: rolls) c

def rolls (a b : Value) : Work Value := do
  let count ← Store.ofOutcome (Operation.whole a)
  if count ≤ 1 then Store.newList []
  else
    let sides ← Store.ofOutcome (Operation.sides b)
    let rolled ← modifyGet fun s =>
      let (rolled, chance) := roll sides (count.toNat - 1) [] s.chance
      (rolled, { s with chance })
    Store.newList rolled

/-- A list grows by what comes after the comma, wherever it is used. -/
def join (a b : Value) : Work Value := do
  match a with
  | .list i =>
    Store.append i b
    return a
  | a => Store.newList [a, b]

def concat (vs : List Value) : Work Value := do
  let s ← get
  return .text (String.join (← Store.ofOutcome (vs.mapM s.written)))

def compareBy (accept : Option Ordering → Bool) (a b : Value) : Work Value := do
  return .truth (accept (← Store.ofOutcome ((← get).order a b)))

def best (beats : Option Ordering → Bool) : List Value → Work Value
  | [] => throw (.mismatch "")
  | v :: vs => do
    let s ← get
    Store.ofOutcome <|
      vs.foldlM (fun top w => do return if beats (← s.order w top) then w else top) v

/-- A single argument has to hold the values to choose from. -/
def extreme (beats : Option Ordering → Bool) (args : List Value) : Work Value := do
  let s ← get
  let among (vs : List Value) : Work Value :=
    if vs.isEmpty then throw (.badValue "empty sequence") else best beats vs
  match args with
  | [.text t] => among ((Text.letters t).map .text)
  | [.list i] => among (s.items i)
  | [.table i] => among ((s.entries i).map fun e => .text e.1)
  | [_] => throw (.mismatch "")
  | args => best beats args

/-- A double from zero up to `v`, or up to one where `v` counts as false. -/
def random (v : Value) : Work Value := do
  let s ← get
  let (x, chance) := s.chance.unit
  set { s with chance }
  Store.settle (Operation.mul (.double x) (if s.holds v then v else .whole 1))

end Work

def Unary.apply (op : Unary) (v : Value) : Work Value := do
  match op with
  | .negation => return .truth (!(← get).holds v)
  | op => Store.settle (op.function v)

def Binary.apply (op : Binary) (a b : Value) : Work Value := do
  match op with
  | .add => Work.add a b
  | .sub => Store.settle (Operation.sub a b)
  | .mul => Work.mul a b
  | .div => Store.settle (Operation.div a b)
  | .mod => Work.mod a b
  | .pow => Store.settle (Operation.pow a b)
  | .concat => Work.concat [a, b]
  | .equal => return .truth (← Store.ofOutcome ((← get).equal a b))
  | .unequal => return .truth !(← Store.ofOutcome ((← get).equal a b))
  | .atMost => Work.compareBy (fun o => o == some .lt || o == some .eq) a b
  | .atLeast => Work.compareBy (fun o => o == some .gt || o == some .eq) a b
  | .less => Work.compareBy (· == some .lt) a b
  | .greater => Work.compareBy (· == some .gt) a b
  | .isIn => return .truth (← Store.ofOutcome ((← get).contains a b))
  | .negation => throw .noOperator
  | .both => return if (← get).holds a then b else a
  | .either => return if (← get).holds a then a else b
  | .exclusive => Store.settle (Operation.xor a b)
  | .rolls => Work.rolls a b
  | .comma => Work.join a b

def Function.plain (f : Function) (args : List Value) : Outcome Value :=
  match f, args with
  | .fac, [v] => Operation.factorialOf v
  | .log, [v] => do return .double (← Operation.logOf v)
  | .log, [v, b] => do
    let x ← Operation.logOf v
    let y ← Operation.logOf b
    if y == 0 then .error .zeroDivisor else return .double (x / y)
  | .pow, [a, b] => do Operation.realPower (← Operation.real a) (← Operation.real b)
  | .atan2, [a, b] => do return .double (Float.atan2 (← Operation.real a) (← Operation.real b))
  | .floor, [v] => Operation.rounding Double.floor? v
  | .ceil, [v] => Operation.rounding Double.ceil? v
  | _, _ => Operation.mismatched

def Function.call (f : Function) (args : List Value) : Work Value := do
  match f, args with
  | .random, [v] => Work.random v
  | .min, args => Work.extreme (· == some .lt) args
  | .max, args => Work.extreme (· == some .gt) args
  | .pyt, [a, b] => do
    let square (v : Value) : Outcome Value := Operation.mul v v
    Store.settle do
      Operation.onReal Float.sqrt (← Operation.add (← square a) (← square b))
  | .concat, a :: b :: rest => Work.concat (a :: b :: rest)
  | .choose, [c, a, b] => return if (← get).holds c then a else b
  | f, args => Store.settle (f.plain args)

end Duel.Formula
