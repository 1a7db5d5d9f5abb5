import Duel.Formula.Program
import Duel.Formula.Work
import Duel.Text.Template

namespace Duel.Formula

abbrev Scope := List (String × Document)

namespace Evaluation

abbrev Stack := List Value

def callWith (f argument : Value) : Work Value := do
  match f with
  | .function f =>
    match argument with
    | .list i => f.call ((← get).items i)
    | v => f.call [v]
  | .text s => throw (.notFunction s)
  | _ => throw (.mismatch "")

def step (names : List (String × Value)) (stack : Stack) (t : Token) : Work Stack := do
  match t, stack with
  | .constant v, stack => return v :: stack
  | .cell i, stack => return .list i :: stack
  | .variable name, stack =>
    match names.lookup name, Function.named.lookup name with
    | some v, _ => return v :: stack
    | none, some f => return .function f :: stack
    | none, none => throw (.undefined name)
  | .unary op, v :: stack => return (← op.apply v) :: stack
  | .binary op, b :: a :: stack => return (← op.apply a b) :: stack
  | .call, argument :: f :: stack => return (← callWith f argument) :: stack
  | _, _ => throw .exhausted

def run (names : List (String × Value)) (tokens : List Token) : Work Value := do
  match ← tokens.foldlM (step names) [] with
  | [v] => return v
  | [] => throw .exhausted
  | _ => throw .leftover

end Evaluation

/-- The number that a value counts as in the end; a whole double is a whole number. -/
def Value.asNumber (v : Value) : Outcome Number := do
  let x ←
    match v with
    | .text s =>
      match doubleOfText? s with
      | some x => pure x
      | none => throw (.badValue "could not convert string to float")
    | v => Operation.real v
  match Double.whole? x with
  | some n => return .whole n
  | none => return .double x

namespace Program

def fresh (p : Program) : Store := { lists := Array.replicate p.cells [] }

/-- The value of a formula. Its empty lists keep what is put into them. -/
def evaluate (p : Program) (scope : Scope) : Work Number := do
  let names ← scope.mapM fun (name, d) => do return (name, ← Store.load d)
  Store.ofOutcome (← Evaluation.run names p.tokens).asNumber

end Program

inductive Source
  | text (s : String)
  | number (n : Number)
  deriving Repr

namespace Source

/-- A truth value counts as a number. What is neither text nor number fails in each of the three
ways that were open to it. -/
def ofDocument : Field.Reader Source
  | .text s => .ok (.text s)
  | .number n => .ok (.number n)
  | .truth b => .ok (.number (.whole (if b then 1 else 0)))
  | .bytes bs =>
    match Field.decoded? bs with
    | some s => .ok (.text s)
    | none => .error (faults .brokenText .unreadableWhole .unreadableReal)
  | _ => .error (faults .notText .notWhole .notReal)
where
  faults (text whole real : Field.Problem) : List Field.Issue :=
    [⟨[.name "str"], text⟩, ⟨[.name "int"], whole⟩, ⟨[.name "float"], real⟩]

def check : Source → Outcome Unit
  | text s => (Program.read s).map fun _ => ()
  | number _ => .ok ()

end Source

def wholePart (n : Number) : Outcome Int := Operation.fromNumber (Scalar.floor n)

def render (template : String) (scope : Scope) : Outcome String := do
  let entry (e : String × Document) : Work (String × String) := do
    let v ← Store.load e.2
    return (e.1, ← Store.ofOutcome ((← get).written v))
  match scope.mapM entry {} with
  | .ok names _ => return Text.fill template names
  | .error e _ => .error e

end Duel.Formula
