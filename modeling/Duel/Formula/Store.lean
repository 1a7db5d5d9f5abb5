import Duel.Document
import Duel.Formula.Chance
import Duel.Formula.Plane
import Duel.Formula.Value
import Duel.Text.Quoted

/-!
The lists and tables of a formula. A value only names its list, so a list that is put into itself
is no harm: its text says so, and a comparison that would not end is given up.
-/

namespace Duel.Formula

structure Store where
  lists : Array (List Value) := #[]
  tables : Array (List (String × Value)) := #[]
  /-- How many NaNs have been told apart. -/
  marks : Nat := 0
  chance : Chance := {}

abbrev Work (α : Type) := EStateM Failure Store α

namespace Store

def items (s : Store) (place : Nat) : List Value := s.lists.getD place []

def entries (s : Store) (place : Nat) : List (String × Value) := s.tables.getD place []

def newList (items : List Value) : Work Value :=
  modifyGet fun s => (.list s.lists.size, { s with lists := s.lists.push items })

def newTable (entries : List (String × Value)) : Work Value :=
  modifyGet fun s => (.table s.tables.size, { s with tables := s.tables.push entries })

def append (place : Nat) (v : Value) : Work Unit :=
  modify fun s => { s with lists := s.lists.modify place (· ++ [v]) }

def newMark : Work Nat := modifyGet fun s => (s.marks, { s with marks := s.marks + 1 })

/-- The value of an outcome; a new NaN gets a mark of its own. -/
def settle (o : Outcome Value) : Work Value := do
  match o with
  | .error e => throw e
  | .ok (.double x) => if x.isNaN then return .nan (← newMark) else return .double x
  | .ok (.complex re im _) =>
    if re.isNaN || im.isNaN then return .complex re im (some (← newMark))
    else return .complex re im none
  | .ok v => return v

def ofOutcome {α : Type} : Outcome α → Work α
  | .ok a => return a
  | .error e => throw e

mutual

def load : Document → Work Value
  | .null => return .nothing
  | .truth b => return .truth b
  | .number n => settle (.ok (.ofNumber n))
  | .text s => return .text s
  | .moment m => return .text m.text
  | .bytes _ | .set _ | .endless => return .nothing
  | .list ds => do newList (← loadAll ds)
  | .table fields => do newTable (← loadFields fields)

def loadAll : List Document → Work (List Value)
  | [] => return []
  | d :: ds => do
    let v ← load d
    return v :: (← loadAll ds)

def loadFields : List (Document × Document) → Work (List (String × Value))
  | [] => return []
  | (k, d) :: rest => do
    let v ← load d
    let more ← loadFields rest
    match k with
    | .text name => return (name, v) :: more
    | _ => return more

end

variable (s : Store)

def holds : Value → Bool
  | .nothing => false
  | .whole n => n != 0
  | .double x => x != 0
  | .truth b => b
  | .text t => !t.isEmpty
  | .complex re im _ => re != 0 || im != 0
  | .list i => !(s.items i).isEmpty
  | .table i => !(s.entries i).isEmpty
  | .nan _ | .function _ => true

def wholeText (n : Int) : Outcome String := (Number.digits n).mapError Failure.ofNumber

def functionText (f : Function) : String :=
  let name := ((Function.named.find? (·.2 == f)).map (·.1)).getD ""
  match f with
  | .log | .min | .max | .pow | .atan2 | .floor | .ceil => "<built-in function " ++ name ++ ">"
  | _ => "<bound method " ++ name ++ ">"

/-- How a value looks inside a list. The lists and tables `around` it are not shown again, and
there are no more of them than the store has: this is what `depth` counts. -/
def shown : (depth : Nat) → (around : List Value) → Value → Outcome String
  | 0, _, _ => .error .tooDeep
  | depth + 1, around, v =>
    let inside := shown depth (v :: around)
    match v with
    | .nothing => .ok "None"
    | .whole n => wholeText n
    | .double x => .ok (Double.plain.write x)
    | .nan _ => .ok "nan"
    | .truth b => .ok (if b then "True" else "False")
    | .text t => .ok (Text.quoted t)
    | .complex re im _ => .ok (Plane.text (re, im))
    | .function f => .ok (functionText f)
    | .list i =>
      if around.any v.isSame then .ok "[...]"
      else do return "[" ++ ", ".intercalate (← (s.items i).mapM inside) ++ "]"
    | .table i =>
      if around.any v.isSame then .ok "\x7b...\x7d"
      else do
        let parts ← (s.entries i).mapM fun (k, v) => do
          return Text.quoted k ++ ": " ++ (← inside v)
        return "\x7b" ++ ", ".intercalate parts ++ "\x7d"

def display (v : Value) : Outcome String := s.shown (s.lists.size + s.tables.size + 2) [] v

def written : Value → Outcome String
  | .text t => .ok t
  | v => s.display v

def depthLimit : Nat := 980

def sameItems (same : Value → Value → Outcome Bool) : List Value → List Value → Outcome Bool
  | [], [] => .ok true
  | x :: xs, y :: ys => do
    if x.isSame y || (← same x y) then sameItems same xs ys else return false
  | _, _ => .ok false

def sameEntries (same : Value → Value → Outcome Bool) (ys : List (String × Value)) :
    List (String × Value) → Outcome Bool
  | [] => .ok true
  | (k, x) :: rest =>
    match ys.lookup k with
    | none => .ok false
    | some y => do
      if x.isSame y || (← same x y) then sameEntries same ys rest else return false

/-- Equality of values; numbers of different kinds are compared by what they are worth. -/
def same : Nat → Value → Value → Outcome Bool
  | 0, _, _ => .error .tooDeep
  | depth + 1, v, w =>
    match v, w with
    | .nothing, .nothing => .ok true
    | .text a, .text b => .ok (a == b)
    | .function f, .function g => .ok (f == g)
    | .list i, .list j =>
      let xs := s.items i
      let ys := s.items j
      if xs.length = ys.length then sameItems (same depth) xs ys else .ok false
    | .table i, .table j =>
      let xs := s.entries i
      let ys := s.entries j
      if xs.length = ys.length then sameEntries (same depth) ys xs else .ok false
    | .complex a b _, .complex c d _ => .ok (a == c && b == d)
    | .complex a b _, v | v, .complex a b _ =>
      .ok (b == 0 && v.number?.any fun n => (Number.double a).same n)
    | v, w =>
      match v.number?, w.number? with
      | some m, some n => .ok (m.same n)
      | _, _ => .ok false

def equal (v w : Value) : Outcome Bool := s.same depthLimit v w

def apart (same : Value → Value → Outcome Bool) :
    List Value → List Value → Outcome (List Value × List Value)
  | x :: xs, y :: ys => do
    if x.isSame y || (← same x y) then apart same xs ys else return (x :: xs, y :: ys)
  | xs, ys => .ok (xs, ys)

def orderTo : Nat → Value → Value → Outcome (Option Ordering)
  | 0, _, _ => .error .tooDeep
  | depth + 1, v, w =>
    match v, w with
    | .text a, .text b => .ok (some (Text.order a b))
    | .list i, .list j => do
      match ← apart (s.same depth) (s.items i) (s.items j) with
      | ([], []) => return some .eq
      | ([], _) => return some .lt
      | (_, []) => return some .gt
      | (x :: _, y :: _) => orderTo depth x y
    | v, w =>
      match v.number?, w.number? with
      | some m, some n => .ok (m.compare? n)
      | _, _ => .error (.mismatch "")

def order (v w : Value) : Outcome (Option Ordering) := s.orderTo depthLimit v w

def contains (part whole : Value) : Outcome Bool :=
  match part, whole with
  | .text a, .text b => .ok (Text.isPart a b)
  | v, .list i => (s.items i).anyM fun w => if v.isSame w then .ok true else s.equal w v
  | .list _, .table _ | .table _, .table _ => .error (.mismatch "")
  | .text a, .table i => .ok ((s.entries i).any (·.1 == a))
  | _, .table _ => .ok false
  | _, _ => .error (.mismatch "")

end Store

end Duel.Formula
