import Duel.Formula.Evaluation

namespace Duel.Formula

/-- Formulas that have been read, the one used last first, each with the lists that it keeps. -/
structure Cache where
  entries : List (String × Program × Store) := []
  hits : Nat := 0
  misses : Nat := 0

/-- Work with the formulas that are kept; what they have been put through stays when it fails. -/
abbrev Kept (α : Type) := EStateM Failure Cache α

namespace Kept

def ofOutcome {α : Type} : Outcome α → Kept α
  | .ok a => return a
  | .error e => throw e

def outcome {α : Type} (x : Kept α) : Kept (Outcome α) := fun c =>
  match x c with
  | .ok a c => .ok (.ok a) c
  | .error e c => .ok (.error e) c

end Kept

namespace Cache

def capacity : Nat := 1024

/-- Looks a formula up and reads it if it is not there. The formula that has not been used for
longest makes room; a text that cannot be read takes none. -/
def fetch (source : String) : Kept (Program × Store) := do
  let c ← get
  match c.entries.lookup source with
  | some entry =>
    set { c with
      entries := (source, entry) :: c.entries.filter (·.1 != source), hits := c.hits + 1 }
    return entry
  | none =>
    set { c with misses := c.misses + 1 }
    match Program.read source with
    | .error e => throw e
    | .ok p =>
      let entry := (p, p.fresh)
      modify fun c => { c with entries := (source, entry) :: c.entries.take (capacity - 1) }
      return entry

def check : Source → Kept Unit
  | .number _ => return ()
  | .text s => do
    let _ ← fetch s

def keep (source : String) (store : Store) (c : Cache) : Cache :=
  { c with entries := c.entries.map fun (s, p, old) => (s, p, if s == source then store else old) }

def value (source : Source) (scope : Scope) : Kept Number := do
  match source with
  | .number n => return n
  | .text s =>
    let (p, store) ← fetch s
    let (result, store) :=
      match p.evaluate scope store with
      | .ok n store => (.ok n, store)
      | .error e store => (.error e, store)
    modify (keep s store)
    Kept.ofOutcome result

def wholeValue (source : Source) (scope : Scope) : Kept Int := do
  Kept.ofOutcome (wholePart (← value source scope))

def sourceOf : Document → Kept Source
  | .text s => return .text s
  | .number n => return .number n
  | .truth b => return .number (.whole (if b then 1 else 0))
  | .list _ => throw (.mismatch "unhashable type: 'list'")
  | .table _ | .set _ | .endless => throw (.mismatch "unhashable type: 'dict'")
  | .null | .moment _ | .bytes _ => do
    modify fun c => { c with misses := c.misses + 1 }
    throw (.mismatch "object of type 'NoneType' has no len()")

def checkOf (d : Document) : Kept Unit := do check (← sourceOf d)

/-- What is no formula but a plain value stays as it is. -/
def valueOf (d : Document) (scope : Scope) : Kept Document := do
  match d with
  | .truth b => return .truth b
  | d => return .number (← value (← sourceOf d) scope)

def wholeValueOf (d : Document) (scope : Scope) : Kept Int := do
  wholeValue (← sourceOf d) scope

def line (c : Cache) : String :=
  "expr-cache: hits=" ++ toString c.hits ++ ", misses=" ++ toString c.misses ++ ", size=" ++
    toString c.entries.length ++ "/" ++ toString capacity

end Cache

end Duel.Formula
