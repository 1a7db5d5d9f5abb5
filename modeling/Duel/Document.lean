import Duel.Number
import Duel.Timestamp

namespace Duel

/-- A document as read from a content file: a table keeps the order in which its keys came, and
its keys may be any plain value. -/
inductive Document
  | null
  | truth (value : Bool)
  | number (value : Number)
  | text (value : String)
  | moment (value : Timestamp)
  | bytes (value : List UInt8)
  | list (items : List Document)
  | table (fields : List (Document × Document))
  /-- Plain values, none of them twice. -/
  | set (items : List Document)
  /-- A list or table that is inside of itself without an end. -/
  | endless
  deriving Repr, Inhabited

namespace Document

/-- The number that a plain value counts as when it is a key; the truth values are one and zero. -/
def asNumber? : Document → Option Number
  | truth b => some (.whole (if b then 1 else 0))
  | number n => some n
  | _ => none

/-- Whether two keys name the same field. All NaNs of a document are one key. -/
def sameKey (a b : Document) : Bool :=
  match a, b with
  | null, null => true
  | text s, text t => s == t
  | moment s, moment t => s.same t
  | bytes s, bytes t => s == t
  | a, b =>
    match a.asNumber?, b.asNumber? with
    | some m, some n => m.same n || (m.isNaN && n.isNaN)
    | _, _ => false

def isPlain : Document → Bool
  | list _ | table _ | set _ | endless => false
  | _ => true

/-- A key that is there keeps its place and takes the new value; a new key goes last. -/
def putField (key value : Document) : List (Document × Document) → List (Document × Document)
  | [] => [(key, value)]
  | (k, v) :: rest =>
    if sameKey k key then (k, value) :: rest else (k, v) :: putField key value rest

def field? (name : String) (fields : List (Document × Document)) : Option Document :=
  (fields.find? fun f => sameKey f.1 (text name)).map (·.2)

def isEmpty : Document → Bool
  | null => true
  | truth b => !b
  | number n => n.same (.whole 0)
  | text s => s.isEmpty
  | moment _ | endless => false
  | bytes value => value.isEmpty
  | list items | set items => items.isEmpty
  | table fields => fields.isEmpty

mutual

/-- Whether lists and tables are no deeper within each other than `depth`. What has no end is
not. -/
def fitsInto : (depth : Nat) → Document → Bool
  | 0, list _ | 0, table _ | _, endless => false
  | depth + 1, list items => allFitInto depth items
  | depth + 1, table fields => fieldsFitInto depth fields
  | _, _ => true

def allFitInto (depth : Nat) : List Document → Bool
  | [] => true
  | d :: ds => fitsInto depth d && allFitInto depth ds

def fieldsFitInto (depth : Nat) : List (Document × Document) → Bool
  | [] => true
  | (_, d) :: rest => fitsInto depth d && fieldsFitInto depth rest

end

end Document

end Duel
