import Duel.Document

namespace Duel.Yaml.Slots

def modulus : Nat := 0x1FFFFFFFFFFFFFFF

/-- A code as bits; minus one gives way to minus two. -/
def bitsOf (code : Int) : Nat := ((if code == -1 then -2 else code) % 0x10000000000000000).toNat

/-- The bits that tell the slot of a value. Equal numbers have the same. -/
def codeOf? (d : Document) : Option Nat :=
  match d.asNumber? with
  | some (.whole n) => some (bitsOf (n.sign * Int.ofNat (n.natAbs % modulus)))
  | some (.double x) =>
    match Double.read x with
    | .nan => none
    | .infinite negative => some (bitsOf (if negative then -314159 else 314159))
    | .finite negative m e =>
      let code : Int := Int.ofNat (m * Nat.pow 2 (e % 61).toNat % modulus)
      some (bitsOf (if negative then -code else code))
  | none => none

abbrev Table := Array (Option Document)

def rowLength : Nat := 10

/-- The first free slot from place `i` on. After each row the place jumps, first by what is left of
the code and at last by all places in turn. -/
def freeSlot? (t : Table) : (fuel i rest : Nat) → Option Nat
  | 0, _, _ => none
  | fuel + 1, i, rest =>
    let row := if i + rowLength ≤ t.size then rowLength else 1
    match (List.range row).find? fun j => (t[i + j]?.getD none).isNone with
    | some j => some (i + j)
    | none =>
      let rest := rest / 32
      freeSlot? t fuel ((i * 5 + 1 + rest) % t.size) rest

def insert (t : Table) (d : Document) (code : Nat) : Table :=
  match freeSlot? t (t.size + 16) (code % t.size) code with
  | some i => t.setIfInBounds i (some d)
  | none => t

def sizeFor (count : Nat) : (fuel size : Nat) → Nat
  | 0, size => size
  | fuel + 1, size => if size ≤ 2 * count then sizeFor count fuel (2 * size) else size

def order (ds : List Document) : List Document :=
  match ds.mapM fun d => (codeOf? d).map (d, ·) with
  | none => ds
  | some coded =>
    let size := if ds.length < 5 then 8 else sizeFor ds.length ds.length 8
    let free : Table := Array.replicate size none
    let table := coded.foldl (fun t (d, code) => insert t d code) free
    table.toList.filterMap id

end Duel.Yaml.Slots
