import Duel.Document
import Duel.Ledger
import Duel.Side

namespace Duel

/-- A value laid open. A record has the same fields whatever the value is; a table has the
entries that happen to be there. -/
inductive View
  | plain (d : Document)
  | list (items : List View)
  | record (fields : List (String × View))
  | table (entries : List (String × View))
  deriving Inhabited

/-- Values that can be laid open. -/
class Viewed (α : Type) where
  view : α → View

export Viewed (view)

namespace View

variable {α : Type}

def null : View := plain .null

def isNull : View → Bool
  | plain .null => true
  | _ => false

def slim : View → View
  | record fields => record (fields.filter fun f => !f.2.isNull)
  | v => v

def fields : View → List (String × View)
  | record fields => fields
  | _ => []

def extend (v : View) (more : List (String × View)) : View := record (v.fields ++ more)

instance : Viewed View := ⟨id⟩

instance : Viewed Document := ⟨plain⟩

instance : Viewed String := ⟨fun s => plain (.text s)⟩

instance : Viewed Bool := ⟨fun b => plain (.truth b)⟩

instance : Viewed Number := ⟨fun n => plain (.number n)⟩

instance : Viewed Int := ⟨fun n => plain (.number (.whole n))⟩

instance : Viewed Nat := ⟨fun n => plain (.number (.whole n))⟩

instance : Viewed Side := ⟨fun s => view s.name⟩

instance [Viewed α] : Viewed (Option α) := ⟨fun a => (a.map view).getD null⟩

instance [Viewed α] : Viewed (List α) := ⟨fun as => list (as.map view)⟩

instance [Viewed α] : Viewed (Ledger α) :=
  ⟨fun l => table (l.entries.map fun (name, a) => (name, view a))⟩

end View

end Duel
