import Duel.Formula.Cache
import Duel.Status.Behavior

namespace Duel

inductive Status.Kind
  | positive
  | negative
  | other (name : String)
  deriving DecidableEq, Repr

namespace Status.Kind

def name : Kind → String
  | positive => "positive"
  | negative => "negative"
  | other name => name

def named : List (String × Kind) := [positive, negative].map fun k => (k.name, k)

def ofName (name : String) : Kind := (named.lookup name).getD (other name)

end Status.Kind

inductive Status.Activation
  | active
  | passive
  | other (name : String)
  deriving DecidableEq, Repr

namespace Status.Activation

def name : Activation → String
  | active => "active"
  | passive => "passive"
  | other name => name

def named : List (String × Activation) := [active, passive].map fun a => (a.name, a)

def ofName (name : String) : Activation := (named.lookup name).getD (other name)

end Status.Activation

/-- What is known of a status. Its own hooks come first; the behaviour is asked where a hook is
missing or has no answer. -/
structure Status (R : Type) where
  id : String
  name : String
  kind : Status.Kind := .positive
  icon : String := ""
  activation : Status.Activation := .active
  behavior : Option (Behavior R) := none
  /-- A configuration that no behaviour takes up. -/
  notes : Document := .null
  spend : Option (Spend.Rule R) := none
  onTick : Option (Int → Except Fault (Option Tick.Result)) := none
  onModify : Option (Int → Modifier.Context →
    Formula.Kept (Option Modifier.Result)) := none
  cleanse : Option Cleanse.Rule := none
  maxStacks : Option Int := none
  priority : Int := 100

namespace Status

variable {R : Type}

def clamp (status : Option (Status R)) (n : Int) : Int :=
  match status with
  | some s =>
    match s.maxStacks with
    | some most => max 0 (min most n)
    | none => max 0 n
  | none => max 0 n

def isReaction (s : Status R) : Bool :=
  (match s.behavior with
  | some (.reaction _) => true
  | _ => false) ||
  (match s.spend with
  | some rule => rule.needsRoll
  | none => false)

def firstAnswer {α : Type} (hook behavior : Except Fault (Option α)) : Except Fault (Option α) :=
  match hook with
  | .ok none => behavior
  | answer => answer

/-- Whether the spend rule asks for a roll; without a rule the answer is yes. -/
def needsRoll (s : Status R) : Bool :=
  match s.spend with
  | some rule => rule.needsRoll
  | none => true

end Status

/-- The definitions of statuses, the places of their ids, and the place that is free next. -/
structure Registry.Tables (R : Type) where
  statuses : Ledger (Status R) := .empty
  places : Ledger Nat := .empty
  next : Nat := 0

namespace Registry.Tables

variable {R : Type} {t : Tables R}

/-- An id that has a place keeps it. -/
def place (t : Tables R) (id : String) : Tables R :=
  if t.places.has id then t
  else { t with places := t.places.put id t.next, next := t.next + 1 }

def keep (t : Tables R) (s : Status R) : Tables R := { t with statuses := t.statuses.put s.id s }

def define (t : Tables R) (s : Status R) : Tables R := (t.place s.id).keep s

theorem statuses_define (t : Tables R) (s : Status R) :
    (t.define s).statuses = t.statuses.put s.id s := by
  unfold define keep place
  split <;> rfl

def get? (t : Tables R) (id : String) : Option (Status R) := t.statuses.get? id

def contains (t : Tables R) (id : String) : Bool := t.statuses.has id

/-- The place of an id in the order; unknown ids come after all others. -/
def orderOf (t : Tables R) (id : String) : Nat := (t.places.get? id).getD t.next

def list (t : Tables R) : Option (List (Status R)) := do
  let placed ← t.statuses.values.mapM fun s => (t.places.get? s.id).map (·, s)
  return (placed.mergeSort fun a b => a.1 ≤ b.1).map Prod.snd

/-- Each definition stands under its own id, and the ids have the places from the first on. -/
structure InStep (t : Tables R) : Prop where
  named : ∀ e ∈ t.statuses.entries, e.2.id = e.1
  placed : t.places.entries = t.statuses.names.zipIdx
  free : t.next = t.statuses.names.length

theorem inStep_empty : ({} : Tables R).InStep where
  named _ h := nomatch h
  placed := rfl
  free := rfl

theorem InStep.names (h : t.InStep) : t.places.names = t.statuses.names := by
  rw [Ledger.names, h.placed, List.zipIdx_map_fst]

theorem InStep.define (h : t.InStep) (s : Status R) : (t.define s).InStep := by
  have hnamed : ∀ e ∈ (t.statuses.put s.id s).entries, e.2.id = e.1 := fun e he =>
    (Ledger.mem_put he).elim (fun hs => by rw [hs]) (h.named e)
  by_cases hid : s.id ∈ t.statuses.names
  · have hplace : t.place s.id = t := if_pos (Ledger.has_iff.mpr (h.names ▸ hid))
    have hnames : (t.statuses.put s.id s).names = t.statuses.names := by
      rw [Ledger.names_put, if_pos hid]
    rw [Tables.define, hplace]
    exact ⟨hnamed, hnames.symm ▸ h.placed, hnames.symm ▸ h.free⟩
  · have hplace : t.place s.id =
        { t with places := t.places.put s.id t.next, next := t.next + 1 } :=
      if_neg fun hh => hid (h.names ▸ Ledger.has_iff.mp hh)
    have hnames : (t.statuses.put s.id s).names = t.statuses.names ++ [s.id] := by
      rw [Ledger.names_put, if_neg hid]
    rw [Tables.define, hplace]
    refine ⟨hnamed, ?_, ?_⟩
    · change (t.places.put s.id t.next).entries = (t.statuses.put s.id s).names.zipIdx
      rw [Ledger.entries_put_of_not_mem (h.names ▸ hid), h.placed, hnames, List.zipIdx_append,
        h.free, Nat.zero_add]
      rfl
    · change t.next + 1 = (t.statuses.put s.id s).names.length
      rw [hnames, List.length_append, h.free]
      rfl

theorem InStep.map_id (h : t.InStep) : t.statuses.values.map (·.id) = t.statuses.names := by
  rw [Ledger.values, Ledger.names, List.map_map]
  exact List.map_congr_left h.named

theorem InStep.place_of_mem (h : t.InStep) {p : Status R × Nat}
    (hp : p ∈ t.statuses.values.zipIdx) : t.places.get? p.1.id = some p.2 := by
  refine Ledger.get?_of_mem ?_
  rw [h.placed, ← h.map_id, List.zipIdx_map]
  exact List.mem_map_of_mem hp

theorem mapM_zipIdx {ss : List (Status R)} {n : Nat}
    (h : ∀ p ∈ ss.zipIdx n, t.places.get? p.1.id = some p.2) :
    ss.mapM (fun s => (t.places.get? s.id).map (·, s)) = some ((ss.zipIdx n).map Prod.swap) := by
  induction ss generalizing n with
  | nil => rfl
  | cons s ss ih =>
    rw [List.zipIdx_cons, List.forall_mem_cons] at h
    rw [List.mapM_cons, ih h.2, h.1]
    rfl

theorem InStep.list_eq (h : t.InStep) : t.list = some t.statuses.values := by
  have hsorted : (t.statuses.values.zipIdx.map Prod.swap).Pairwise fun a b =>
      decide (a.1 ≤ b.1) = true := by
    have hlt : (List.range' 0 t.statuses.values.length).Pairwise (· < ·) :=
      List.pairwise_lt_range'
    rw [← List.zipIdx_map_snd, List.pairwise_map] at hlt
    exact List.pairwise_map.mpr (hlt.imp fun hab => decide_eq_true (Nat.le_of_lt hab))
  rw [list, mapM_zipIdx fun p => h.place_of_mem]
  change some ((List.mergeSort _ _).map Prod.snd) = _
  rw [List.mergeSort_of_pairwise hsorted, List.map_map]
  exact congrArg some (List.zipIdx_map_fst 0 _)

end Registry.Tables

/-- The statuses of a game. -/
structure Registry (R : Type) extends Registry.Tables R where
  inStep : toTables.InStep

namespace Registry

variable {R : Type}

def empty : Registry R := ⟨{}, Tables.inStep_empty⟩

instance : Inhabited (Registry R) := ⟨empty⟩

/-- A new definition of a known id takes its place in the order. -/
def define (reg : Registry R) (s : Status R) : Registry R :=
  ⟨reg.toTables.define s, reg.inStep.define s⟩

def list (reg : Registry R) : List (Status R) :=
  reg.toTables.list.get (Option.isSome_of_eq_some reg.inStep.list_eq)

end Registry

end Duel
