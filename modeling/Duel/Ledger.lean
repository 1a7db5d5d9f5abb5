namespace Duel

/-- Entries under distinct names, in the order in which the names first came. -/
structure Ledger (α : Type) where
  entries : List (String × α)
  distinct : (entries.map Prod.fst).Nodup

namespace Ledger

variable {α β : Type}

def empty : Ledger α := ⟨[], List.nodup_nil⟩

instance : Inhabited (Ledger α) := ⟨empty⟩

def names (l : Ledger α) : List String := l.entries.map Prod.fst

def values (l : Ledger α) : List α := l.entries.map Prod.snd

def get? (l : Ledger α) (name : String) : Option α :=
  (l.entries.find? fun e => e.1 == name).map Prod.snd

def has (l : Ledger α) (name : String) : Bool := l.entries.any fun e => e.1 == name

def putEntry (name : String) (value : α) : List (String × α) → List (String × α)
  | [] => [(name, value)]
  | e :: rest => if e.1 = name then (name, value) :: rest else e :: putEntry name value rest

theorem map_fst_putEntry (name : String) (value : α) (es : List (String × α)) :
    (putEntry name value es).map Prod.fst =
      if name ∈ es.map Prod.fst then es.map Prod.fst else es.map Prod.fst ++ [name] := by
  induction es with
  | nil => simp [putEntry]
  | cons e rest ih =>
    by_cases h : e.1 = name
    · simp [putEntry, h]
    · have h' : ¬name = e.1 := fun he => h he.symm
      simp only [putEntry, h, if_false, List.map_cons, ih, List.mem_cons, h', false_or]
      split <;> simp

theorem nodup_putEntry (name : String) (value : α) (es : List (String × α))
    (h : (es.map Prod.fst).Nodup) : ((putEntry name value es).map Prod.fst).Nodup := by
  rw [map_fst_putEntry]
  split
  · exact h
  next hn => exact List.nodup_append.2 ⟨h, by simp, by rintro a ha b hb rfl; simp_all⟩

theorem mem_putEntry {name : String} {value : α} {es : List (String × α)}
    {e : String × α} (h : e ∈ putEntry name value es) : e = (name, value) ∨ e ∈ es := by
  induction es with
  | nil => simpa [putEntry] using h
  | cons d rest ih =>
    unfold putEntry at h
    split at h
    · rcases List.mem_cons.1 h with h | h
      · exact .inl h
      · exact .inr (List.mem_cons_of_mem _ h)
    · rcases List.mem_cons.1 h with h | h
      · exact .inr (h ▸ List.mem_cons_self)
      · exact (ih h).imp_right (List.mem_cons_of_mem _)

/-- A name that is there keeps its place. -/
def put (l : Ledger α) (name : String) (value : α) : Ledger α :=
  ⟨putEntry name value l.entries, nodup_putEntry name value l.entries l.distinct⟩

def erase (l : Ledger α) (name : String) : Ledger α :=
  ⟨l.entries.filter fun e => e.1 != name,
    l.distinct.sublist (List.filter_sublist.map Prod.fst)⟩

/-- The last of several values for a name counts, in the place of the first. -/
def ofList (es : List (String × α)) : Ledger α :=
  es.foldl (fun l e => l.put e.1 e.2) empty

def map (f : α → β) (l : Ledger α) : Ledger β :=
  ⟨l.entries.map fun e => (e.1, f e.2), by simpa [Function.comp_def] using l.distinct⟩

theorem mem_of_get?_eq_some {l : Ledger α} {name : String} {value : α}
    (h : l.get? name = some value) : (name, value) ∈ l.entries := by
  obtain ⟨e, he, rfl⟩ := Option.map_eq_some_iff.mp h
  have hn : e.1 = name := by simpa using List.find?_some he
  have hm := List.mem_of_find?_eq_some he
  simpa [← hn] using hm

theorem get?_of_mem {l : Ledger α} {name : String} {value : α}
    (h : (name, value) ∈ l.entries) : l.get? name = some value := by
  have hd := List.pairwise_map.mp l.distinct
  unfold get?
  generalize l.entries = es at h hd
  induction es with
  | nil => cases h
  | cons e es ih =>
    obtain ⟨hne, hd⟩ := List.pairwise_cons.mp hd
    obtain rfl | h := List.mem_cons.mp h
    · simp
    · rw [List.find?_cons_of_neg (by simpa using hne _ h)]
      exact ih h hd

theorem has_iff {l : Ledger α} {name : String} : l.has name = true ↔ name ∈ l.names := by
  simp [has, names]

theorem names_put (l : Ledger α) (name : String) (value : α) :
    (l.put name value).names = if name ∈ l.names then l.names else l.names ++ [name] :=
  map_fst_putEntry name value l.entries

theorem mem_put {l : Ledger α} {name : String} {value : α} {e : String × α}
    (h : e ∈ (l.put name value).entries) : e = (name, value) ∨ e ∈ l.entries :=
  mem_putEntry h

theorem entries_put_of_not_mem {l : Ledger α} {name : String} (h : name ∉ l.names) (value : α) :
    (l.put name value).entries = l.entries ++ [(name, value)] := by
  unfold put
  unfold names at h
  dsimp only
  generalize l.entries = es at h
  induction es with
  | nil => rfl
  | cons e es ih =>
    rw [List.map_cons, List.mem_cons, not_or] at h
    rw [putEntry, if_neg (Ne.symm h.1), ih h.2, List.cons_append]

end Ledger

end Duel
