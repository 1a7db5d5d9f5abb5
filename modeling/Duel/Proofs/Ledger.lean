import Duel.Ledger

namespace Duel.Ledger

variable {α : Type}

theorem find?_putEntry_self (name : String) (value : α) (es : List (String × α)) :
    (putEntry name value es).find? (fun e => e.1 == name) = some (name, value) := by
  induction es with
  | nil => simp [putEntry]
  | cons e rest ih =>
    by_cases h : e.1 = name
    · simp [putEntry, h]
    · simpa [putEntry, h] using ih

theorem find?_putEntry_of_ne {name other : String} (h : other ≠ name) (value : α)
    (es : List (String × α)) :
    (putEntry name value es).find? (fun e => e.1 == other) =
      es.find? (fun e => e.1 == other) := by
  induction es with
  | nil => simp [putEntry, Ne.symm h]
  | cons e rest ih =>
    by_cases he : e.1 = name
    · simp [putEntry, he, Ne.symm h]
    · simp only [putEntry, he, if_false, List.find?_cons, ih]

@[simp] theorem get?_put_self (l : Ledger α) (name : String) (value : α) :
    (l.put name value).get? name = some value := by
  simp [put, get?, find?_putEntry_self]

theorem get?_put_of_ne {name other : String} (h : other ≠ name) (l : Ledger α) (value : α) :
    (l.put name value).get? other = l.get? other := by
  simp [put, get?, find?_putEntry_of_ne h]

@[simp] theorem get?_erase_self (l : Ledger α) (name : String) :
    (l.erase name).get? name = none := by
  simp [erase, get?]

theorem get?_erase_of_ne {name other : String} (h : other ≠ name) (l : Ledger α) :
    (l.erase name).get? other = l.get? other := by
  have hp : ∀ e : String × α, (e.1 == other) = true → (e.1 != name) = true := by
    intro e he
    simp only [beq_iff_eq] at he
    simp [he, h]
  simp only [erase, get?]
  congr 1
  rw [List.find?_filter]
  congr 1
  funext e
  cases hb : e.1 == other with
  | true => simp [hp e hb]
  | false => simp

theorem get?_map {β : Type} (f : α → β) (l : Ledger α) (name : String) :
    (l.map f).get? name = (l.get? name).map f := by
  unfold map get?
  rw [List.find?_map, Option.map_map, Option.map_map]
  rfl

theorem mem_iff_get? {l : Ledger α} {name : String} {value : α} :
    (name, value) ∈ l.entries ↔ l.get? name = some value :=
  ⟨get?_of_mem, mem_of_get?_eq_some⟩

theorem nodup_entries (l : Ledger α) : l.entries.Nodup :=
  (List.pairwise_map.mp l.distinct).imp fun h he => h (congrArg Prod.fst he)

/-- Ledgers in which the same is found are the same but for the order of their entries. -/
theorem perm_of_get? {l k : Ledger α} (h : ∀ name, l.get? name = k.get? name) :
    l.entries.Perm k.entries := by
  refine (List.perm_ext_iff_of_nodup l.nodup_entries k.nodup_entries).mpr fun (name, value) => ?_
  rw [mem_iff_get?, mem_iff_get?, h]

theorem get?_of_perm {l k : Ledger α} (h : l.entries.Perm k.entries) (name : String) :
    l.get? name = k.get? name := by
  refine Option.ext fun value => ?_
  rw [← mem_iff_get?, ← mem_iff_get?, h.mem_iff]

theorem has_eq (l : Ledger α) (name : String) : l.has name = (l.get? name).isSome := by
  rw [Bool.eq_iff_iff]
  simp [has, get?, List.find?_isSome]

theorem mem_values_put {l : Ledger α} {name : String} {value other : α}
    (h : other ∈ (l.put name value).values) : other = value ∨ other ∈ l.values := by
  obtain ⟨e, he, rfl⟩ := List.mem_map.mp h
  obtain rfl | he := mem_put he
  · exact .inl rfl
  · exact .inr (List.mem_map_of_mem he)

theorem mem_erase {l : Ledger α} {name : String} {e : String × α}
    (h : e ∈ (l.erase name).entries) : e ∈ l.entries :=
  (List.mem_filter.mp h).1

theorem get?_of_not_mem {l : Ledger α} {name : String} (h : name ∉ l.names) :
    l.get? name = none := by
  cases hg : l.get? name with
  | none => rfl
  | some value => exact absurd (List.mem_map_of_mem (mem_of_get?_eq_some hg)) h

theorem mem_ofList {es : List (String × α)} {e : String × α} (h : e ∈ (ofList es).entries) :
    e ∈ es := by
  have hfold : ∀ l : Ledger α, e ∈ (es.foldl (fun l e => l.put e.1 e.2) l).entries →
      e ∈ l.entries ∨ e ∈ es := by
    clear h
    induction es with
    | nil => exact fun l hl => .inl hl
    | cons d es ih =>
      intro l hl
      obtain hl | hl := ih _ hl
      · obtain rfl | hl := mem_put hl
        · exact .inr List.mem_cons_self
        · exact .inl hl
      · exact .inr (List.mem_cons_of_mem _ hl)
  exact (hfold empty h).elim (fun h => by simp [empty] at h) id

theorem entries_ofList {es : List (String × α)} (h : (es.map Prod.fst).Nodup) :
    (ofList es).entries = es := by
  have hfold : ∀ l : Ledger α, (∀ e ∈ es, e.1 ∉ l.names) →
      (es.foldl (fun l e => l.put e.1 e.2) l).entries = l.entries ++ es := by
    induction es with
    | nil => exact fun l _ => (List.append_nil _).symm
    | cons e es ih =>
      intro l hl
      obtain ⟨he, h⟩ := List.nodup_cons.mp h
      obtain ⟨hel, hl⟩ := List.forall_mem_cons.mp hl
      have hput := entries_put_of_not_mem hel e.2
      rw [List.foldl_cons, ih h, hput, List.append_assoc, List.singleton_append]
      intro d hd hm
      rw [names, hput, List.map_append, List.mem_append] at hm
      obtain hm | hm := hm
      · exact hl d hd hm
      · have hname : d.1 = e.1 := by simpa using hm
        exact he (hname ▸ List.mem_map_of_mem hd)
  exact hfold .empty fun e _ => List.not_mem_nil

theorem get?_ofList (es : List (String × α)) (name : String) :
    (ofList es).get? name = (es.filter (·.1 = name)).getLast?.map Prod.snd := by
  have hfold : ∀ l : Ledger α, (es.foldl (fun l e => l.put e.1 e.2) l).get? name =
      ((es.filter (·.1 = name)).getLast?.map Prod.snd).or (l.get? name) := by
    induction es with
    | nil => exact fun l => rfl
    | cons e es ih =>
      intro l
      rw [List.foldl_cons, ih, List.filter_cons]
      by_cases he : e.1 = name
      · subst he
        simp only [get?_put_self, decide_true, if_true, List.getLast?_cons]
        cases (es.filter (·.1 = e.1)).getLast? <;> rfl
      · simp [get?_put_of_ne (Ne.symm he), he]
  exact (hfold empty).trans (Option.or_none)

theorem eq_of_entries {l k : Ledger α} (h : l.entries = k.entries) : l = k := by
  cases l
  cases k
  cases h
  rfl

section

variable {l : Ledger α} {before after : List (String × α)} {name : String} {old : α}

theorem not_mem_of_entries (h : l.entries = before ++ (name, old) :: after) :
    (∀ e ∈ before, e.1 ≠ name) ∧ ∀ e ∈ after, e.1 ≠ name := by
  have hd := l.distinct
  rw [h, List.map_append, List.map_cons, List.nodup_append] at hd
  obtain ⟨-, hafter, hbefore⟩ := hd
  refine ⟨fun e he => hbefore _ (List.mem_map_of_mem he) _ List.mem_cons_self, ?_⟩
  rintro e he rfl
  exact (List.nodup_cons.mp hafter).1 (List.mem_map.mpr ⟨e, he, rfl⟩)

theorem entries_put_of_entries (h : l.entries = before ++ (name, old) :: after) (value : α) :
    (l.put name value).entries = before ++ (name, value) :: after := by
  have hbefore := (not_mem_of_entries h).1
  unfold put
  dsimp only
  rw [h]
  clear h
  induction before with
  | nil => simp [putEntry]
  | cons e before ih =>
    obtain ⟨he, hbefore⟩ := List.forall_mem_cons.mp hbefore
    rw [List.cons_append, putEntry, if_neg he, ih hbefore, List.cons_append]

theorem entries_erase_of_entries (h : l.entries = before ++ (name, old) :: after) :
    (l.erase name).entries = before ++ after := by
  obtain ⟨hbefore, hafter⟩ := not_mem_of_entries h
  unfold erase
  dsimp only
  rw [h, List.filter_append, List.filter_cons_of_neg (by simp),
    List.filter_eq_self.mpr fun e he => by simpa using hbefore e he,
    List.filter_eq_self.mpr fun e he => by simpa using hafter e he]

end

theorem put_put (l : Ledger α) (name : String) (value other : α) :
    (l.put name value).put name other = l.put name other := by
  refine eq_of_entries ?_
  unfold put
  dsimp only
  generalize l.entries = es
  induction es with
  | nil => simp [putEntry]
  | cons e es ih => by_cases h : e.1 = name <;> simp [putEntry, h, ih]

theorem erase_put (l : Ledger α) (name : String) (value : α) :
    (l.put name value).erase name = l.erase name := by
  refine eq_of_entries ?_
  unfold put erase
  dsimp only
  generalize l.entries = es
  induction es with
  | nil => simp [putEntry]
  | cons e es ih => by_cases h : e.1 = name <;> simp [putEntry, h, ih]

section

variable {β : Type} (op : β → β → β) [Std.Commutative op] [Std.Associative op] (zero : β)
  (f : α → β)

def gather (l : Ledger α) : β := (l.values.map f).foldr op zero

theorem gather_put_of_not_mem {l : Ledger α} {name : String} (h : name ∉ l.names) (value : α) :
    (l.put name value).gather op zero f = op (l.gather op zero f) (f value) := by
  unfold gather values
  rw [entries_put_of_not_mem h]
  induction l.entries with
  | nil => exact Std.Commutative.comm _ _
  | cons e es ih =>
    simp only [List.cons_append, List.map_cons, List.foldr_cons, ih]
    exact (Std.Associative.assoc _ _ _).symm

theorem gather_put_of_get? {l : Ledger α} {name : String} {old new : α} {more : β}
    (h : l.get? name = some old) (hf : f new = op (f old) more) :
    (l.put name new).gather op zero f = op (l.gather op zero f) more := by
  have hassoc : ∀ a b c, op (op a b) c = op a (op b c) := Std.Associative.assoc
  have hcomm : ∀ a b, op a b = op b a := Std.Commutative.comm
  unfold gather values put
  unfold get? at h
  dsimp only
  generalize l.entries = es at h
  induction es with
  | nil => cases h
  | cons e es ih =>
    by_cases he : e.1 = name
    · have hold : e.2 = old := by simpa [he] using h
      simp only [putEntry, he, if_true, List.map_cons, List.foldr_cons, hf, hold]
      rw [hassoc, hassoc, hcomm more]
    · simp only [putEntry, he, if_false, List.map_cons, List.foldr_cons]
      rw [ih (by simpa [he] using h), hassoc]

end

end Duel.Ledger
