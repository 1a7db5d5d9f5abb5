import Duel.Status.Draft
import Duel.Proofs.Ledger
import Mathlib.Data.List.Induction
import Mathlib.Data.List.Nodup

namespace Duel

theorem idxOf_lt_insert {xs : List String} {x : String} (hx : x ∈ xs) (ys : List String)
    (a b : String) : (xs ++ x :: ys).idxOf a < (xs ++ x :: ys).idxOf b ↔
      (xs ++ ys).idxOf a < (xs ++ ys).idxOf b := by
  have hafter : ∀ c, c ∉ xs → (x :: ys).idxOf c = ys.idxOf c + 1 := by
    intro c hc
    have hne : x ≠ c := fun h => hc (h ▸ hx)
    rw [List.idxOf_cons, beq_false_of_ne hne, cond_false]
  simp only [List.idxOf_append]
  by_cases ha : a ∈ xs
  · have := List.idxOf_lt_length_iff.mpr ha
    by_cases hb : b ∈ xs
    · simp only [if_pos ha, if_pos hb]
    · simp only [if_pos ha, if_neg hb]
      omega
  · by_cases hb : b ∈ xs
    · have := List.idxOf_lt_length_iff.mpr hb
      simp only [if_neg ha, if_pos hb]
      omega
    · simp only [if_neg ha, if_neg hb, hafter a ha, hafter b hb]
      omega

/-- In a ledger names come in the order in which they were first given. -/
theorem Ledger.idxOf_ofList {α : Type} (es : List (String × α)) (a b : String) :
    (ofList es).names.idxOf a < (ofList es).names.idxOf b ↔
      (es.map Prod.fst).idxOf a < (es.map Prod.fst).idxOf b := by
  have hfold : ∀ l : Ledger α,
      (es.foldl (fun l e => l.put e.1 e.2) l).names.idxOf a <
        (es.foldl (fun l e => l.put e.1 e.2) l).names.idxOf b ↔
      (l.names ++ es.map Prod.fst).idxOf a < (l.names ++ es.map Prod.fst).idxOf b := by
    induction es with
    | nil => simp
    | cons e es ih =>
      intro l
      rw [List.foldl_cons, ih, names_put, List.map_cons]
      by_cases he : e.1 ∈ l.names
      · rw [if_pos he, idxOf_lt_insert he]
      · rw [if_neg he, List.append_assoc, List.singleton_append]
  exact hfold empty

theorem Ledger.names_ofList {α : Type} (es : List (String × α)) :
    (ofList es).names = (es.map Prod.fst).eraseDups := by
  induction es using List.reverseRecOn with
  | nil => rfl
  | append_singleton es e ih =>
    have hput : ofList (es ++ [e]) = (ofList es).put e.1 e.2 := List.foldl_append
    rw [hput, names_put, ih, List.map_append, List.eraseDups_append]
    by_cases he : e.1 ∈ es.map Prod.fst <;>
      simp [List.removeAll, List.mem_eraseDups, he, List.eraseDups_cons]

namespace Registry.Tables

section

variable {R : Type} {t : Tables R} {s : Status R} {id : String}

theorem contains_iff : t.contains id = true ↔ id ∈ t.statuses.names := Ledger.has_iff

theorem InStep.orderOf_eq (h : t.InStep) (id : String) :
    t.orderOf id = t.statuses.names.idxOf id := by
  by_cases hid : id ∈ t.statuses.names
  · have hplace : (id, t.statuses.names.idxOf id) ∈ t.places.entries := by
      rw [h.placed, List.mem_zipIdx_iff_getElem?]
      exact List.getElem?_idxOf hid
    rw [orderOf, Ledger.get?_of_mem hplace, Option.getD_some]
  · rw [orderOf, Ledger.get?_of_not_mem (h.names ▸ hid), Option.getD_none, h.free,
      List.idxOf_eq_length hid]

theorem InStep.id_of_get? (h : t.InStep) (hs : t.get? id = some s) : s.id = id :=
  h.named _ (Ledger.mem_of_get?_eq_some hs)

theorem mem_names_of_get? (hs : t.get? id = some s) : id ∈ t.statuses.names :=
  List.mem_map_of_mem (Ledger.mem_of_get?_eq_some hs)

theorem InStep.eq_of_orderOf (h : t.InStep) {a b : Status R} (ha : t.get? a.id = some a)
    (hb : t.get? b.id = some b) (hab : t.orderOf a.id = t.orderOf b.id) : a = b := by
  rw [h.orderOf_eq, h.orderOf_eq] at hab
  have hid : a.id = b.id := by
    rw [← List.getElem_idxOf (List.idxOf_lt_length_iff.mpr (mem_names_of_get? ha)),
      ← List.getElem_idxOf (List.idxOf_lt_length_iff.mpr (mem_names_of_get? hb))]
    congr 1
  exact Option.some.inj (ha.symm.trans ((congrArg t.get? hid).trans hb))

theorem InStep.orderOf_define (h : t.InStep) (hs : t.contains s.id = true) (id : String) :
    (t.define s).orderOf id = t.orderOf id := by
  have hplace : t.place s.id = t := if_pos (Ledger.has_iff.mpr (h.names ▸ contains_iff.mp hs))
  rw [Tables.define, hplace]
  rfl

theorem get?_define_self (t : Tables R) (s : Status R) : (t.define s).get? s.id = some s := by
  rw [get?, statuses_define, Ledger.get?_put_self]

theorem get?_define_of_ne (h : id ≠ s.id) (t : Tables R) : (t.define s).get? id = t.get? id := by
  rw [get?, statuses_define, Ledger.get?_put_of_ne h, get?]

/-- The definitions determine the places. -/
theorem InStep.eq_of_statuses {u : Tables R} (h : t.InStep) (hu : u.InStep)
    (hs : t.statuses = u.statuses) : t = u := by
  have hplaces : t.places = u.places :=
    Ledger.eq_of_entries (by rw [h.placed, hu.placed, hs])
  have hnext : t.next = u.next := by rw [h.free, hu.free, hs]
  obtain ⟨statuses, places, next⟩ := t
  cases hs
  cases hplaces
  cases hnext
  rfl

theorem InStep.get?_of_mem (h : t.InStep) (hs : s ∈ t.statuses.values) :
    t.get? s.id = some s := by
  obtain ⟨e, he, rfl⟩ := List.mem_map.mp hs
  exact Ledger.get?_of_mem (h.named e he ▸ he)

theorem InStep.orderOf_of_values (h : t.InStep) {i : Nat} (hs : t.statuses.values[i]? = some s) :
    t.orderOf s.id = i := by
  have hi : t.statuses.names[i]? = some s.id := by
    rw [← h.map_id, List.getElem?_map, hs]
    rfl
  obtain ⟨hlt, hi⟩ := List.getElem?_eq_some_iff.mp hi
  rw [h.orderOf_eq, ← hi]
  exact t.statuses.distinct.idxOf_getElem i hlt

theorem InStep.orderOf_of_unknown (h : t.InStep) (hid : t.contains id = false) :
    t.orderOf id = t.statuses.values.length := by
  have hid : id ∉ t.statuses.names := fun hm => by
    rw [contains_iff.mpr hm] at hid
    cases hid
  rw [h.orderOf_eq, List.idxOf_eq_length hid, ← h.map_id, List.length_map]

end

end Registry.Tables

namespace Registry

theorem id_of_get? {R : Type} {reg : Registry R} {s : Status R} {id : String}
    (h : reg.get? id = some s) : s.id = id :=
  reg.inStep.id_of_get? h

def Call.note (defined : List (Status Number)) : Call → List (Status Number)
  | .define draft =>
    match draft.finish with
    | .ok s => defined ++ [s]
    | .error _ => defined
  | .reset => []

/-- All that was defined since the last reset, in the order of the calls. -/
def defined (calls : List Call) : List (Status Number) := calls.foldl Call.note []

/-- The definition of an id that counts. -/
def latest (calls : List Call) (id : String) : Option (Status Number) :=
  ((defined calls).filter (·.id = id)).getLast?

/-- The place of the first definition of an id among all definitions. -/
def first (calls : List Call) (id : String) : Nat := ((defined calls).map (·.id)).idxOf id

theorem defined_append (calls later : List Call) :
    defined (calls ++ later) = later.foldl Call.note (defined calls) := List.foldl_append

theorem statuses_after (calls : List Call) :
    (Tables.after calls).statuses = .ofList ((defined calls).map fun s => (s.id, s)) := by
  have hfold : ∀ (t : Tables Number) (ss : List (Status Number)),
      t.statuses = .ofList (ss.map fun s => (s.id, s)) →
      (calls.foldl Tables.apply t).statuses =
        .ofList ((calls.foldl Call.note ss).map fun s => (s.id, s)) := by
    induction calls with
    | nil => exact fun t ss h => h
    | cons c calls ih =>
      intro t ss h
      rw [List.foldl_cons, List.foldl_cons]
      apply ih
      cases c with
      | reset => rfl
      | define draft =>
        rw [Tables.apply, Tables.enter_run, Call.note]
        cases draft.finish with
        | error fault => exact h
        | ok s =>
          rw [Tables.statuses_define, h, List.map_append, Ledger.ofList, Ledger.ofList,
            List.foldl_append]
          rfl
  exact hfold {} [] rfl

theorem get?_after (calls : List Call) (id : String) :
    (after calls).get? id = latest calls id := by
  rw [Tables.get?, after, statuses_after, Ledger.get?_ofList, List.filter_map, List.getLast?_map,
    Option.map_map]
  exact Option.map_id'

theorem names_after (calls : List Call) :
    (Tables.after calls).statuses.names = ((defined calls).map (·.id)).eraseDups := by
  rw [statuses_after, Ledger.names_ofList, List.map_map]
  rfl

theorem orderOf_lt_iff (calls : List Call) (a b : String) :
    (after calls).orderOf a < (after calls).orderOf b ↔ first calls a < first calls b := by
  rw [(after calls).inStep.orderOf_eq, (after calls).inStep.orderOf_eq, after, statuses_after,
    Ledger.idxOf_ofList, List.map_map]
  rfl

theorem id_of_finish {draft : Status.Draft} {s : Status Number} (h : draft.finish = .ok s) :
    s.id = draft.status.id := by
  unfold Status.Draft.finish at h
  split at h
  · cases h
    rfl
  next id _ =>
    cases hb : Behavior.ofConfig id draft.config with
    | error fault => simp [hb, Except.map] at h
    | ok b =>
      rw [hb] at h
      cases h
      rfl

theorem enter_eq (reg : Registry Number) (draft : Status.Draft) : reg.enter draft =
    (draft.finish, match draft.finish with
      | .ok s => reg.define s
      | .error _ => reg) := by
  cases h : draft.finish <;> simp only [enter, Tables.enter_run, h, define]

theorem after_define (calls : List Call) (draft : Status.Draft) :
    Tables.after (calls ++ [.define draft]) =
      ((Tables.enter draft).run.run (Tables.after calls)).2 := by
  rw [Tables.after, List.foldl_append]
  rfl

theorem orderOf_after_define {calls : List Call} {draft : Status.Draft}
    (h : (after calls).contains draft.status.id) (id : String) :
    (after (calls ++ [.define draft])).orderOf id = (after calls).orderOf id := by
  change (Tables.after _).orderOf id = (Tables.after calls).orderOf id
  rw [after_define, Tables.enter_run]
  cases hf : draft.finish with
  | error fault => rfl
  | ok s => exact (after calls).inStep.orderOf_define (id_of_finish hf ▸ h) id

/-- The statuses of a registry are those that were defined since the last reset, each as it was
defined last and in the place where it was defined first. Whatever is refused leaves no trace, and
an id that is not there comes after all that are. -/
theorem keeps_definitions (calls : List Call) :
    (∀ draft fault t, (Tables.enter draft).run.run (Tables.after calls) = (.error fault, t) →
      t = Tables.after calls ∧ defined (calls ++ [.define draft]) = defined calls) ∧
    (∀ draft s t, (Tables.enter draft).run.run (Tables.after calls) = (.ok s, t) →
      defined (calls ++ [.define draft]) = defined calls ++ [s]) ∧
    (∀ id, (Tables.after calls).contains id = true ↔ ∃ s ∈ defined calls, s.id = id) ∧
    (∀ id, (Tables.after calls).get? id = latest calls id) ∧
    ∃ ss, (Tables.after calls).list = some ss ∧
      ss.map (·.id) = ((defined calls).map (·.id)).eraseDups ∧ (ss.map (·.id)).Nodup ∧
      (∀ i s, ss[i]? = some s →
        (Tables.after calls).get? s.id = some s ∧ (Tables.after calls).orderOf s.id = i) ∧
      ∀ id, (Tables.after calls).contains id = false →
        (Tables.after calls).orderOf id = ss.length := by
  have hstep := Tables.inStep_after calls
  refine ⟨fun draft fault t h => ?_, fun draft s t h => ?_, fun id => ?_, get?_after calls,
    _, hstep.list_eq, ?_, ?_, fun i s hs => ⟨hstep.get?_of_mem (List.mem_of_getElem? hs),
      hstep.orderOf_of_values hs⟩, fun id hid => hstep.orderOf_of_unknown hid⟩
  · rw [Tables.enter_run] at h
    rw [defined_append, List.foldl_cons, List.foldl_nil, Call.note]
    cases hf : draft.finish with
    | ok s =>
      rw [hf] at h
      cases h
    | error cause =>
      rw [hf] at h
      exact ⟨(congrArg Prod.snd h).symm, rfl⟩
  · rw [Tables.enter_run] at h
    rw [defined_append, List.foldl_cons, List.foldl_nil, Call.note]
    cases hf : draft.finish with
    | error cause =>
      rw [hf] at h
      cases h
    | ok s' =>
      rw [hf] at h
      cases h
      rfl
  · rw [Tables.contains_iff, names_after, List.mem_eraseDups, List.mem_map]
  · rw [hstep.map_id, names_after]
  · rw [hstep.map_id]
    exact (Tables.after calls).statuses.distinct

def plain (id name : String) : Status.Draft := { status := { id, name } }

def baseless : Status.Draft where
  status := { id := "chi", name := "Chi without threshold" }
  behavior := some "pre_defense_reaction"

def restless : List Call :=
  [.define (plain "burn" "Burn"), .reset, .define (plain "chi" "Chi"), .define baseless,
    .define (plain "focus" "Focus"), .define (plain "chi" "Chi v2")]

theorem keeps_definitions_restless :
    (∃ ss, (Tables.after restless).list = some ss ∧
      ss.map (fun s => (s.id, s.name)) = [("chi", "Chi v2"), ("focus", "Focus")] ∧
      (Tables.after restless).orderOf "focus" = 1 ∧ (Tables.after restless).orderOf "burn" = 2) ∧
    ((Tables.enter baseless).run.run (Tables.after restless)).2 = Tables.after restless := by
  obtain ⟨hrefused, -, -, -, ss, hlist, -, -, hplace, hunknown⟩ := keeps_definitions restless
  have hss : (Tables.after restless).statuses.values = ss :=
    Option.some.inj ((Tables.inStep_after restless).list_eq.symm.trans hlist)
  have hnames : ss.map (fun s => (s.id, s.name)) = [("chi", "Chi v2"), ("focus", "Focus")] := by
    rw [← hss]
    decide +kernel
  have hlength : ss.length = 2 := by simpa using congrArg List.length hnames
  have hfocus : (ss[1]?.map fun s => (s.id, s.name)) = some ("focus", "Focus") := by
    rw [← List.getElem?_map, hnames]
    rfl
  obtain ⟨s, hs, hid⟩ := Option.map_eq_some_iff.mp hfocus
  refine ⟨⟨ss, hlist, hnames, ?_, ?_⟩, ?_⟩
  · have hplaced := (hplace 1 s hs).2
    rwa [(Prod.mk.inj hid).1] at hplaced
  · exact (hunknown "burn" (by decide +kernel)).trans hlength
  · have hfault : ((Tables.enter baseless).run.run (Tables.after restless)).1.toBool = false := by
      decide +kernel
    cases hrun : (Tables.enter baseless).run.run (Tables.after restless) with
    | mk answer t =>
      cases answer with
      | error fault => exact (hrefused baseless fault t hrun).1
      | ok s => simp [hrun, Except.toBool] at hfault

end Registry

end Duel
