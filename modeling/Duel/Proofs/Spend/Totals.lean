import Duel.Proofs.Ledger
import Duel.Proofs.Text
import Duel.Status.Totals
import Mathlib.Data.List.Nodup
import Mathlib.Data.List.Perm.Basic

namespace Duel.Spend

variable {R : Type} {summaries later : List (Summary R)} {P : Result R → Prop}

def Bring (P : Result R → Prop) (summaries : List (Summary R)) : Prop :=
  ∀ s ∈ summaries, ∀ r ∈ s.results, P r

theorem Bring.append (h : Bring P summaries) (h' : Bring P later) : Bring P (summaries ++ later) :=
  fun s hs => (List.mem_append.mp hs).elim (h s) (h' s)

theorem bring_enter {l : Ledger (Summary R)} {s : Summary R} (h : Bring P l.values)
    (hs : ∀ r ∈ s.results, P r) : Bring P (Summary.enter l s).values := by
  intro t ht
  obtain ⟨e, he, rfl⟩ := List.mem_map.mp ht
  obtain rfl | he := Ledger.mem_put he
  · cases hg : l.get? s.id with
    | none => exact hs
    | some earlier =>
      have hearlier := h earlier (List.mem_map_of_mem (Ledger.mem_of_get?_eq_some hg))
      exact fun r hr => (List.mem_append.mp hr).elim (hearlier r) (hs r)
  · exact h _ (List.mem_map_of_mem he)

theorem bring_byId (h : Bring P summaries) : Bring P (Summary.byId summaries).values := by
  have hfold : ∀ l : Ledger (Summary R), Bring P l.values →
      Bring P (summaries.foldl Summary.enter l).values := by
    induction summaries with
    | nil => exact fun l hl => hl
    | cons s summaries ih =>
      intro l hl
      obtain ⟨hs, h⟩ := List.forall_mem_cons.mp h
      exact ih h _ (bring_enter hl hs)
  exact hfold .empty (by simp [Bring, Ledger.values, Ledger.empty])

theorem bring_ofSummaries (h : Bring P summaries) :
    Bring P (Totals.ofSummaries summaries).byStatus.values := by
  intro s hs
  obtain ⟨e, he, rfl⟩ := List.mem_map.mp hs
  have hm := List.mem_mergeSort.mp (Ledger.mem_ofList he)
  exact bring_byId h _ (List.mem_map_of_mem hm)

theorem mem_of_least? [Scalar R] {xs : List R} {x : R} (h : Scalar.least? xs = some x) :
    x ∈ xs := by
  cases xs with
  | nil => cases h
  | cons y ys =>
    cases h
    induction ys generalizing y with
    | nil => exact List.mem_singleton.mpr rfl
    | cons z ys ih =>
      rw [List.foldl_cons]
      obtain hm | hm := List.mem_cons.mp (ih (if Scalar.less z y then z else y))
      · rw [hm]
        split
        · exact List.mem_cons_of_mem _ List.mem_cons_self
        · exact List.mem_cons_self
      · exact List.mem_cons_of_mem _ (List.mem_cons_of_mem _ hm)

theorem factor_brought [Scalar R] (h : Bring P summaries) {f : R}
    (hf : (Totals.ofSummaries summaries).factor = some f) : ∃ r, P r ∧ r.factor = some f := by
  obtain ⟨s, hs, hf⟩ := List.mem_flatMap.mp (mem_of_least? hf)
  obtain ⟨r, hr, hf⟩ := List.mem_filterMap.mp hf
  exact ⟨r, bring_ofSummaries h s hs r hr, hf⟩

/-- The spends are of different statuses: no two of their ids have the same text. -/
def Apart (summaries : List (Summary R)) : Prop :=
  (summaries.map fun s => Text.codes s.id).Nodup

theorem Apart.ids (h : Apart summaries) : (summaries.map (·.id)).Nodup :=
  .of_map Text.codes (by simpa [Apart, Function.comp_def] using h)

theorem entries_byId (h : (summaries.map (·.id)).Nodup) :
    (Summary.byId summaries).entries = summaries.map fun s => (s.id, s) := by
  have hfold : ∀ l : Ledger (Summary R), (∀ s ∈ summaries, s.id ∉ l.names) →
      (summaries.foldl Summary.enter l).entries =
        l.entries ++ summaries.map fun s => (s.id, s) := by
    induction summaries with
    | nil => exact fun l _ => (List.append_nil _).symm
    | cons s summaries ih =>
      intro l hl
      obtain ⟨hs, h⟩ := List.nodup_cons.mp h
      obtain ⟨hsl, hl⟩ := List.forall_mem_cons.mp hl
      have he : (Summary.enter l s).entries = l.entries ++ [(s.id, s)] := by
        rw [Summary.enter, Ledger.get?_of_not_mem hsl, Ledger.entries_put_of_not_mem hsl]
      rw [List.foldl_cons, ih h, he, List.append_assoc, List.map_cons, List.singleton_append]
      intro t ht hm
      rw [Ledger.names, he, List.map_append, List.mem_append] at hm
      obtain hm | hm := hm
      · exact hl t ht hm
      · have hid : t.id = s.id := by simpa using hm
        exact hs (List.mem_map.mpr ⟨t, ht, hid⟩)
  exact hfold .empty fun s _ => List.not_mem_nil

namespace Totals

theorem nodup_ordered (l : Ledger (Summary R)) : ((ordered l).map Prod.fst).Nodup :=
  ((List.mergeSort_perm _ _).map Prod.fst).nodup_iff.mpr l.distinct

theorem pairwise_ordered (l : Ledger (Summary R)) :
    (ordered l).Pairwise fun a b => Text.atMost a.1 b.1 = true := by
  refine List.pairwise_mergeSort ?_ ?_ l.entries
  · exact fun _ _ _ => Text.atMost_trans
  · exact fun _ _ => Text.atMost_total _ _

theorem ordered_congr {l k : Ledger (Summary R)} (h : l.entries.Perm k.entries)
    (hcodes : ∀ a ∈ l.entries, ∀ b ∈ l.entries, Text.codes a.1 = Text.codes b.1 → a = b) :
    ordered l = ordered k := by
  refine List.Perm.eq_of_pairwise ?_ (pairwise_ordered l) (pairwise_ordered k)
    (((List.mergeSort_perm _ _).trans h).trans (List.mergeSort_perm _ _).symm)
  intro a b ha hb hab hba
  exact hcodes a (List.mem_mergeSort.mp ha) b (h.mem_iff.mpr (List.mem_mergeSort.mp hb))
    (Text.codes_eq_of_atMost hab hba)

theorem entries_byStatus (summaries : List (Summary R)) :
    (ofSummaries summaries).byStatus.entries = ordered (Summary.byId summaries) :=
  Ledger.entries_ofList (nodup_ordered _)

theorem values_byStatus (summaries : List (Summary R)) :
    (ofSummaries summaries).byStatus.values =
      (ordered (Summary.byId summaries)).map Prod.snd :=
  congrArg (·.map Prod.snd) (entries_byStatus summaries)

end Totals

theorem ofSummaries_perm (h : summaries.Perm later) (ha : Apart summaries) :
    Totals.ofSummaries summaries = Totals.ofSummaries later := by
  have hl : (later.map (·.id)).Nodup := (h.map _).nodup_iff.mp ha.ids
  have hordered :
      Totals.ordered (Summary.byId summaries) = Totals.ordered (Summary.byId later) := by
    refine Totals.ordered_congr ?_ ?_
    · rw [entries_byId ha.ids, entries_byId hl]
      exact h.map _
    · rw [entries_byId ha.ids]
      intro a hma b hmb hcodes
      obtain ⟨s, hs, rfl⟩ := List.mem_map.mp hma
      obtain ⟨t, ht, rfl⟩ := List.mem_map.mp hmb
      rw [List.inj_on_of_nodup_map ha hs ht hcodes]
  unfold Totals.ofSummaries
  rw [hordered]

def Additive {β : Type} (op : β → β → β) (f : Summary R → β) : Prop :=
  ∀ s t : Summary R, f (s.join t) = op (f s) (f t)

section

variable {β : Type} {op : β → β → β} [Std.Commutative op] [Std.Associative op] (zero : β)
  [Std.LawfulIdentity op zero] {f : Summary R → β}

omit [Std.LawfulIdentity op zero] in
theorem gather_enter (hf : Additive op f) (l : Ledger (Summary R)) (s : Summary R) :
    (Summary.enter l s).gather op zero f = op (l.gather op zero f) (f s) := by
  unfold Summary.enter
  cases hg : l.get? s.id with
  | none =>
    refine Ledger.gather_put_of_not_mem op zero f (fun hm => ?_) s
    have hhas := Ledger.has_iff.mpr hm
    rw [Ledger.has_eq, hg] at hhas
    cases hhas
  | some earlier => exact Ledger.gather_put_of_get? op zero f hg (hf earlier s)

theorem gather_byId (hf : Additive op f) (summaries : List (Summary R)) :
    (Summary.byId summaries).gather op zero f = (summaries.map f).foldr op zero := by
  have hfold : ∀ l : Ledger (Summary R), (summaries.foldl Summary.enter l).gather op zero f =
      op (l.gather op zero f) ((summaries.map f).foldr op zero) := by
    induction summaries with
    | nil => exact fun l => (Std.LawfulRightIdentity.right_id _).symm
    | cons s summaries ih =>
      intro l
      rw [List.foldl_cons, ih, gather_enter zero hf]
      exact Std.Associative.assoc _ _ _
  exact (hfold .empty).trans (Std.LawfulLeftIdentity.left_id _)

/-- The totals of spends have in them what the spends have. -/
theorem foldr_byStatus (hf : Additive op f) (summaries : List (Summary R)) :
    ((Totals.ofSummaries summaries).byStatus.values.map f).foldr op zero =
      (summaries.map f).foldr op zero := by
  rw [Totals.values_byStatus]
  have hp : (Totals.ordered (Summary.byId summaries)).Perm (Summary.byId summaries).entries :=
    List.mergeSort_perm _ _
  exact ((hp.map Prod.snd).map f).foldr_op_eq.trans (gather_byId zero hf summaries)

end

theorem total_byStatus {f : Summary R → Int} (hf : Additive (· + ·) f)
    (summaries : List (Summary R)) :
    total ((Totals.ofSummaries summaries).byStatus.values.map f) = total (summaries.map f) :=
  foldr_byStatus 0 hf summaries

theorem foldr_or {α : Type} {P : α → Prop} (xs : List α) :
    (xs.map P).foldr Or False ↔ ∃ x ∈ xs, P x := by
  induction xs with
  | nil => simp
  | cons x xs ih => simp [ih]

theorem exists_byStatus {P : Summary R → Prop} (hP : ∀ s t : Summary R, P (s.join t) ↔ P s ∨ P t)
    (summaries : List (Summary R)) :
    (∃ s ∈ (Totals.ofSummaries summaries).byStatus.values, P s) ↔ ∃ s ∈ summaries, P s := by
  rw [← foldr_or, ← foldr_or, foldr_byStatus False fun s t => propext (hP s t)]

namespace Totals

theorem damage_eq (summaries : List (Summary R)) :
    (ofSummaries summaries).damage = total (summaries.map (·.damage)) := by
  rw [← total_byStatus fun _ _ => rfl, Totals.values_byStatus]
  rfl

theorem block_eq (summaries : List (Summary R)) :
    (ofSummaries summaries).block = total (summaries.map (·.block)) := by
  rw [← total_byStatus fun _ _ => rfl, Totals.values_byStatus]
  rfl

theorem negates_eq (summaries : List (Summary R)) :
    (ofSummaries summaries).negates = summaries.any (·.negates) := by
  have hvalues : (ofSummaries summaries).negates =
      (ofSummaries summaries).byStatus.values.any (·.negates) := by
    rw [Totals.values_byStatus]
    rfl
  rw [hvalues, Bool.eq_iff_iff, List.any_eq_true, List.any_eq_true]
  exact exists_byStatus (fun s t => by simp [Summary.join]) summaries

theorem mem_factors {summaries : List (Summary R)} {x : R} :
    (x ∈ (ofSummaries summaries).byStatus.values.flatMap fun s => s.results.filterMap (·.factor)) ↔
      x ∈ summaries.flatMap fun s => s.results.filterMap (·.factor) := by
  rw [List.mem_flatMap, List.mem_flatMap]
  exact exists_byStatus (fun s t => by simp [Summary.join]) summaries

end Totals

end Duel.Spend
