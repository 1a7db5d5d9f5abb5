import Duel.Proofs.Spend.Totals
import Mathlib.Data.List.Induction

namespace Duel.Spend

variable {R : Type} {summaries later : List (Summary R)} {id : String} {s : Summary R}

namespace Summary

/-- What several summaries of a status come to. -/
def together (id : String) (parts : List (Summary R)) : Summary R where
  id
  spent := total (parts.map (·.spent))
  damage := total (parts.map (·.damage))
  block := total (parts.map (·.block))
  negates := parts.any (·.negates)
  successes := total (parts.map (·.successes))
  logs := parts.flatMap (·.logs)
  results := parts.flatMap (·.results)

def joined (summaries : List (Summary R)) (id : String) : Option (Summary R) :=
  match summaries.filter (·.id = id) with
  | [] => none
  | parts => some (together id parts)

theorem together_singleton (s : Summary R) : together s.id [s] = s := by
  cases s
  simp [together, total_singleton]

theorem join_together (id : String) (parts : List (Summary R)) (s : Summary R) :
    (together id parts).join s = together id (parts ++ [s]) := by
  simp [together, join, total_append, total_singleton]

theorem joined_concat_self (summaries : List (Summary R)) (s : Summary R) :
    joined (summaries ++ [s]) s.id = some (match joined summaries s.id with
      | some earlier => earlier.join s
      | none => s) := by
  unfold joined
  rw [List.filter_append, List.filter_cons_of_pos (by simp), List.filter_nil]
  cases summaries.filter (·.id = s.id) with
  | nil => exact congrArg some (together_singleton s)
  | cons t parts => exact congrArg some (join_together s.id (t :: parts) s).symm

theorem joined_concat_of_ne (h : s.id ≠ id) :
    joined (summaries ++ [s]) id = joined summaries id := by
  unfold joined
  rw [List.filter_append, List.filter_cons_of_neg (by simpa using h), List.filter_nil,
    List.append_nil]

theorem id_of_joined (h : joined summaries id = some s) : s.id = id := by
  unfold joined at h
  split at h
  · cases h
  · cases h
    rfl

theorem mem_of_joined (h : joined summaries id = some s) : ∃ t ∈ summaries, t.id = id := by
  unfold joined at h
  cases hf : summaries.filter (·.id = id) with
  | nil =>
    rw [hf] at h
    cases h
  | cons t parts =>
    have ht : t ∈ summaries.filter (·.id = id) := hf ▸ List.mem_cons_self
    exact ⟨t, List.mem_of_mem_filter ht, by simpa using List.of_mem_filter ht⟩

theorem get?_byId (summaries : List (Summary R)) (id : String) :
    (byId summaries).get? id = joined summaries id := by
  induction summaries using List.reverseRecOn with
  | nil => rfl
  | append_singleton summaries s ih =>
    rw [byId, List.foldl_append, List.foldl_cons, List.foldl_nil, ← byId, enter]
    by_cases hs : s.id = id
    · subst hs
      rw [Ledger.get?_put_self, ih]
      exact (joined_concat_self summaries s).symm
    · rw [Ledger.get?_put_of_ne (Ne.symm hs), ih, joined_concat_of_ne hs]

theorem byId_values {l : Ledger (Summary R)} (h : ∀ e ∈ l.entries, e.2.id = e.1) :
    byId l.values = l := by
  have hnames : l.values.map (·.id) = l.names := by
    rw [Ledger.values, List.map_map]
    exact List.map_congr_left h
  have hentry : ∀ e ∈ l.entries, ((fun s : Summary R => (s.id, s)) ∘ Prod.snd) e = e :=
    fun e he => Prod.ext (h e he) rfl
  refine Ledger.eq_of_entries ?_
  rw [entries_byId (hnames ▸ l.distinct), Ledger.values, List.map_map]
  exact (List.map_congr_left hentry).trans (List.map_id' _)

end Summary

namespace Totals

open Summary (joined together)

theorem get?_byStatus (summaries : List (Summary R)) (id : String) :
    (ofSummaries summaries).byStatus.get? id = joined summaries id := by
  rw [← Summary.get?_byId]
  refine Ledger.get?_of_perm ?_ id
  rw [entries_byStatus]
  exact List.mergeSort_perm _ _

theorem formed_of_mem (hf : ∀ s ∈ summaries, Text.Formed s.id) {e : String × Summary R}
    (h : e ∈ (Summary.byId summaries).entries) : Text.Formed e.1 := by
  have hjoined := Ledger.get?_of_mem h
  rw [Summary.get?_byId] at hjoined
  obtain ⟨s, hs, hid⟩ := Summary.mem_of_joined hjoined
  exact hid ▸ hf s hs

theorem names_ascend (hf : ∀ s ∈ summaries, Text.Formed s.id) :
    (ofSummaries summaries).byStatus.names.Pairwise fun a b => Text.order a b = .lt := by
  rw [Ledger.names, entries_byStatus, List.pairwise_map]
  refine ((pairwise_ordered _).and (List.pairwise_map.mp (nodup_ordered _))).imp_of_mem ?_
  rintro a b ha hb ⟨hab, hne⟩
  refine Text.lt_of_atMost hab fun hcodes => hne ?_
  exact (formed_of_mem hf (List.mem_mergeSort.mp ha)).eq_of_codes
    (formed_of_mem hf (List.mem_mergeSort.mp hb)) hcodes

theorem ofSummaries_congr (hf : ∀ s ∈ summaries, Text.Formed s.id)
    (h : ∀ id, joined later id = joined summaries id) :
    ofSummaries later = ofSummaries summaries := by
  have hordered : ordered (Summary.byId summaries) = ordered (Summary.byId later) := by
    refine ordered_congr (Ledger.perm_of_get? fun id => ?_) fun a ha b hb hcodes => ?_
    · rw [Summary.get?_byId, Summary.get?_byId, h]
    · have hkey := (formed_of_mem hf ha).eq_of_codes (formed_of_mem hf hb) hcodes
      have hvalue := Ledger.get?_of_mem ha
      rw [hkey, Ledger.get?_of_mem hb] at hvalue
      exact Prod.ext hkey (Option.some.inj hvalue).symm
  unfold ofSummaries
  rw [hordered]

theorem joined_values (summaries : List (Summary R)) (id : String) :
    joined (ofSummaries summaries).byStatus.values id = joined summaries id := by
  rw [← Summary.get?_byId, Summary.byId_values, get?_byStatus]
  intro e he
  have hjoined := Ledger.get?_of_mem he
  rw [get?_byStatus] at hjoined
  exact Summary.id_of_joined hjoined

/-- What totals say of the summaries they are made of. -/
structure Account (summaries : List (Summary R)) (totals : Totals R) : Prop where
  ascending : totals.byStatus.names.Pairwise fun a b => Text.order a b = .lt
  joined : ∀ id, totals.byStatus.get? id = joined summaries id
  damage : totals.damage = total (summaries.map (·.damage))
  block : totals.block = total (summaries.map (·.block))
  negates : totals.negates = summaries.any (·.negates)
  logs : totals.logs = totals.byStatus.values.flatMap fun s => s.logs.filter (!·.isEmpty)

theorem account_ofSummaries (hf : ∀ s ∈ summaries, Text.Formed s.id) :
    Account summaries (ofSummaries summaries) where
  ascending := names_ascend hf
  joined := get?_byStatus summaries
  damage := damage_eq summaries
  block := block_eq summaries
  negates := negates_eq summaries
  logs := by
    rw [values_byStatus]
    rfl

/-- The summaries of each status are the same, in the same order. -/
def Regrouped (later summaries : List (Summary R)) : Prop :=
  ∀ id, later.filter (·.id = id) = summaries.filter (·.id = id)

theorem Regrouped.swap {t : Summary R} (h : s.id ≠ t.id) (before after : List (Summary R)) :
    Regrouped (before ++ t :: s :: after) (before ++ s :: t :: after) := by
  intro id
  rw [List.filter_append, List.filter_append]
  by_cases hs : s.id = id
  · have ht : t.id ≠ id := fun ht => h (hs.trans ht.symm)
    simp [hs, ht]
  · simp [List.filter_cons, hs]

/-- Totals account for the summaries, are their own totals, and do not depend on how the summaries
of different statuses come after each other. -/
theorem ofSummaries_joins (hf : ∀ s ∈ summaries, Text.Formed s.id) :
    Account summaries (ofSummaries summaries) ∧
      ofSummaries (ofSummaries summaries).byStatus.values = ofSummaries summaries ∧
      ∀ later, Regrouped later summaries → ofSummaries later = ofSummaries summaries := by
  refine ⟨account_ofSummaries hf, ofSummaries_congr hf (joined_values summaries), ?_⟩
  intro later h
  refine ofSummaries_congr hf fun id => ?_
  unfold joined
  rw [h id]

def kindled : List (Summary Rat) :=
  [{ id := "chi", spent := 2, damage := 3, successes := 1, logs := ["chi flows"] },
   { id := "burn", spent := 1, damage := 2, successes := 1, logs := ["", "burn flares"] },
   { id := "chi", spent := 1, damage := 1, block := 4, negates := true, logs := ["chi ebbs"] }]

theorem ofSummaries_joins_kindled : (∀ s ∈ kindled, Text.Formed s.id) ∧
    (ofSummaries kindled).damage = 6 ∧ (ofSummaries kindled).negates = true ∧
    ofSummaries (ofSummaries kindled).byStatus.values = ofSummaries kindled ∧
    ∃ later, later.map (·.id) = ["burn", "chi", "chi"] ∧ Regrouped later kindled ∧
      ofSummaries later = ofSummaries kindled := by
  have hf : ∀ s ∈ kindled, Text.Formed s.id := by
    intro s hs
    refine Text.formed_of_plain ?_
    revert s
    decide
  obtain ⟨haccount, hagain, hlater⟩ := ofSummaries_joins hf
  have hswap : Regrouped _ kindled := .swap (by decide) [] _
  exact ⟨hf, haccount.damage, haccount.negates, hagain, _, rfl, hswap, hlater _ hswap⟩

end Totals

end Duel.Spend
