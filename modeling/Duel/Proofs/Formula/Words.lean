import Duel.Formula.Lint

namespace Duel

namespace Text

def spacings : List Nat :=
  [9, 10, 11, 12, 13, 28, 29, 30, 31, 32, 133, 160, 5760, 8192, 8193, 8194, 8195, 8196, 8197, 8198,
   8199, 8200, 8201, 8202, 8232, 8233, 8239, 8287, 12288]

theorem mem_spacings {c : Char} (h : isSpacing c = true) : c.toNat ∈ spacings := by
  simp only [isSpacing, isBlank, Bool.or_eq_true, Bool.and_eq_true, decide_eq_true_eq,
    beq_iff_eq] at h
  simp only [spacings, List.mem_cons, List.not_mem_nil, or_false]
  omega

theorem not_word_of_spacing {c : Char} (h : isSpacing c = true) : isWordChar c = false := by
  have hall : ∀ n ∈ spacings, isWordChar (Char.ofNat n) = false := by decide +kernel
  simpa only [Char.ofNat_toNat] using hall _ (mem_spacings h)

/-- Behind these characters a word may begin. -/
def Apart (before : List Char) : Prop := ∀ c ∈ before.getLast?, isWordChar c = false

/-- In front of these characters a word may end. -/
def Ending (rest : List Char) : Prop := ∀ c ∈ rest.head?, isWordChar c = false

theorem apart_singleton {c : Char} (h : isWordChar c = false) : Apart [c] := by
  intro d hd
  cases hd
  exact h

theorem apart_append (before : List Char) {taken : List Char} (hne : taken ≠ []) (h : Apart taken) :
    Apart (before ++ taken) := by
  obtain ⟨c, hc⟩ := Option.ne_none_iff_exists'.mp fun h => hne (List.getLast?_eq_none_iff.mp h)
  intro d hd
  rw [List.getLast?_append, hc] at hd
  cases hd
  exact h c hc

end Text

namespace Formula.Lint

open Text (Apart Ending isWordChar)

section Plain

variable {c : Char} {name : List Char}

def isPlainChar (c : Char) : Bool := isPlainStart c || c.isDigit

theorem toNat_of_plain (h : isPlainChar c = true) : c.toNat < 128 := by
  delta isPlainChar isPlainStart Char.isAlpha Char.isUpper Char.isLower Char.isDigit at h
  simp only [Bool.or_eq_true, Bool.and_eq_true, decide_eq_true_eq, beq_iff_eq,
    UInt32.le_iff_toNat_le, ge_iff_le] at h
  change ((((65 ≤ c.toNat ∧ c.toNat ≤ 90) ∨ (97 ≤ c.toNat ∧ c.toNat ≤ 122)) ∨ c = '_') ∨
    (48 ≤ c.toNat ∧ c.toNat ≤ 57)) at h
  rcases h with (h | rfl) | h
  · omega
  · decide
  · omega

theorem word_of_plain (h : isPlainChar c = true) : isWordChar c = true := by
  have hall : ∀ n < 128, isPlainChar (Char.ofNat n) = true → isWordChar (Char.ofNat n) = true := by
    decide +kernel
  simpa only [Char.ofNat_toNat, h, true_imp_iff] using hall _ (toNat_of_plain h)

theorem plain_of_mem (h : isPlain name = true) (hc : c ∈ name) : isPlainChar c = true := by
  cases name with
  | nil => cases hc
  | cons d r =>
    simp only [isPlain, Bool.and_eq_true, List.all_eq_true] at h
    rcases List.mem_cons.mp hc with rfl | hr
    · rw [isPlainChar, h.1, Bool.true_or]
    · exact h.2 c hr

theorem ne_nil_of_plain (h : isPlain name = true) : name ≠ [] := by
  rintro rfl
  cases h

end Plain

section Runs

variable {run word rest : List Char}

theorem runs_nil (h : run ≠ []) : runs run [] = [(run.reverse, [])] := by
  cases run with
  | nil => exact absurd rfl h
  | cons c run => rfl

theorem runs_cons (run : List Char) (c : Char) (r : List Char) :
    runs run (c :: r) =
      if isWordChar c then runs (c :: run) r
      else if run.isEmpty then runs [] r
      else (run.reverse, c :: r) :: runs [] r := by
  cases run <;> rfl

theorem mem_runs_word (run : List Char) (hword : ∀ c ∈ word, isWordChar c = true)
    (hrest : Ending rest) (hne : run.reverse ++ word ≠ []) :
    (run.reverse ++ word, rest) ∈ runs run (word ++ rest) := by
  induction word generalizing run with
  | nil =>
    simp only [List.append_nil, ne_eq, List.reverse_eq_nil_iff] at hne
    cases rest with
    | nil =>
      rw [List.append_nil, List.append_nil, runs_nil hne]
      exact List.mem_singleton.mpr rfl
    | cons c r =>
      have hc : isWordChar c = false := hrest c rfl
      rw [List.append_nil, List.nil_append, runs_cons, hc, if_neg Bool.false_ne_true,
        if_neg (by simpa using hne)]
      exact List.mem_cons_self
  | cons c word ih =>
    obtain ⟨hc, hword⟩ := List.forall_mem_cons.mp hword
    rw [List.cons_append, runs_cons, if_pos hc]
    simpa using ih (c :: run) hword (by simp)

theorem mem_runs_append {r : List Char × List Char} (h : r ∈ runs [] rest) {before : List Char}
    (hb : Apart before) (hrun : before = [] → run = []) : r ∈ runs run (before ++ rest) := by
  induction before generalizing run with
  | nil =>
    rw [hrun rfl]
    exact h
  | cons c before ih =>
    have hapart : before ≠ [] → Apart before := by
      intro hne d hd
      exact hb d (by rwa [List.getLast?_cons_of_ne_nil hne])
    rw [List.cons_append, runs_cons]
    cases hc : isWordChar c with
    | true =>
      have hne : before ≠ [] := by
        rintro rfl
        exact Bool.false_ne_true ((hb c rfl).symm.trans hc)
      exact ih (hapart hne) fun h => absurd h hne
    | false =>
      have hin : r ∈ runs [] (before ++ rest) := by
        by_cases hne : before = []
        · rwa [hne]
        · exact ih (hapart hne) fun _ => rfl
      split
      · exact absurd ‹_› Bool.false_ne_true
      · split
        · exact hin
        · exact List.mem_cons_of_mem _ hin

end Runs

/-- The check sees a plain name that stands apart from what is around it. -/
theorem mem_names {source : String} {before name rest : List Char}
    (hsource : source.toList = before ++ (name ++ rest)) (hname : isPlain name = true)
    (hb : Apart before) (hrest : Ending rest) :
    ∃ call, (String.ofList name, call) ∈ names source := by
  have hword : (name, rest) ∈ runs [] (name ++ rest) :=
    mem_runs_word [] (fun c hc => word_of_plain (plain_of_mem hname hc)) hrest
      (ne_nil_of_plain hname)
  have hrun : (name, rest) ∈ runs [] source.toList := by
    rw [hsource]
    exact mem_runs_append hword hb fun _ => rfl
  exact ⟨_, List.mem_map.mpr ⟨_, List.mem_filter.mpr ⟨hrun, hname⟩, rfl⟩⟩

section Sorted

variable {s t : String} {xs : List String}

theorem mem_insertSorted : s ∈ insertSorted t xs ↔ s = t ∨ s ∈ xs := by
  induction xs with
  | nil => simp [insertSorted]
  | cons u xs ih =>
    rw [insertSorted]
    split
    · simp
    · split
      · next heq =>
        obtain rfl : t = u := eq_of_beq heq
        simp
      · rw [List.mem_cons, ih, List.mem_cons]
        exact or_left_comm

theorem mem_sorted : s ∈ sorted xs ↔ s ∈ xs := by
  induction xs with
  | nil => rfl
  | cons t xs ih =>
    rw [sorted, List.foldr_cons, mem_insertSorted, List.mem_cons]
    exact or_congr_right ih

end Sorted

/-- A name that the check sees in a formula without complaints is that of a function or that of a
number. -/
theorem known_of_complaints {source : String} (h : complaints source = []) {name : String}
    {call : Bool} (hn : (name, call) ∈ names source) : name ∈ functions ∨ name ∈ symbols := by
  simp only [complaints, List.append_eq_nil_iff, ite_eq_left_iff, List.cons_ne_nil, imp_false,
    Classical.not_not, List.isEmpty_iff] at h
  obtain ⟨hcalls, hreads⟩ := h
  by_cases hc : name ∈ calls source
  · left
    have := List.filter_eq_nil_iff.mp hcalls name hc
    simpa using this
  · right
    have hr : name ∈ reads source := by
      refine mem_sorted.mpr (List.mem_filterMap.mpr ⟨_, hn, ?_⟩)
      simp [hc]
    have := List.filter_eq_nil_iff.mp hreads name hr
    simpa using this

end Formula.Lint

end Duel
