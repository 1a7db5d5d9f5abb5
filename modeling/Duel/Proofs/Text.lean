import Duel.Text.Half
import Duel.Text.Lines

namespace Duel.Text

variable {s t u : String}

theorem codes_cases (s : String) :
    codes s = codesOf s.toList ∨ codes s = s.toList.map Char.toNat := by
  unfold codes
  split
  · exact .inl rfl
  · exact .inr rfl

theorem compare_of_lt {ns ms : List Nat} (h : ns < ms) : compare ns ms = .lt := by
  induction h with
  | nil => rfl
  | rel h =>
    rw [List.compare_cons_cons, Nat.compare_eq_lt.mpr h]
    rfl
  | cons _ ih =>
    rw [List.compare_cons_cons, Std.compare_self, ih]
    rfl

theorem compare_of_compare (h : compare s t = .lt) :
    compare (s.toList.map Char.toNat) (t.toList.map Char.toNat) = .lt :=
  compare_of_lt (List.map_lt (fun _ _ h => h) (String.lt_iff.mp (compareOfLessAndEq_eq_lt.mp h)))

theorem order_eq (s t : String) : order s t = compare (codes s) (codes t) := by
  unfold order
  split
  · rfl
  next h =>
    simp only [Bool.or_eq_true, not_or, Bool.not_eq_true] at h
    simp only [codes, h.1, h.2, Bool.false_eq_true, if_false]
    cases hc : compare s t with
    | lt => exact (compare_of_compare hc).symm
    | eq =>
      obtain rfl := Std.LawfulEqCmp.eq_of_compare hc
      exact Std.compare_self.symm
    | gt =>
      exact (Std.OrientedCmp.gt_of_lt (compare_of_compare (Std.OrientedCmp.lt_of_gt hc))).symm

theorem atMost_eq (s t : String) : atMost s t = (compare (codes s) (codes t)).isLE := by
  rw [atMost, order_eq]
  cases compare (codes s) (codes t) <;> rfl

theorem atMost_trans (h : atMost s t = true) (h' : atMost t u = true) : atMost s u = true := by
  rw [atMost_eq] at *
  exact Std.TransCmp.isLE_trans h h'

theorem atMost_total (s t : String) : (atMost s t || atMost t s) = true := by
  have hs : compare (codes t) (codes s) = (compare (codes s) (codes t)).swap :=
    Std.OrientedCmp.eq_swap
  rw [atMost_eq, atMost_eq, hs]
  cases compare (codes s) (codes t) <;> rfl

theorem codes_eq_of_atMost (h : atMost s t = true) (h' : atMost t s = true) :
    codes s = codes t := by
  rw [atMost_eq] at *
  exact Std.LawfulEqCmp.eq_of_compare (Std.OrientedCmp.isLE_antisymm h h')

theorem lt_of_atMost (h : atMost s t = true) (hne : codes s ≠ codes t) : order s t = .lt := by
  unfold atMost at h
  rw [order_eq] at *
  cases hc : compare (codes s) (codes t) with
  | lt => rfl
  | eq => exact absurd (Std.LawfulEqCmp.eq_of_compare hc) hne
  | gt => simp [hc] at h

section Codes

def IsCode (n : Nat) : Prop := isHalf n = true ∨ ∃ c : Char, c.toNat = n

theorem isReserved_iff (c : Char) :
    isReserved c = true ↔ 0xCD7FF ≤ c.toNat ∧ c.toNat < 0xCE000 := by
  unfold isReserved
  simp only [Bool.and_eq_true, decide_eq_true_eq]
  exact Iff.rfl

theorem eq_literalMark_iff (c : Char) : c = literalMark ↔ c.toNat = 0xCD7FF := by
  constructor
  · rintro rfl
    decide
  · intro h
    rw [← Char.ofNat_toNat c, h]
    rfl

theorem any_eq (s : String) : s.any isReserved = s.toList.any isReserved := by
  simp only [String.any, String.contains_bool_eq]

theorem whole_of_plain {s : String} (h : s.toList.any isReserved = false) : whole s = s := by
  rw [whole, any_eq, h, if_neg Bool.false_ne_true]

theorem hasHalf_of_plain {s : String} (h : s.toList.any isReserved = false) :
    hasHalf s = false := by
  rw [hasHalf, any_eq, h, Bool.false_and]

theorem codesOf_unmarked {c : Char} (h : ¬(c == literalMark) = true) (rest : List Char) :
    codesOf (c :: rest) =
      (if isReserved c then c.toNat - halfShift else c.toNat) :: codesOf rest := by
  rw [codesOf.eq_def]
  dsimp only
  rw [if_neg h]

theorem codesOf_plain {c : Char} (h : isReserved c = false) (rest : List Char) :
    codesOf (c :: rest) = c.toNat :: codesOf rest := by
  have hmark : ¬(c == literalMark) = true := by
    intro hc
    rw [eq_of_beq hc] at h
    exact absurd h (by decide)
  rw [codesOf_unmarked hmark, h, if_neg Bool.false_ne_true]

theorem codesOf_of_plain {cs : List Char} (h : cs.any isReserved = false) :
    codesOf cs = cs.map Char.toNat := by
  induction cs with
  | nil => rfl
  | cons c cs ih =>
    rw [List.any_cons, Bool.or_eq_false_iff] at h
    rw [codesOf_plain h.1, ih h.2]
    rfl

theorem codes_eq (s : String) : codes s = codesOf s.toList := by
  unfold codes
  rw [any_eq]
  split
  · rfl
  next h => exact (codesOf_of_plain (by simpa using h)).symm

theorem isCode_of_mem {cs : List Char} {n : Nat} (h : n ∈ codesOf cs) : IsCode n := by
  induction cs using codesOf.induct with
  | case1 => cases h
  | case2 c hc d rest ih =>
    rw [codesOf, if_pos hc] at h
    obtain rfl | h := List.mem_cons.mp h
    · exact .inr ⟨d, rfl⟩
    · exact ih h
  | case3 c hc =>
    rw [codesOf, if_pos hc] at h
    obtain rfl | h := List.mem_cons.mp h
    · exact .inr ⟨c, rfl⟩
    · cases h
  | case4 c rest hc ih =>
    rw [codesOf_unmarked hc] at h
    obtain rfl | h := List.mem_cons.mp h
    · split
      next hr =>
        have hne : c.toNat ≠ 0xCD7FF :=
          fun he => hc (beq_iff_eq.mpr ((eq_literalMark_iff c).mpr he))
        have hr := (isReserved_iff c).mp hr
        refine .inl ?_
        unfold isHalf halfShift
        simp only [Bool.and_eq_true, decide_eq_true_eq]
        omega
      next => exact .inr ⟨c, rfl⟩
    · exact ih h

theorem codesOf_ofCode {n : Nat} (h : IsCode n) (rest : List Char) :
    codesOf (ofCode n ++ rest) = n :: codesOf rest := by
  unfold ofCode
  by_cases hn : isHalf n = true
  · rw [if_pos hn]
    unfold isHalf at hn
    simp only [Bool.and_eq_true, decide_eq_true_eq] at hn
    have hvalid : (n + halfShift).isValidChar := by
      unfold halfShift
      exact .inr ⟨by omega, by omega⟩
    have hc : (Char.ofNat (n + halfShift)).toNat = n + halfShift := by
      rw [Char.ofNat, dif_pos hvalid]
      rfl
    generalize Char.ofNat (n + halfShift) = c at hc
    have hmark : ¬(c == literalMark) = true := by
      rw [beq_iff_eq, eq_literalMark_iff, hc]
      unfold halfShift
      omega
    have hr : isReserved c = true := by
      rw [isReserved_iff, hc]
      unfold halfShift
      omega
    change codesOf (c :: rest) = _
    rw [codesOf_unmarked hmark, if_pos hr, hc, Nat.add_sub_cancel]
  · rw [if_neg hn]
    obtain ⟨c, rfl⟩ := h.resolve_left hn
    dsimp only
    rw [Char.ofNat_toNat]
    by_cases hr : isReserved c = true
    · rw [if_pos hr]
      change codesOf (literalMark :: c :: rest) = _
      rw [codesOf, if_pos (beq_self_eq_true _)]
    · rw [if_neg hr]
      exact codesOf_plain (Bool.eq_false_iff.mpr hr) rest

theorem codes_ofCodes {ns : List Nat} (h : ∀ n ∈ ns, IsCode n) : codes (ofCodes ns) = ns := by
  rw [codes_eq, ofCodes, String.toList_ofList]
  induction ns with
  | nil => rfl
  | cons n ns ih =>
    rw [List.flatMap_cons, codesOf_ofCode (h n List.mem_cons_self),
      ih fun k hk => h k (List.mem_cons_of_mem _ hk)]

/-- A text that is what is made again from what is in it. -/
def Formed (s : String) : Prop := ofCodes (codes s) = s

theorem Formed.eq_of_codes (h : Formed s) (h' : Formed t) (hcodes : codes s = codes t) : s = t :=
  h.symm.trans ((congrArg ofCodes hcodes).trans h')

theorem whole_cases (s : String) : s.toList.any isReserved = false ∧ whole s = s ∨
    ∃ ns, whole s = ofCodes ns ∧ ∀ n ∈ ns, isHalf n = false ∧ IsCode n := by
  by_cases hs : s.any isReserved = true
  · refine .inr ⟨_, if_pos hs, fun n hn => ?_⟩
    obtain ⟨k, hk, hn⟩ := List.mem_flatMap.mp hn
    split at hn
    · have hmark : n = 0xFFFD := by simpa [halfMarks] using hn
      exact ⟨by rw [hmark]; decide, .inr ⟨'\uFFFD', by rw [hmark]; decide⟩⟩
    next hhalf =>
      obtain rfl := List.mem_singleton.mp hn
      exact ⟨Bool.eq_false_iff.mpr hhalf, isCode_of_mem (codes_eq s ▸ hk)⟩
  · exact .inl ⟨by rw [← any_eq]; exact Bool.eq_false_iff.mpr hs, if_neg hs⟩

theorem whole_whole (s : String) : whole (whole s) = whole s := by
  obtain ⟨-, hs⟩ | ⟨ns, hs, hns⟩ := whole_cases s
  · rw [hs, hs]
  · have hagain : (ns.flatMap fun n => if isHalf n then halfMarks else [n]) = ns := by
      clear hs
      induction ns with
      | nil => rfl
      | cons n ns ih =>
        obtain ⟨hn, hns⟩ := List.forall_mem_cons.mp hns
        rw [List.flatMap_cons, hn.1, if_neg Bool.false_ne_true, ih hns]
        rfl
    rw [hs, whole, codes_ofCodes fun n hn => (hns n hn).2, hagain]
    split <;> rfl

/-- Characters that a file takes, and keeps as they are: none of them is a half or ends a line in
another way than files do. -/
inductive Kept : List Char → Prop
  | nil : Kept []
  | plain {c : Char} {cs : List Char} (hc : isReserved c = false) (hr : c ≠ '\r') (h : Kept cs) :
    Kept (c :: cs)
  | marked {c : Char} {cs : List Char} (hr : c ≠ '\r') (h : Kept cs) : Kept (literalMark :: c :: cs)

namespace Kept

variable {cs ds : List Char}

theorem append (h : Kept cs) (h' : Kept ds) : Kept (cs ++ ds) := by
  induction h with
  | nil => exact h'
  | plain hc hr _ ih => exact .plain hc hr ih
  | marked hr _ ih => exact .marked hr ih

theorem of_plain (h : ∀ c ∈ cs, isReserved c = false ∧ c ≠ '\r') : Kept cs := by
  induction cs with
  | nil => exact .nil
  | cons c cs ih =>
    obtain ⟨hc, h⟩ := List.forall_mem_cons.mp h
    exact .plain hc.1 hc.2 (ih h)

theorem of_all (h : (cs.all fun c => !isReserved c && c != '\r') = true) : Kept cs :=
  of_plain fun c hc => by simpa using List.all_eq_true.mp h c hc

theorem ne_return (h : Kept cs) : ∀ c ∈ cs, c ≠ '\r' := by
  induction h with
  | nil => exact List.forall_mem_nil _
  | plain _ hr _ ih => exact List.forall_mem_cons.mpr ⟨hr, ih⟩
  | marked hr _ ih =>
    exact List.forall_mem_cons.mpr ⟨by decide, List.forall_mem_cons.mpr ⟨hr, ih⟩⟩

end Kept

theorem isHalf_toNat (c : Char) : isHalf c.toNat = false := by
  have hc : c.toNat < 0xD800 ∨ 0xDFFF < c.toNat ∧ c.toNat < 0x110000 := c.valid
  unfold isHalf
  simp only [Bool.and_eq_false_iff, decide_eq_false_iff_not]
  omega

theorem ofCode_plain {c : Char} (h : isReserved c = false) : ofCode c.toNat = [c] := by
  unfold ofCode
  rw [isHalf_toNat, if_neg Bool.false_ne_true]
  dsimp only
  rw [Char.ofNat_toNat, h, if_neg Bool.false_ne_true]

theorem formed_of_plain {s : String} (h : s.toList.any isReserved = false) : Formed s := by
  have hchars : ∀ cs : List Char, cs.any isReserved = false →
      (cs.map Char.toNat).flatMap ofCode = cs := by
    intro cs hcs
    induction cs with
    | nil => rfl
    | cons c cs ih =>
      rw [List.any_cons, Bool.or_eq_false_iff] at hcs
      rw [List.map_cons, List.flatMap_cons, ofCode_plain hcs.1, ih hcs.2, List.singleton_append]
  rw [Formed, codes_eq, codesOf_of_plain h, ofCodes, hchars _ h, String.ofList_toList]

theorem hasHalf_of_kept {s : String} (h : Kept s.toList) : hasHalf s = false := by
  have hcodes : ∀ n ∈ codes s, isHalf n = false := by
    rw [codes_eq]
    generalize s.toList = cs at h
    induction h with
    | nil => exact List.forall_mem_nil _
    | plain hc _ _ ih =>
      rw [codesOf_plain hc]
      exact List.forall_mem_cons.mpr ⟨isHalf_toNat _, ih⟩
    | marked _ _ ih =>
      rw [codesOf, if_pos (beq_self_eq_true _)]
      exact List.forall_mem_cons.mpr ⟨isHalf_toNat _, ih⟩
  rw [hasHalf, List.any_eq_false.mpr fun n hn => by simpa using hcodes n hn, Bool.and_false]

theorem unifyBreaks_of_kept {s : String} (h : Kept s.toList) : unifyBreaks s = s := by
  have hchars : ∀ cs : List Char, (∀ c ∈ cs, c ≠ '\r') → unifyChars cs = cs := by
    intro cs hcs
    induction cs with
    | nil => rfl
    | cons c cs ih =>
      obtain ⟨hc, hcs⟩ := List.forall_mem_cons.mp hcs
      rw [unifyChars, ih hcs]
      · exact fun _ h => absurd h hc
      · exact hc
  rw [unifyBreaks, hchars _ h.ne_return, String.ofList_toList]

end Codes

end Duel.Text
