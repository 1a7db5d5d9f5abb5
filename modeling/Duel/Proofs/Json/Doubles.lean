import Duel.Proofs.Json.Numbers

namespace Duel.Json

def laid (k : Nat) (point : Int) : Numeral :=
  let ds := Nat.toDigits 10 k
  if layout.least < point ∧ point ≤ layout.most then
    if point ≤ 0 then ⟨['0'], List.replicate (-point).toNat '0' ++ ds, none⟩
    else if (ds.length : Int) ≤ point then
      ⟨ds ++ List.replicate (point.toNat - ds.length) '0', ['0'], none⟩
    else ⟨ds.take point.toNat, ds.drop point.toNat, none⟩
  else ⟨ds.take 1, ds.drop 1, some (decide (point - 1 < 0), Nat.toDigits 10 (point - 1).natAbs)⟩

theorem isDigit_replicate {k : Nat} {c : Char} (h : c ∈ List.replicate k '0') :
    isDigit c = true := by
  rw [List.eq_of_mem_replicate h]
  rfl

theorem head_toDigits {k : Nat} (hk : k ≠ 0) : (Nat.toDigits 10 k).head? ≠ some '0' := by
  intro h
  have hzero := congrArg digitsValue (leading_toDigits k h)
  rw [digitsValue_toDigits] at hzero
  exact hk hzero

theorem take_toDigits {k p : Nat} (hp : 0 < p) : (Nat.toDigits 10 k).take p ≠ [] ∧
    (((Nat.toDigits 10 k).take p).head? = some '0' → (Nat.toDigits 10 k).take p = ['0']) := by
  refine ⟨fun h => ?_, fun h => ?_⟩
  · obtain rfl | h := List.take_eq_nil_iff.mp h
    · cases hp
    · exact Nat.toDigits_ne_nil h
  · rw [List.head?_take, if_neg hp.ne'] at h
    rw [leading_toDigits k h]
    obtain ⟨p, rfl⟩ := Nat.exists_eq_succ_of_ne_zero hp.ne'
    rw [List.take_succ_cons, List.take_nil]

theorem laid_wellFormed {k : Nat} {point : Int} (hk : k = 0 → point = 1) :
    (laid k point).WellFormed := by
  have hds : ∀ c ∈ Nat.toDigits 10 k, isDigit c = true := fun _ => isDigit_toDigits
  have hzeros : ∀ n, ∀ c ∈ List.replicate n '0', isDigit c = true := fun _ _ => isDigit_replicate
  have hnought : ∀ c ∈ ['0'], isDigit c = true := List.forall_mem_singleton.mpr rfl
  unfold laid
  dsimp only
  split
  · split
    · exact ⟨hnought, ⟨List.cons_ne_nil _ _, fun _ => rfl⟩,
        List.forall_mem_append.mpr ⟨hzeros _, hds⟩, fun _ h => by cases h⟩
    · split
      next hpoint =>
        refine ⟨List.forall_mem_append.mpr ⟨hds, hzeros _⟩,
          ⟨fun h => Nat.toDigits_ne_nil (List.append_eq_nil_iff.mp h).1, fun h => ?_⟩, hnought,
          fun _ h => by cases h⟩
        rw [List.head?_append_of_ne_nil _ Nat.toDigits_ne_nil] at h
        have hzero : k = 0 := by
          by_contra hne
          exact head_toDigits hne h
        rw [hzero, hk hzero]
        rfl
      next hpoint =>
        exact ⟨fun c hc => hds c (List.mem_of_mem_take hc), take_toDigits (by omega),
          fun c hc => hds c (List.mem_of_mem_drop hc), fun _ h => by cases h⟩
  · refine ⟨fun c hc => hds c (List.mem_of_mem_take hc), take_toDigits (by decide),
      fun c hc => hds c (List.mem_of_mem_drop hc), ?_⟩
    rintro p ⟨⟩
    exact ⟨Nat.toDigits_ne_nil, fun c hc => isDigit_toDigits hc⟩

theorem laid_not_whole (k : Nat) (point : Int) : (laid k point).isWhole = false := by
  unfold laid Numeral.isWhole
  dsimp only
  split
  · split
    · simp
    · split
      · rfl
      next h =>
        have hne : (Nat.toDigits 10 k).drop point.toNat ≠ [] := by
          rw [Ne, List.drop_eq_nil_iff]
          omega
        simpa using hne
  · exact Bool.and_false _

theorem laid_short (k : Nat) (point : Int) : (laid k point).digits.length ≤ 16 := by
  have hmost : layout.most = 16 := rfl
  unfold laid
  dsimp only
  split
  · split
    · exact (by decide : 1 ≤ 16)
    · split
      · rw [List.length_append, List.length_replicate]
        omega
      · rw [List.length_take]
        omega
  · rw [List.length_take]
    omega

theorem laid_value (k : Nat) (point : Int) :
    (laid k point).value = k * 10 ^ (point - (Nat.toDigits 10 k).length) := by
  have hds := digitsValue_toDigits k
  have hpos : 0 < (Nat.toDigits 10 k).length := Nat.length_toDigits_pos
  unfold laid Numeral.value Numeral.coefficient Numeral.exponent
  dsimp only
  split
  · split
    · have hzeros :
          digitsValue (['0'] ++ (List.replicate (-point).toNat '0' ++ Nat.toDigits 10 k)) = k := by
        rw [digitsValue_append, digitsValue_append, digitsValue_zeros, hds]
        change 0 * _ + (0 * _ + k) = k
        omega
      rw [hzeros, List.length_append, List.length_replicate]
      congr 2
      change 0 - _ = _
      omega
    · split
      next hpoint =>
        rw [digitsValue_append, digitsValue_append, digitsValue_zeros, hds, List.length_replicate]
        change (((k * 10 ^ (point.toNat - (Nat.toDigits 10 k).length) + 0) * 10 + 0 : Nat) : Rat) *
          10 ^ (0 - 1 : Int) = _
        obtain ⟨j, hj⟩ := Int.eq_ofNat_of_zero_le
          (show 0 ≤ point - (Nat.toDigits 10 k).length by omega)
        rw [hj, show point.toNat - (Nat.toDigits 10 k).length = j by omega]
        push_cast
        rw [zpow_neg_one, zpow_natCast]
        ring
      next hpoint =>
        rw [List.take_append_drop, hds, List.length_drop]
        congr 2
        change 0 - _ = _
        omega
  · rw [List.take_append_drop, hds, List.length_drop]
    congr 2
    unfold Numeral.powerValue
    dsimp only
    rw [digitsValue_toDigits]
    simp only [decide_eq_true_eq]
    split <;> omega

theorem padLeft_eq {width : Nat} {s : String} (h : width ≤ s.length) :
    Double.padLeft width s = s := by
  unfold Double.padLeft
  rw [Nat.sub_eq_zero_of_le h]
  rfl

theorem toList_fraction (s : String) :
    (if s.isEmpty then "" else "." ++ s).toList = Numeral.fractionText s.toList := by
  by_cases hs : s = ""
  · subst hs
    rfl
  · have hne : s.isEmpty = false := by simpa using hs
    have hne' : s.toList.isEmpty = false := by simpa using hs
    rw [Numeral.fractionText, if_neg (by simp [hne]), if_neg (by simp [hne']), String.toList_append]
    rfl

theorem toList_mark (power : Int) :
    (if power < 0 then "-" else if layout.signedExponent then "+" else "").toList =
      [if decide (power < 0) then '-' else '+'] := by
  by_cases h : power < 0
  · rw [if_pos h, decide_eq_true h]
    rfl
  · rw [if_neg h, decide_eq_false h]
    rfl

theorem length_toString (k : Nat) : (toString k).length = (Nat.toDigits 10 k).length := by
  rw [← toList_toString, String.length_toList]

theorem point_eq (m : Nat) (e : Int) :
    (if m = 0 then 1 else (Double.Shortest.ofFinite m e).exponent +
      (toString (Double.Shortest.ofFinite m e).digits).length) =
      (Double.Shortest.ofFinite m e).exponent +
        (Nat.toDigits 10 (Double.Shortest.ofFinite m e).digits).length := by
  rw [length_toString]
  split
  next hm =>
    rw [hm, Double.ofFinite_zero, Nat.toDigits_zero]
    rfl
  next => rfl

theorem layout_write {x : Float} {negative : Bool} {m : Nat} {e : Int}
    (h : Double.read x = .finite negative m e) :
    (layout.write x).toList = signText negative ++
      (laid (Double.Shortest.ofFinite m e).digits ((Double.Shortest.ofFinite m e).exponent +
        (Nat.toDigits 10 (Double.Shortest.ofFinite m e).digits).length)).text := by
  unfold Double.Layout.write
  rw [h]
  dsimp only
  rw [point_eq]
  generalize (Double.Shortest.ofFinite m e).digits = k
  generalize (Double.Shortest.ofFinite m e).exponent + (Nat.toDigits 10 k).length = point
  rw [String.toList_append]
  congr 1
  · cases negative <;> rfl
  unfold laid
  dsimp only
  by_cases hpos : layout.least < point ∧ point ≤ layout.most
  · rw [if_pos hpos, if_pos hpos]
    by_cases hzero : point ≤ 0
    · rw [if_pos hzero, if_pos hzero]
      simp [Double.padLeft, Numeral.text, Numeral.fractionText, Numeral.powerText]
    · rw [if_neg hzero, if_neg hzero, length_toString]
      by_cases hpast : ((Nat.toDigits 10 k).length : Int) ≤ point
      · rw [if_pos hpast, if_pos hpast]
        simp [Numeral.text, Numeral.fractionText, Numeral.powerText]
      · have hlt : point.toNat < (Nat.toDigits 10 k).length := by omega
        rw [if_neg hpast, if_neg hpast]
        simp [Numeral.text, Numeral.fractionText, Numeral.powerText, hlt]
  · have hwidth : layout.exponentWidth ≤ (toString (point - 1).natAbs).length := by
      rw [length_toString]
      exact Nat.length_toDigits_pos
    rw [if_neg hpos, if_neg hpos, padLeft_eq hwidth]
    simp only [String.toList_append, toList_fraction, toList_mark, toList_toString, Numeral.text,
      Numeral.powerText, String.Slice.toString_eq, String.toList_copy_take,
      String.toList_copy_drop, List.append_assoc, show "e".toList = ['e'] from rfl,
      List.cons_append, List.nil_append]

variable {d : Dialect} {depth : Nat}

theorem point_of_nought {x : Float} {negative : Bool} {m : Nat} {e : Int}
    (h : Double.read x = .finite negative m e) (hz : (Double.Shortest.ofFinite m e).digits = 0) :
    (Double.Shortest.ofFinite m e).exponent +
      (Nat.toDigits 10 (Double.Shortest.ofFinite m e).digits).length = 1 := by
  by_cases hm : m = 0
  · rw [← point_eq, if_pos hm]
  · exact absurd hz (Double.ofFinite_digits_ne_zero (Double.read_fits h) hm)

theorem reads_finite {x : Float} {negative : Bool} {m : Nat} {e : Int}
    (h : Double.read x = .finite negative m e) :
    Reads d depth (layout.write x) (.ok (.number (.double x))) := by
  have hwritten := layout_write h
  have hvalue := laid_value (Double.Shortest.ofFinite m e).digits
    ((Double.Shortest.ofFinite m e).exponent +
      (Nat.toDigits 10 (Double.Shortest.ofFinite m e).digits).length)
  have hnought := point_of_nought h
  rw [add_sub_cancel_right] at hvalue
  generalize (Double.Shortest.ofFinite m e).exponent +
    (Nat.toDigits 10 (Double.Shortest.ofFinite m e).digits).length = point at *
  have hlimit :
      ¬Number.digitLimit < (laid (Double.Shortest.ofFinite m e).digits point).digits.length := by
    have hshort := laid_short (Double.Shortest.ofFinite m e).digits point
    have : Number.digitLimit = 4300 := rfl
    omega
  have hread : Reads d depth _ _ := reads_numeral (laid_wellFormed hnought) hwritten
  rw [Double.ofDecimal_of_value h hvalue] at hread
  simpa [laid_not_whole, hlimit] using hread

theorem reads_null : Reads d depth "null" (.ok .null) :=
  .of_cons (show "null".toList = ['n', 'u', 'l', 'l'] from rfl) rfl fun rest _ fuel _ => by
    change value d (fuel + 1) depth ('n' :: 'u' :: 'l' :: 'l' :: rest) = _
    rw [value]
    rfl

/-- A double is read back if it is finite, and nothing is if not. -/
theorem reads_double (x : Float) : Reads d depth (number (.double x))
    (.ok (if x.isFinite then .number (.double x) else .null)) := by
  unfold number
  dsimp only
  by_cases hx : x.isFinite = true
  · obtain ⟨negative, m, e, h⟩ := Double.isFinite_iff.mp hx
    rw [if_pos hx, if_pos hx]
    exact reads_finite h
  · rw [if_neg hx, if_neg hx]
    exact reads_null

open Text (Kept) in
theorem kept_double (x : Float) : Kept (number (.double x)).toList := by
  unfold number
  dsimp only
  split
  next hx =>
    obtain ⟨negative, m, e, h⟩ := Double.isFinite_iff.mp hx
    rw [layout_write h]
    exact (kept_signText _).append (laid_wellFormed (point_of_nought h)).kept
  next => exact .of_all (by decide +kernel)

end Duel.Json
