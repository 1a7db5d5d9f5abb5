import Duel.Double.Shortest
import Duel.Proofs.Double.Rounding

namespace Duel.Double.Shortest

def Digits.value (d : Digits) : Rat := d.digits * 10 ^ d.exponent

theorem ten_zpow_pos (k : Int) : (0 : Rat) < 10 ^ k := zpow_pos (by norm_num) k

theorem ten_zpow_mul (k : Int) :
    (10 : Rat) ^ k * (Nat.pow 10 (-k).toNat : Nat) = (Nat.pow 10 k.toNat : Nat) := by
  obtain hk | hk := Int.le_total 0 k
  · obtain ⟨n, rfl⟩ := Int.eq_ofNat_of_zero_le hk
    simp
  · obtain ⟨n, hn⟩ := Int.eq_ofNat_of_zero_le (show 0 ≤ -k by omega)
    obtain rfl : k = -n := by omega
    simp

theorem ten_pow_pos (n : Nat) : 0 < Nat.pow 10 n := Nat.pow_pos (by decide)

/-- Whether `x * den` lies between two bounds, which it may reach if they are `closed`. -/
def Within (lo hi den : Nat) (closed : Bool) (x : Rat) : Prop :=
  if closed then lo ≤ x * den ∧ x * den ≤ hi else lo < x * den ∧ x * den < hi

variable {v lo hi den : Nat} {closed : Bool} {lead : Int} {count : Nat}

def inside (lo hi den : Nat) (closed : Bool) (step : Int) (n : Nat) : Bool :=
  let p := n * (den * Nat.pow 10 step.toNat)
  let down := Nat.pow 10 (-step).toNat
  if closed then decide (lo * down ≤ p ∧ p ≤ hi * down) else decide (lo * down < p ∧ p < hi * down)

theorem inside_of_lt {step : Int} {n : Nat}
    (hl : lo * Nat.pow 10 (-step).toNat < n * (den * Nat.pow 10 step.toNat))
    (hu : n * (den * Nat.pow 10 step.toNat) < hi * Nat.pow 10 (-step).toNat) :
    inside lo hi den closed step n = true := by
  cases closed with
  | true => exact decide_eq_true ⟨hl.le, hu.le⟩
  | false => exact decide_eq_true ⟨hl, hu⟩

theorem within_of_inside {n : Nat} {step : Int} (h : inside lo hi den closed step n = true) :
    Within lo hi den closed (Digits.value ⟨n, step⟩) := by
  have hdown : 0 < ((Nat.pow 10 (-step).toNat : Nat) : Rat) := by exact_mod_cast ten_pow_pos _
  have hmul : ((n * (den * Nat.pow 10 step.toNat) : Nat) : Rat) =
      Digits.value ⟨n, step⟩ * den * (Nat.pow 10 (-step).toNat : Nat) := by
    rw [Nat.cast_mul, Nat.cast_mul, ← ten_zpow_mul, Digits.value]
    ring
  unfold inside at h
  unfold Within
  cases closed with
  | true =>
    obtain ⟨hl, hu⟩ := of_decide_eq_true h
    have hl : ((lo * Nat.pow 10 (-step).toNat : Nat) : Rat) ≤ _ := Nat.cast_le.mpr hl
    have hu : _ ≤ ((hi * Nat.pow 10 (-step).toNat : Nat) : Rat) := Nat.cast_le.mpr hu
    rw [hmul, Nat.cast_mul] at hl hu
    exact ⟨le_of_mul_le_mul_right hl hdown, le_of_mul_le_mul_right hu hdown⟩
  | false =>
    obtain ⟨hl, hu⟩ := of_decide_eq_true h
    have hl : ((lo * Nat.pow 10 (-step).toNat : Nat) : Rat) < _ := Nat.cast_lt.mpr hl
    have hu : _ < ((hi * Nat.pow 10 (-step).toNat : Nat) : Rat) := Nat.cast_lt.mpr hu
    rw [hmul, Nat.cast_mul] at hl hu
    exact ⟨lt_of_mul_lt_mul_right hl hdown.le, lt_of_mul_lt_mul_right hu hdown.le⟩

theorem onGrid_within {d : Digits} (h : onGrid v lo hi den closed lead count = some d) :
    Within lo hi den closed d.value := by
  unfold onGrid at h
  dsimp only at h
  split at h
  next hb ha =>
    split at h <;> cases h
    · exact within_of_inside hb
    · exact within_of_inside ha
  next hb _ =>
    cases h
    exact within_of_inside hb
  next _ ha =>
    cases h
    exact within_of_inside ha
  next => cases h

theorem onGrid_isSome_of_inside {n : Nat}
    (hn : n = v * Nat.pow 10 (-(lead - count + 1)).toNat /
      (den * Nat.pow 10 (lead - count + 1).toNat))
    (h : inside lo hi den closed (lead - count + 1) n = true ∨
      inside lo hi den closed (lead - count + 1) (n + 1) = true) :
    (onGrid v lo hi den closed lead count).isSome := by
  subst hn
  unfold onGrid
  dsimp only
  split
  · split <;> rfl
  · rfl
  · rfl
  next hb ha =>
    obtain h | h := h
    · exact absurd (hb.symm.trans h) Bool.false_ne_true
    · exact absurd (ha.symm.trans h) Bool.false_ne_true

theorem onGrid_isSome (closed : Bool) (hd : 0 < den) (hlo : lo < v) (hhi : v < hi)
    (hfine : 10 ^ (lead - count + 1) * (den : Rat) < hi - lo) :
    (onGrid v lo hi den closed lead count).isSome := by
  refine onGrid_isSome_of_inside rfl ?_
  generalize lead - count + 1 = step at *
  have hdown : 0 < Nat.pow 10 (-step).toNat := ten_pow_pos _
  have hwide : lo * Nat.pow 10 (-step).toNat + den * Nat.pow 10 step.toNat <
      hi * Nat.pow 10 (-step).toNat := by
    have h := mul_lt_mul_of_pos_right hfine (show 0 < ((Nat.pow 10 (-step).toNat : Nat) : Rat) by
      exact_mod_cast hdown)
    rw [mul_right_comm, ten_zpow_mul, sub_mul] at h
    have h : ((lo * Nat.pow 10 (-step).toNat + den * Nat.pow 10 step.toNat : Nat) : Rat) <
        (hi * Nat.pow 10 (-step).toNat : Nat) := by
      push_cast at h ⊢
      linarith
    exact_mod_cast h
  have hlow : lo * Nat.pow 10 (-step).toNat < v * Nat.pow 10 (-step).toNat :=
    Nat.mul_lt_mul_of_pos_right hlo hdown
  have hhigh : v * Nat.pow 10 (-step).toNat < hi * Nat.pow 10 (-step).toNat :=
    Nat.mul_lt_mul_of_pos_right hhi hdown
  have hunit : 0 < den * Nat.pow 10 step.toNat := Nat.mul_pos hd (ten_pow_pos _)
  have hbelow := Nat.div_mul_le_self (v * Nat.pow 10 (-step).toNat) (den * Nat.pow 10 step.toNat)
  have habove := Nat.lt_div_mul_add (a := v * Nat.pow 10 (-step).toNat) hunit
  by_cases hb : lo * Nat.pow 10 (-step).toNat <
      v * Nat.pow 10 (-step).toNat / (den * Nat.pow 10 step.toNat) * (den * Nat.pow 10 step.toNat)
  · exact .inl (inside_of_lt hb (hbelow.trans_lt hhigh))
  · refine .inr (inside_of_lt ?_ ?_) <;> rw [Nat.succ_mul] <;> omega

theorem reached_iff {num den : Nat} (hd : 0 < den) (k : Int) :
    (if 0 ≤ k then den * Nat.pow 10 k.toNat ≤ num else den ≤ num * Nat.pow 10 (-k).toNat) ↔
      (10 : Rat) ^ k ≤ num / den := by
  have hd' : (0 : Rat) < den := by exact_mod_cast hd
  have hdown : 0 < ((Nat.pow 10 (-k).toNat : Nat) : Rat) := by exact_mod_cast ten_pow_pos _
  have hmul := ten_zpow_mul k
  have hratio : (10 : Rat) ^ k ≤ num / den ↔
      den * Nat.pow 10 k.toNat ≤ num * Nat.pow 10 (-k).toNat := by
    rw [le_div_iff₀ hd', ← mul_le_mul_iff_of_pos_right hdown, mul_right_comm, hmul,
      mul_comm ((Nat.pow 10 k.toNat : Nat) : Rat)]
    exact_mod_cast Iff.rfl
  rw [hratio]
  split
  next hk =>
    rw [show (-k).toNat = 0 by omega]
    change _ ↔ _ ≤ num * 1
    rw [Nat.mul_one]
  next hk =>
    rw [show k.toNat = 0 by omega]
    change _ ↔ den * 1 ≤ _
    rw [Nat.mul_one]

theorem leadingFrom_le {num den : Nat} (hd : 0 < den) {fuel : Nat} {guess : Int}
    (h : (10 : Rat) ^ (guess - fuel) ≤ num / den) :
    (10 : Rat) ^ leadingFrom num den fuel guess ≤ num / den := by
  induction fuel generalizing guess with
  | zero => simpa [leadingFrom] using h
  | succ fuel ih =>
    by_cases hreached : (10 : Rat) ^ guess ≤ num / den
    · rwa [leadingFrom, if_pos ((reached_iff hd guess).mpr hreached)]
    · rw [leadingFrom, if_neg fun hr => hreached ((reached_iff hd guess).mp hr)]
      refine ih ?_
      rwa [show guess - 1 - (fuel : Int) = guess - ((fuel + 1 : Nat) : Int) by omega]

theorem trim_value (fuel : Nat) (d : Digits) : (trim fuel d).value = d.value := by
  induction fuel generalizing d with
  | zero => rfl
  | succ fuel ih =>
    unfold trim
    split
    next h =>
      have hdigits : ((d.digits : Nat) : Rat) = (d.digits / 10 : Nat) * 10 := by
        exact_mod_cast show d.digits = d.digits / 10 * 10 by omega
      rw [ih, Digits.value, Digits.value, hdigits, zpow_add₀ (by norm_num), zpow_one]
      ring
    next => rfl

end Duel.Double.Shortest

namespace Duel.Double

open Shortest

variable {m : Nat} {e : Int}

theorem quarter_eq (e : Int) :
    ((1 <<< e.toNat : Nat) : Rat) = 2 ^ e / 4 * (4 <<< (-e).toNat : Nat) := by
  rw [Nat.shiftLeft_eq, Nat.shiftLeft_eq]
  obtain he | he := Int.le_total 0 e
  · obtain ⟨n, rfl⟩ := Int.eq_ofNat_of_zero_le he
    simp
  · obtain ⟨n, hn⟩ := Int.eq_ofNat_of_zero_le (show 0 ≤ -e by omega)
    obtain rfl : e = -n := by omega
    simp
    field_simp

theorem Fits.tiny_le (h : Fits m e) (hm : m ≠ 0) : (10 : Rat) ^ (-390 : Int) ≤ m * 2 ^ e := by
  have hone : (1 : Rat) ≤ m := by exact_mod_cast Nat.pos_of_ne_zero hm
  have hpow : ((2 ^ 1074 : Nat) : Rat) ≤ (10 ^ 390 : Nat) :=
    Nat.cast_le.mpr (by decide +kernel)
  calc (10 : Rat) ^ (-390 : Int) = ((10 ^ 390 : Nat) : Rat)⁻¹ := by
        rw [zpow_neg, Nat.cast_pow]
        rfl
    _ ≤ ((2 ^ 1074 : Nat) : Rat)⁻¹ := inv_anti₀ (by positivity) hpow
    _ = 2 ^ (-1074 : Int) := by
        rw [zpow_neg, Nat.cast_pow]
        rfl
    _ ≤ 2 ^ e := zpow_le_zpow_right₀ (by norm_num) h.least
    _ ≤ m * 2 ^ e := le_mul_of_one_le_left (two_zpow_pos e).le hone

/-- The interval of a double, over the denominator of the search for digits. -/
theorem near_of_within {lo hi den unit : Nat} {x : Rat} (hd : 0 < den)
    (hunit : (unit : Rat) = 2 ^ e / 4 * den)
    (hlo : (lo : Rat) = 4 * m * unit - 4 * reach m e * unit) (hhi : hi = 4 * m * unit + 2 * unit)
    (h : Within lo hi den (m % 2 = 0) x) : Near m e x := by
  have hd' : (0 : Rat) < den := by exact_mod_cast hd
  have hlo : (lo : Rat) = (m - reach m e) * 2 ^ e * den := by
    rw [hlo, hunit]
    ring
  have hhi : (hi : Rat) = (m + 1 / 2) * 2 ^ e * den := by
    rw [hhi]
    push_cast
    rw [hunit]
    ring
  unfold Within at h
  rw [hlo, hhi, mul_le_mul_iff_of_pos_right hd', mul_le_mul_iff_of_pos_right hd',
    mul_lt_mul_iff_of_pos_right hd', mul_lt_mul_iff_of_pos_right hd'] at h
  split at h
  next heven =>
    have heven := of_decide_eq_true heven
    exact ⟨h.1, h.2, fun hodd => by omega⟩
  next => exact ⟨h.1.le, h.2.le, fun _ => h⟩

theorem lower_end {unit : Nat} (hm : m ≠ 0) (hunit : 0 < unit) {lo : Nat}
    (h : lo = if m = leadingBit ∧ -1074 < e then 4 * m * unit - unit else 4 * m * unit - 2 * unit) :
    lo < 4 * m * unit ∧ (lo : Rat) = 4 * m * unit - 4 * reach m e * unit := by
  have hle : 4 * 1 * unit ≤ 4 * m * unit :=
    Nat.mul_le_mul_right unit (Nat.mul_le_mul_left 4 (Nat.pos_of_ne_zero hm))
  subst h
  unfold reach
  split
  · refine ⟨by omega, ?_⟩
    rw [Nat.cast_sub (by omega)]
    push_cast
    ring
  · refine ⟨by omega, ?_⟩
    rw [Nat.cast_sub (by omega)]
    push_cast
    ring

theorem reach_wide (h : Fits m e) : (4 * m : Rat) < 10 ^ 16 * (2 + 4 * reach m e) := by
  have hm : (m : Rat) < (2 * leadingBit : Nat) := by exact_mod_cast h.lt
  unfold reach
  split
  next hp =>
    rw [hp.1]
    norm_num [leadingBit]
  next =>
    push_cast [leadingBit] at hm
    linarith

/-- The search ends with digits inside of the interval. -/
theorem found_near (h : Fits m e) (hm : m ≠ 0) {den unit lo : Nat} (hden : 0 < den)
    (hpos : 0 < unit) (hunit : (unit : Rat) = 2 ^ e / 4 * den)
    (hlo : lo = if m = leadingBit ∧ -1074 < e then 4 * m * unit - unit
      else 4 * m * unit - 2 * unit) :
    Near m e (((List.range 17).findSome? fun i => onGrid (4 * m * unit) lo (4 * m * unit + 2 * unit)
      den (m % 2 = 0) (leading (4 * m * unit) den) (i + 1)).getD ⟨0, 0⟩).value := by
  obtain ⟨hbelow, hlo⟩ := lower_end hm hpos hlo
  have hden' : (0 : Rat) < den := by exact_mod_cast hden
  have hunit' : (0 : Rat) < unit := by exact_mod_cast hpos
  have hvalue : ((4 * m * unit : Nat) : Rat) / den = m * 2 ^ e := by
    rw [div_eq_iff hden'.ne']
    push_cast
    rw [hunit]
    ring
  have hlead : (10 : Rat) ^ leading (4 * m * unit) den ≤ (4 * m * unit : Nat) / den := by
    refine leadingFrom_le hden ?_
    rw [hvalue]
    exact h.tiny_le hm
  have hfine : (10 : Rat) ^ (leading (4 * m * unit) den - (17 : Nat) + 1) * den <
      (4 * m * unit + 2 * unit : Nat) - lo := by
    have hwide := mul_lt_mul_of_pos_right (reach_wide h) hunit'
    have hstep : (10 : Rat) ^ leading (4 * m * unit) den =
        10 ^ (leading (4 * m * unit) den - (17 : Nat) + 1) * 10 ^ 16 := by
      rw [← zpow_natCast, ← zpow_add₀ (by norm_num)]
      congr 1
      push_cast
      omega
    rw [le_div_iff₀ hden', hstep] at hlead
    rw [hlo]
    push_cast at hlead ⊢
    linarith
  have hsome := onGrid_isSome (decide (m % 2 = 0)) hden hbelow
    (Nat.lt_add_of_pos_right (Nat.mul_pos (by decide) hpos)) hfine
  generalize hfound : List.findSome? _ (List.range 17) = found
  cases found with
  | none =>
    have hnone := List.findSome?_eq_none_iff.mp hfound 16 (List.mem_range.mpr (by decide))
    rw [hnone] at hsome
    cases hsome
  | some d =>
    obtain ⟨i, -, hgrid⟩ := List.exists_of_findSome?_eq_some hfound
    exact near_of_within hden hunit hlo rfl (onGrid_within hgrid)

theorem ofFinite_zero (e : Int) : ofFinite 0 e = ⟨0, 0⟩ := if_pos rfl

/-- The digits that a double is written with are those of a fraction near it. -/
theorem ofFinite_near (h : Fits m e) (hm : m ≠ 0) : Near m e (ofFinite m e).value := by
  have hden : 0 < 4 <<< (-e).toNat := by
    rw [Nat.shiftLeft_eq]
    positivity
  have hpos : 0 < 1 <<< e.toNat := by
    rw [Nat.shiftLeft_eq]
    positivity
  unfold ofFinite
  rw [if_neg hm]
  dsimp only
  rw [trim_value]
  exact found_near h hm hden hpos (quarter_eq e) rfl

variable {k : Nat} {j : Int}

theorem Fits.lt_huge (h : Fits m e) {x : Rat} (hx : Near m e x) : x < 10 ^ (400 : Int) := by
  have hm : (m : Rat) + 1 ≤ (2 * leadingBit : Nat) := by exact_mod_cast h.lt
  have hp := two_zpow_pos e
  have hpow : ((2 * leadingBit * 2 ^ 971 : Nat) : Rat) < (10 ^ 400 : Nat) :=
    Nat.cast_lt.mpr (by decide +kernel)
  calc x ≤ (m + 1 / 2) * 2 ^ e := hx.upper
    _ ≤ (2 * leadingBit : Nat) * 2 ^ e := mul_le_mul_of_nonneg_right (by linarith) hp.le
    _ ≤ (2 * leadingBit : Nat) * 2 ^ (971 : Int) :=
        mul_le_mul_of_nonneg_left (zpow_le_zpow_right₀ (by norm_num) h.most) (Nat.cast_nonneg _)
    _ = (2 * leadingBit * 2 ^ 971 : Nat) := by
        rw [Nat.cast_mul (2 * leadingBit), Nat.cast_pow]
        rfl
    _ < (10 ^ 400 : Nat) := hpow
    _ = 10 ^ (400 : Int) := by
        rw [Nat.cast_pow]
        rfl

theorem Fits.tiny_lt (h : Fits m e) (hm : m ≠ 0) {x : Rat} (hx : Near m e x) :
    (10 : Rat) ^ (-400 : Int) < x := by
  have hone : (1 : Rat) ≤ m := by exact_mod_cast Nat.pos_of_ne_zero hm
  have hp := two_zpow_pos e
  calc (10 : Rat) ^ (-400 : Int) = 10 ^ (-390 : Int) * 10 ^ (-10 : Int) := by
        rw [← zpow_add₀ (by norm_num)]
        rfl
    _ < 10 ^ (-390 : Int) * (1 / 2) := mul_lt_mul_of_pos_left (by norm_num) (ten_zpow_pos _)
    _ ≤ m * 2 ^ e * (1 / 2) := mul_le_mul_of_nonneg_right (h.tiny_le hm) (by norm_num)
    _ ≤ (m - 1 / 2) * 2 ^ e := by nlinarith
    _ ≤ x := hx.weaken.1

theorem ofFinite_digits_ne_zero (h : Fits m e) (hm : m ≠ 0) : (ofFinite m e).digits ≠ 0 := by
  intro hz
  have hlt := h.tiny_lt hm (ofFinite_near h hm)
  rw [Digits.value, hz, Nat.cast_zero, zero_mul] at hlt
  exact absurd hlt (not_lt.mpr (ten_zpow_pos _).le)

theorem lt_ten_pow (k : Nat) : (k : Rat) < 10 ^ ((k.log2 : Int) + 1) := by
  have h : (k : Rat) < (2 ^ (k.log2 + 1) : Nat) := Nat.cast_lt.mpr Nat.lt_log2_self
  have hle : ((2 ^ (k.log2 + 1) : Nat) : Rat) ≤ (10 ^ (k.log2 + 1) : Nat) :=
    Nat.cast_le.mpr (Nat.pow_le_pow_left (by decide) _)
  exact_mod_cast h.trans_le hle

theorem ten_pow_le (hk : k ≠ 0) : (10 : Rat) ^ ((k.log2 : Int) / 4) ≤ k := by
  have h : 10 ^ (k.log2 / 4) ≤ k :=
    calc 10 ^ (k.log2 / 4) ≤ (2 ^ 4) ^ (k.log2 / 4) := Nat.pow_le_pow_left (by decide) _
      _ = 2 ^ (4 * (k.log2 / 4)) := (Nat.pow_mul 2 4 _).symm
      _ ≤ 2 ^ k.log2 := Nat.pow_le_pow_right (by decide) (Nat.mul_div_le _ _)
      _ ≤ k := Nat.log2_self_le hk
  exact_mod_cast h

theorem nearest_decimal (h : Fits m e) (hx : Near m e (k * 10 ^ j)) :
    (if 0 ≤ j then nearest (k * Nat.pow 10 j.toNat) 1 else nearest k (Nat.pow 10 (-j).toNat)) =
      Float.ofBits (UInt64.ofNat (bitsOf m e)) := by
  split
  next hj =>
    obtain ⟨n, rfl⟩ := Int.eq_ofNat_of_zero_le hj
    refine nearest_of_near (by decide) h ?_
    simpa using hx
  next hj =>
    obtain ⟨n, hn⟩ := Int.eq_ofNat_of_zero_le (show 0 ≤ -j by omega)
    obtain rfl : j = -n := by omega
    refine nearest_of_near (ten_pow_pos _) h ?_
    simpa [div_eq_mul_inv] using hx

/-- A decimal near a double is read as the double: it is too large or too small for none. -/
theorem ofDecimal_of_near (h : Fits m e) (hx : Near m e (k * 10 ^ j)) (negative : Bool) :
    ofDecimal negative k j = signed negative (Float.ofBits (UInt64.ofNat (bitsOf m e))) := by
  unfold ofDecimal
  dsimp only
  refine congrArg (signed negative) ?_
  have hmono : ∀ {c d : Int}, c ≤ d → (10 : Rat) ^ c ≤ 10 ^ d :=
    fun h => zpow_le_zpow_right₀ (by norm_num) h
  have hhuge := h.lt_huge hx
  have hzero : m = 0 → Float.ofBits (UInt64.ofNat (bitsOf m e)) = Float.ofBits 0 := by
    rintro rfl
    obtain rfl : e = -1074 := h.normal.resolve_left (by decide)
    rfl
  by_cases hk : k = 0
  · have hm : m = 0 := by
      by_contra hm
      have := h.tiny_lt hm hx
      rw [hk, Nat.cast_zero, zero_mul] at this
      exact absurd this (not_lt.mpr (ten_zpow_pos _).le)
    rw [if_pos hk, hzero hm]
  have hj : (10 : Rat) ^ ((k.log2 : Int) / 4 + j) < 10 ^ (400 : Int) := by
    refine lt_of_le_of_lt ?_ hhuge
    rw [zpow_add₀ (by norm_num)]
    exact mul_le_mul_of_nonneg_right (ten_pow_le hk) (ten_zpow_pos j).le
  have hj : (k.log2 : Int) / 4 + j < 400 := (zpow_lt_zpow_iff_right₀ (by norm_num)).mp hj
  rw [if_neg hk, if_neg (by omega)]
  -- Decimals as small as this are not worked out, and the only double near them is zero.
  by_cases htiny : j + (k.log2 : Int) + 1 < -400
  · have hm : m = 0 := by
      by_contra hm
      have hlt : (k : Rat) * 10 ^ j < 10 ^ (-400 : Int) :=
        calc (k : Rat) * 10 ^ j < 10 ^ ((k.log2 : Int) + 1) * 10 ^ j :=
              mul_lt_mul_of_pos_right (lt_ten_pow k) (ten_zpow_pos j)
          _ = 10 ^ ((k.log2 : Int) + 1 + j) := (zpow_add₀ (by norm_num) _ _).symm
          _ ≤ 10 ^ (-400 : Int) := hmono (by omega)
      exact absurd hlt (not_lt.mpr (h.tiny_lt hm hx).le)
    rw [if_pos htiny, hzero hm]
  · rw [if_neg htiny, if_neg (by omega)]
    exact nearest_decimal h hx

theorem ofDecimal_of_value {x : Float} {negative : Bool} (h : read x = .finite negative m e)
    (hkj : (k : Rat) * 10 ^ j = (ofFinite m e).value) : ofDecimal negative k j = x := by
  have hfits := read_fits h
  refine (ofDecimal_of_near hfits ?_ negative).trans (eq_of_read h).symm
  rw [hkj]
  by_cases hm : m = 0
  · subst hm
    have hp := two_zpow_pos e
    have hvalue : (ofFinite 0 e).value = 0 := by
      rw [ofFinite_zero, Digits.value, Nat.cast_zero, zero_mul]
    rw [hvalue]
    have := (reach_bounds 0 e).1
    exact ⟨by push_cast; nlinarith, by positivity, fun hodd => absurd hodd (by decide)⟩
  · exact ofFinite_near hfits hm

end Duel.Double
