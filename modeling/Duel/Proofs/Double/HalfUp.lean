import Duel.Number
import Duel.Proofs.Double.Adding
import Mathlib.Data.Rat.Floor

namespace Duel

namespace Double

/-- The number that a double stands for. -/
def value? (x : Float) : Option Rat :=
  match read x with
  | .finite negative m e => some (value negative m e)
  | _ => none

theorem value_of_read {x : Float} {negative : Bool} {m : Nat} {e : Int}
    (h : read x = .finite negative m e) : value? x = some (value negative m e) := by
  unfold value?
  rw [h]

theorem exists_read {x : Float} {v : Rat} (h : value? x = some v) :
    ∃ negative m e, read x = .finite negative m e ∧ value negative m e = v := by
  unfold value? at h
  split at h
  · exact ⟨_, _, _, ‹_›, Option.some.inj h⟩
  · cases h

theorem floor_of_value {x : Float} {v : Rat} (h : value? x = some v) : floor? x = .ok ⌊v⌋ := by
  obtain ⟨negative, m, e, hr, rfl⟩ := exists_read h
  have hcast : (if negative then -(m : Rat) else m) =
      ((if negative then -(m : Int) else m : Int) : Rat) := by
    cases negative <;> simp
  unfold floor? value
  rw [hr, hcast]
  dsimp only
  generalize (if negative then -(m : Int) else m) = n
  split
  next he =>
    obtain ⟨k, rfl⟩ := Int.eq_ofNat_of_zero_le he
    rw [Int.toNat_natCast, Int.shiftLeft_eq, zpow_natCast]
    congr 1
    symm
    exact_mod_cast Int.floor_intCast (R := Rat) (n * 2 ^ k)
  next he =>
    obtain ⟨k, hk⟩ := Int.eq_ofNat_of_zero_le (show 0 ≤ -e by omega)
    obtain rfl : e = -k := by omega
    rw [neg_neg, Int.toNat_natCast, Int.shiftRight_eq_div_pow, zpow_neg, zpow_natCast,
      ← div_eq_mul_inv]
    congr 1
    symm
    exact_mod_cast Rat.floor_intCast_div_natCast n (2 ^ k)

theorem read_half : read 0.5 = .finite false leadingBit (-53) := by decide +kernel

theorem value_half : value false leadingBit (-53) = 1 / 2 := by
  norm_num [value, leadingBit]

section Half

variable {x : Float} {negative : Bool} {m : Nat} {e : Int}

theorem read_add_half (hx : read x = .finite negative m e) (hm : 0 < m) {r : Bool} {k : Nat}
    {d : Int} (hk : 0 < k) (hf : Fits k d)
    (h : Near k d (magnitude r (value negative m e + 1 / 2))) :
    read (x + 0.5) = .finite r k d :=
  read_add_of_near hx read_half hm (by decide) hk hf (value_half.symm ▸ h)

/-- Doubles that are more than a whole number apart swallow a half. -/
theorem add_half_of_coarse (hx : read x = .finite negative m e) (he : 0 < e) :
    read (x + 0.5) = .finite negative m e := by
  have hf := read_fits hx
  have hm : leadingBit ≤ m := hf.normal.resolve_right (by omega)
  have hp : (2 : Rat) ≤ 2 ^ e := by
    calc (2 : Rat) = 2 ^ (1 : Int) := by norm_num
      _ ≤ 2 ^ e := zpow_le_zpow_right₀ (by norm_num) (by omega)
  have hreach := (reach_bounds m e).1
  have hodd : m % 2 = 1 → reach m e = 1 / 2 := by
    refine fun h => if_neg ?_
    rintro ⟨rfl, -⟩
    exact absurd h (by decide)
  have hpos : 0 < m := Nat.lt_of_lt_of_le (by decide) hm
  refine read_add_half hx hpos hpos hf ?_
  cases negative with
  | false =>
    change Near m e (m * 2 ^ e + 1 / 2)
    refine ⟨by nlinarith, by linarith, fun h => ⟨by nlinarith, by linarith⟩⟩
  | true =>
    have hsum : magnitude true (value true m e + 1 / 2) = m * 2 ^ e - 1 / 2 := by
      change -(-(m : Rat) * 2 ^ e + 1 / 2) = _
      ring
    rw [hsum]
    refine ⟨by nlinarith, by linarith, fun h => ⟨?_, by linarith⟩⟩
    rw [hodd h]
    linarith

theorem abs_value (negative : Bool) (m : Nat) (e : Int) : |value negative m e| = m * 2 ^ e := by
  have hp := two_zpow_pos e
  cases negative <;> simp [value, abs_mul, abs_of_pos hp]

theorem finite_add_half {v : Rat} (h : value? x = some v) : ∃ w, value? (x + 0.5) = some w := by
  obtain ⟨negative, m, e, hr, -⟩ := exists_read h
  have hf := read_fits hr
  obtain rfl | hm := Nat.eq_zero_or_pos m
  · rw [zero_add_finite hr read_half (by decide)]
    exact ⟨_, value_of_read read_half⟩
  by_cases he : 0 < e
  · exact ⟨_, value_of_read (add_half_of_coarse hr he)⟩
  have hsmall : |value negative m e| < 2 ^ (53 : Int) := by
    have hle : (2 : Rat) ^ e ≤ 1 := zpow_le_one_of_nonpos₀ (by norm_num) (by omega)
    have hlt : (m : Rat) < 2 ^ (53 : Int) := by
      rw [← cast_carry]
      exact_mod_cast hf.lt
    rw [abs_value]
    nlinarith [two_zpow_pos e]
  by_cases hzero : value negative m e + 1 / 2 = 0
  · rw [← value_half] at hzero
    exact ⟨_, value_of_read (read_add_of_cancel hr read_half hm (by decide) hzero)⟩
  obtain ⟨r, hmag⟩ : ∃ r, magnitude r (value negative m e + 1 / 2) =
      |value negative m e + 1 / 2| := by
    obtain h | h := le_total 0 (value negative m e + 1 / 2)
    · exact ⟨false, (abs_of_nonneg h).symm⟩
    · exact ⟨true, (abs_of_nonpos h).symm⟩
  have hlarge : |value negative m e + 1 / 2| < huge := by
    calc |value negative m e + 1 / 2| ≤ |value negative m e| + |1 / 2| := abs_add_le _ _
      _ < 2 ^ (53 : Int) + 1 := by
        rw [abs_of_pos (show (0 : Rat) < 1 / 2 by norm_num)]
        linarith
      _ < 2 ^ (54 : Int) := by norm_num
      _ ≤ 1 * 2 ^ (971 : Int) := by
        rw [one_mul]
        exact zpow_le_zpow_right₀ (by norm_num) (by norm_num)
      _ ≤ huge := mul_le_mul_of_nonneg_right (by norm_num [leadingBit]) (two_zpow_pos 971).le
  obtain ⟨k, d, hfit, hnear⟩ := exists_near (abs_pos.mpr hzero) hlarge
  have hk : 0 < k := by
    -- The sum is a multiple of the least double, so it is not rounded to zero.
    obtain ⟨a, ha, -⟩ := toBits_add_finite hr read_half hm (by decide)
    rw [value_half] at ha
    have ha0 : a ≠ 0 := by
      rintro rfl
      exact hzero (ha.symm.trans (by simp))
    have hone : (1 : Rat) ≤ |(a : Rat)| := by exact_mod_cast Int.one_le_abs ha0
    by_contra hk
    obtain rfl : k = 0 := by omega
    obtain rfl : d = -1074 := hfit.normal.resolve_left (by decide)
    have hupper := hnear.upper
    have hleast : (2 : Rat) ^ (-1074 : Int) ≤ 2 ^ min e (-53) :=
      zpow_le_zpow_right₀ (by norm_num) (le_min hf.least (by decide))
    rw [← ha, abs_mul, abs_of_pos (two_zpow_pos _), Nat.cast_zero] at hupper
    nlinarith [two_zpow_pos (-1074)]
  exact ⟨_, value_of_read (read_add_half hr hm hk hfit (hmag.symm ▸ hnear))⟩

/-- The half is lost on odd whole numbers from `2 ^ 52` to `2 ^ 53`, which are rounded upwards with
it: the sum is a tie, and the even one of both neighbours is the next whole number. -/
def Oversteps (v : Rat) : Prop := ∃ n : Int, v = n ∧ n % 2 = 1 ∧ 2 ^ 52 < n ∧ n < 2 ^ 53

theorem Oversteps.of_nat {n : Nat} (hodd : n % 2 = 1) (hl : leadingBit ≤ n)
    (hu : n < 2 * leadingBit) : Oversteps n := by
  unfold leadingBit at *
  exact ⟨n, by simp, by omega, by omega, by omega⟩

theorem floor_add_half_unit (n : Nat) : ⌊(n : Rat) + 1 / 2⌋ = n := by
  rw [Int.floor_eq_iff]
  constructor <;> push_cast <;> linarith

theorem floor_unit (hx : read x = .finite false m 0) :
    (¬Oversteps m → floor? (x + 0.5) = .ok ⌊(m : Rat) + 1 / 2⌋) ∧
      (Oversteps m → floor? (x + 0.5) = .ok (⌊(m : Rat) + 1 / 2⌋ + 1)) := by
  have hf := read_fits hx
  have hm : leadingBit ≤ m := hf.normal.resolve_right (by decide)
  have hlt := hf.lt
  have hpos : 0 < m := Nat.lt_of_lt_of_le (by decide) hm
  have hsum : magnitude false (value false m 0 + 1 / 2) = m + 1 / 2 := by
    norm_num [magnitude, value]
  have hfloor {k : Nat} {d : Int} (hk : 0 < k) (hf : Fits k d) (h : Near k d (m + 1 / 2)) :
      floor? (x + 0.5) = .ok ⌊value false k d⌋ :=
    floor_of_value (value_of_read (read_add_half hx hpos hk hf (hsum.symm ▸ h)))
  rw [floor_add_half_unit]
  obtain heven | hodd : m % 2 = 0 ∨ m % 2 = 1 := by omega
  · have hnot : ¬Oversteps m := by
      rintro ⟨n, hn, hodd, -⟩
      have : (m : Int) = n := by exact_mod_cast hn
      omega
    refine ⟨fun _ => ?_, fun h => absurd h hnot⟩
    have hreach := reach_bounds m 0
    rw [hfloor hpos hf ⟨?_, ?_, fun h => by omega⟩]
    · congr 1
      simp [value]
    · norm_num
      linarith
    · norm_num
  · refine ⟨fun h => absurd (Oversteps.of_nat hodd hm hlt) h, fun _ => ?_⟩
    by_cases hlast : m + 1 < 2 * leadingBit
    · have hreach : reach (m + 1) 0 = 1 / 2 := if_neg (by omega)
      rw [hfloor (k := m + 1) (d := 0) (by omega) ⟨hlast, by decide, by decide, .inl (by omega)⟩
        ⟨?_, ?_, fun h => by omega⟩]
      · congr 1
        simp [value]
      · rw [hreach]
        norm_num
        linarith
      · push_cast
        norm_num
    · obtain rfl : m = 2 * leadingBit - 1 := by omega
      have hreach : reach leadingBit 1 = 1 / 4 := if_pos ⟨rfl, by decide⟩
      rw [hfloor (k := leadingBit) (d := 1) (by decide)
        ⟨by decide, by decide, by decide, .inl le_rfl⟩ ⟨?_, ?_, fun h => absurd h (by decide)⟩]
      · congr 1
        norm_num [value, leadingBit]
      · rw [hreach]
        norm_num [leadingBit]
      · norm_num [leadingBit]

theorem exists_halved (n : Nat) :
    ∃ k : Nat, 2 * k ≤ n + 1 ∧ n ≤ 2 * k + 1 ∧ (k % 2 = 1 → n = 2 * k) := by
  obtain heven | hodd : n / 2 % 2 = 0 ∨ n % 2 = 0 ∨ n / 2 % 2 = 1 ∧ n % 2 = 1 := by omega
  · exact ⟨n / 2, by omega, by omega, fun h => by omega⟩
  obtain heven | hodd := hodd
  · exact ⟨n / 2, by omega, by omega, fun h => by omega⟩
  · exact ⟨n / 2 + 1, by omega, by omega, fun h => by omega⟩

theorem not_oversteps_of_fine (hf : Fits m e) (he : e < 0) : ¬Oversteps (m * 2 ^ e) := by
  rintro ⟨n, hn, -, hl, -⟩
  have hlt : (m : Rat) < (2 * leadingBit : Nat) := by exact_mod_cast hf.lt
  have hle : (2 : Rat) ^ e ≤ 2 ^ (-1 : Int) := zpow_le_zpow_right₀ (by norm_num) (by omega)
  have hp := two_zpow_pos e
  have hl : (2 : Rat) ^ (52 : Int) < n := by exact_mod_cast hl
  rw [← hn] at hl
  have hle := mul_le_mul_of_nonneg_left hle (Nat.cast_nonneg m : (0 : Rat) ≤ m)
  norm_num at hle hl
  push_cast [leadingBit] at hlt
  linarith

theorem near_halved {n k : Nat} {e : Int} (hn : 2 * leadingBit ≤ n) (hl : 2 * k ≤ n + 1)
    (hu : n ≤ 2 * k + 1) (hodd : k % 2 = 1 → n = 2 * k) : Near k (e + 1) (n * 2 ^ e) := by
  have hp := two_zpow_pos e
  have htwo := two_zpow_succ e
  have hu' : (n : Rat) ≤ 2 * k + 1 := by exact_mod_cast hu
  have hl' : (2 * k : Rat) ≤ n + 1 := by exact_mod_cast hl
  have hreach := (reach_bounds k (e + 1)).1
  refine ⟨?_, ?_, fun h => ?_⟩
  · rw [htwo]
    by_cases hlead : k = leadingBit
    · have : (2 * k : Rat) ≤ n := by exact_mod_cast hlead ▸ hn
      nlinarith
    · have : reach k (e + 1) = 1 / 2 := if_neg fun h => hlead h.1
      rw [this]
      nlinarith
  · rw [htwo]
    nlinarith
  · have : (n : Rat) = 2 * k := by exact_mod_cast hodd h
    rw [htwo, this]
    constructor <;> nlinarith

theorem exists_half (he : e < 0) :
    ∃ k : Nat, e = -((k : Int) + 1) ∧ ((2 ^ k : Nat) : Rat) * 2 ^ e = 1 / 2 := by
  refine ⟨(-e - 1).toNat, by omega, ?_⟩
  rw [Nat.cast_pow, ← zpow_natCast, Nat.cast_ofNat, ← zpow_add₀ (by norm_num),
    show ((-e - 1).toNat : Int) + e = -1 by omega]
  norm_num

theorem floor_fine (hx : read x = .finite false m e) (he : e < 0)
    (hv : 1 / 2 ≤ (m : Rat) * 2 ^ e) : floor? (x + 0.5) = .ok ⌊(m : Rat) * 2 ^ e + 1 / 2⌋ := by
  have hf := read_fits hx
  have hp := two_zpow_pos e
  have hlt := hf.lt
  -- In units of the last place, the half is a power of two as well.
  obtain ⟨k, hk, hhalf⟩ := exists_half he
  have hkm : 2 ^ k ≤ m := by
    rw [← hhalf] at hv
    exact_mod_cast le_of_mul_le_mul_right hv hp
  have hk53 : k < 53 :=
    (Nat.pow_lt_pow_iff_right (by decide : 1 < 2)).mp (hkm.trans_lt hlt |>.trans_le (by decide))
  have hm : leadingBit ≤ m := hf.normal.resolve_right (by omega)
  have hpos : 0 < m := Nat.lt_of_lt_of_le (by decide) hm
  have hsum : (m : Rat) * 2 ^ e + 1 / 2 = ((m + 2 ^ k : Nat) : Rat) * 2 ^ e := by
    rw [← hhalf, Nat.cast_add, add_mul]
  have hfloor {n : Nat} {d : Int} (hn : 0 < n) (hf : Fits n d)
      (h : Near n d (((m + 2 ^ k : Nat) : Rat) * 2 ^ e)) :
      floor? (x + 0.5) = .ok ⌊(n : Rat) * 2 ^ d⌋ :=
    floor_of_value (value_of_read (read_add_half (r := false) hx hpos hn hf (hsum ▸ h)))
  rw [hsum]
  by_cases hshort : m + 2 ^ k < 2 * leadingBit
  · have hlead : leadingBit ≤ m + 2 ^ k := hm.trans (Nat.le_add_right m _)
    exact hfloor (Nat.add_pos_left hpos _) ⟨hshort, hf.least, hf.most, .inl hlead⟩ (near_self _ _)
  -- Both the sum and the double next to it lie less than a half above a power of two.
  obtain ⟨n, hl, hu, hodd⟩ := exists_halved (m + 2 ^ k)
  have hnear := near_halved (e := e) (by omega) hl hu hodd
  have hpow : 2 ^ k ≤ leadingBit := Nat.pow_le_pow_right (by decide) (show k ≤ 52 by omega)
  rw [hfloor (by omega) ⟨by omega, by omega, by omega, .inl (by omega)⟩ hnear]
  have hpower : ((2 * leadingBit : Nat) : Rat) * 2 ^ e = (2 ^ (52 - k) : Nat) := by
    rw [cast_carry, ← zpow_add₀ (by norm_num), hk, Nat.cast_pow, ← zpow_natCast, Nat.cast_ofNat]
    congr 1
    omega
  have hbetween {y : Rat} (hl : ((2 * leadingBit : Nat) : Rat) * 2 ^ e ≤ y)
      (hu : y ≤ ((2 * leadingBit : Nat) : Rat) * 2 ^ e + 1 / 2) : ⌊y⌋ = (2 ^ (52 - k) : Nat) := by
    rw [hpower] at hl hu
    rw [Int.floor_eq_iff]
    constructor
    · exact_mod_cast hl
    · push_cast at hu ⊢
      linarith
  have htwo : (n : Rat) * 2 ^ (e + 1) = ((2 * n : Nat) : Rat) * 2 ^ e := by
    rw [two_zpow_succ, Nat.cast_mul, Nat.cast_ofNat]
    ring
  have hfar {a b : Nat} (h : a ≤ b) : (a : Rat) * 2 ^ e ≤ b * 2 ^ e :=
    mul_le_mul_of_nonneg_right (by exact_mod_cast h) hp.le
  have habove : ((2 * leadingBit + 2 ^ k : Nat) : Rat) * 2 ^ e =
      ((2 * leadingBit : Nat) : Rat) * 2 ^ e + 1 / 2 := by
    rw [← hhalf, Nat.cast_add, add_mul]
  rw [htwo, hbetween (hfar (by omega)) (habove ▸ hfar (by omega)),
    hbetween (hfar (by omega)) (habove ▸ hfar (by omega))]

end Half

variable {x : Float} {v : Rat}

theorem floor_add_half (h : value? x = some v) (hv : 1 / 2 ≤ v) :
    (¬Oversteps v → floor? (x + 0.5) = .ok ⌊v + 1 / 2⌋) ∧
      (Oversteps v → floor? (x + 0.5) = .ok (⌊v + 1 / 2⌋ + 1)) := by
  obtain ⟨negative, m, e, hr, rfl⟩ := exists_read h
  have hf := read_fits hr
  have hp := two_zpow_pos e
  obtain rfl : negative = false := by
    cases negative with
    | false => rfl
    | true =>
      change 1 / 2 ≤ -(m : Rat) * 2 ^ e at hv
      have : (0 : Rat) ≤ m * 2 ^ e := mul_nonneg (Nat.cast_nonneg m) hp.le
      linarith
  change 1 / 2 ≤ (m : Rat) * 2 ^ e at hv
  change (¬Oversteps (m * 2 ^ e) → _ = Except.ok ⌊(m : Rat) * 2 ^ e + 1 / 2⌋) ∧
    (Oversteps (m * 2 ^ e) → _ = Except.ok (⌊(m : Rat) * 2 ^ e + 1 / 2⌋ + 1))
  obtain he | rfl | he := lt_trichotomy e 0
  · exact ⟨fun _ => floor_fine hr he hv, fun h => absurd h (not_oversteps_of_fine hf he)⟩
  · rw [zpow_zero, mul_one]
    exact floor_unit hr
  · obtain ⟨k, rfl⟩ : ∃ k : Nat, e = ((k + 1 : Nat) : Int) := ⟨e.toNat - 1, by omega⟩
    have hwhole : (m : Rat) * 2 ^ ((k + 1 : Nat) : Int) = ((m * 2 ^ (k + 1) : Nat) : Rat) := by
      rw [zpow_natCast]
      push_cast
      rfl
    rw [floor_of_value (value_of_read (add_half_of_coarse hr he)), hwhole, floor_add_half_unit]
    have hnot : ¬Oversteps ((m * 2 ^ (k + 1) : Nat) : Rat) := by
      rintro ⟨n, hn, hodd, -⟩
      have hn : ((m * 2 ^ (k + 1) : Nat) : Int) = n := by exact_mod_cast hn
      rw [pow_succ, ← mul_assoc] at hn
      omega
    refine ⟨fun _ => ?_, fun h => absurd h hnot⟩
    change Except.ok ⌊(m : Rat) * 2 ^ ((k + 1 : Nat) : Int)⌋ = _
    rw [hwhole, Int.floor_natCast]

theorem unpack_of_none (h : value? x = none) :
    Float.Model.UnpackedFloat.unpack .binary64 x.toBits.toBitVec = .notANumber ∨
      ∃ s, Float.Model.UnpackedFloat.unpack .binary64 x.toBits.toBitVec = .infinity s := by
  have hu := unpacks x
  unfold value? at h
  generalize read x = r at h hu
  generalize Float.Model.UnpackedFloat.unpack .binary64 x.toBits.toBitVec = u at hu
  cases hu with
  | nan => exact .inl rfl
  | infinite s => exact .inr ⟨s, rfl⟩
  | zero s e => cases h
  | finite s hm hf => cases h

theorem floor_add_half_of_none (h : value? x = none) :
    floor? (x + 0.5) = .error .notANumber ∨ floor? (x + 0.5) = .error .infinite := by
  have hbits := toBits_add x 0.5
  obtain hx | ⟨s, hx⟩ := unpack_of_none h
  · rw [hx] at hbits
    have hsum : x + 0.5 = nan := toBits_inj (congrArg BitVec.toNat hbits)
    rw [hsum]
    exact .inl (by decide +kernel)
  · rw [hx] at hbits
    refine .inr ?_
    cases s with
    | positive =>
      have hsum : x + 0.5 = infinity := toBits_inj (congrArg BitVec.toNat hbits)
      rw [hsum]
      decide +kernel
    | negative =>
      have hsum : x + 0.5 = -infinity := toBits_inj (congrArg BitVec.toNat hbits)
      rw [hsum]
      decide +kernel

end Double

theorem Number.roundHalfUp_eq {r : Number} {x : Float} (h : r.double? = .ok x) :
    Scalar.roundHalfUp r = Double.floor? (x + 0.5) := by
  have hsum : Number.arith (· + ·) (· + ·) r (.double 0.5) = .ok (.double (x + 0.5)) := by
    cases r with
    | whole n =>
      change (do return Number.double ((← (Number.whole n).double?) + 0.5)) = _
      rw [h]
      rfl
    | double y =>
      obtain rfl : y = x := Except.ok.inj h
      rfl
  change Number.arith (· + ·) (· + ·) r (.double 0.5) >>= Scalar.floor = _
  rw [hsum]
  rfl

end Duel
