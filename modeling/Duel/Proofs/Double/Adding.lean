import Duel.Proofs.Double.Rounding

namespace Duel.Double

open Float.Model (UnpackedFloat totalExponent)
open Float.Model.UnpackedFloat (Sign Accuracy ExtendedMantissa)

/-- A mantissa has been cut from a number. The round bit tells whether a half of a unit went with
it, the sticky bit whether anything else did. -/
def CutFrom (m : ExtendedMantissa) (x : Rat) : Prop :=
  let low : Rat := m.mantissa + if m.roundBit then 1 / 2 else 0
  if m.stickyBit then low < x ∧ x < low + 1 / 2 else x = low

namespace CutFrom

variable {m : ExtendedMantissa} {x : Rat}

theorem whole (k : Nat) : CutFrom (.ofMantissaAndAccuracy k .exact) k := by
  simp [CutFrom, ExtendedMantissa.ofMantissaAndAccuracy]

theorem half (h : CutFrom m x) : CutFrom m.shiftRightOne (x / 2) := by
  obtain ⟨k, round, sticky⟩ := m
  have hk : ((k % 2 : Nat) : Rat) + 2 * ((k / 2 : Nat) : Rat) = k := by
    exact_mod_cast Nat.mod_add_div k 2
  unfold CutFrom ExtendedMantissa.shiftRightOne at *
  dsimp only at *
  obtain hbit | hbit : k % 2 = 0 ∨ k % 2 = 1 := by omega
  all_goals
    rw [hbit] at hk ⊢
    cases round <;> cases sticky <;> simp at h hk ⊢ <;> grind

theorem shift (h : CutFrom m x) (n : Nat) : CutFrom (m >>> n) (x / 2 ^ n) := by
  change CutFrom (n.repeat ExtendedMantissa.shiftRightOne m) _
  induction n with
  | zero => simpa [Nat.repeat] using h
  | succ n ih =>
    rw [Nat.repeat, pow_succ, ← div_div]
    exact ih.half

theorem rounded (h : CutFrom m x) {n : Nat} (hl : n - 1 / 2 ≤ x) (hu : x ≤ n + 1 / 2)
    (hodd : n % 2 = 1 → n - 1 / 2 < x ∧ x < n + 1 / 2) : m.roundedMantissa = n := by
  obtain ⟨k, round, sticky⟩ := m
  unfold CutFrom at h
  dsimp only at h
  have hle : k ≤ n := by
    by_contra hn
    have : (n : Rat) + 1 ≤ k := by exact_mod_cast Nat.not_le.mp hn
    cases round <;> cases sticky <;> simp at h <;> grind
  have hge : n ≤ k + 1 := by
    by_contra hn
    have : (k : Rat) + 2 ≤ n := by exact_mod_cast Nat.not_le.mp hn
    cases round <;> cases sticky <;> simp at h <;> grind
  unfold ExtendedMantissa.roundedMantissa
  obtain rfl | rfl : n = k ∨ n = k + 1 := by omega
  · cases round <;> cases sticky <;> simp at h <;>
      simp [ExtendedMantissa.accuracy, Accuracy.roundToNearestEven] <;> grind
  · push_cast at hl hu hodd
    cases round <;> cases sticky <;> simp at h <;>
      simp [ExtendedMantissa.accuracy, Accuracy.roundToNearestEven] <;> grind

end CutFrom

def target (k : Nat) (j : Int) : Int :=
  Float.Model.Format.binary64.targetExponent (totalExponent k j)

theorem target_eq (k : Nat) (j : Int) : target k j = max (k.log2 + j - 52) (-1074) := by
  have hleast : Float.Model.Format.binary64.minExponent = -1074 := rfl
  unfold target Float.Model.Format.targetExponent totalExponent
  rw [hleast]
  change max ((k.log2 : Int) + 1 + j - 53) (-1074) = _
  omega

theorem target_reaches {k : Nat} (hk : 0 < k) (j : Int) : Reaches (target k j) (k * 2 ^ j) := by
  have hp := two_zpow_pos j
  have hk' : (2 : Rat) ^ (k.log2 : Int) ≤ k ∧ (k : Rat) < 2 ^ ((k.log2 : Int) + 1) := by
    exact_mod_cast And.intro (Nat.log2_self_le hk.ne') (Nat.lt_log2_self (n := k))
  have hmono : ∀ {c d : Int}, c ≤ d → (2 : Rat) ^ c ≤ 2 ^ d :=
    fun h => zpow_le_zpow_right₀ (by norm_num) h
  have hlow : (2 : Rat) ^ ((k.log2 : Int) + j) ≤ k * 2 ^ j := by
    rw [zpow_add₀ (by norm_num)]
    exact mul_le_mul_of_nonneg_right hk'.1 hp.le
  have hhigh : (k : Rat) * 2 ^ j < 2 ^ ((k.log2 : Int) + 1 + j) := by
    rw [zpow_add₀ (by norm_num)]
    exact mul_lt_mul_of_pos_right hk'.2 hp
  rw [target_eq]
  refine ⟨hhigh.trans_le (hmono (by omega)), by omega, ?_⟩
  by_cases h : -1074 ≤ (k.log2 : Int) + j - 52
  · exact .inl ((hmono (by omega)).trans hlow)
  · exact .inr (by omega)

theorem shift_of_target_le {k : Nat} {j : Int} (h : target k j ≤ j) :
    UnpackedFloat.shiftToTargetExponent .binary64 k j .exact = (⟨k, false, false⟩, j) := by
  have hn : (target k j - j).toNat = 0 := by omega
  change (ExtendedMantissa.mk k false false >>> (target k j - j).toNat,
    j + ((target k j - j).toNat : Int)) = _
  rw [hn, Nat.cast_zero, Int.add_zero]
  rfl

theorem Fits.target_le {m : Nat} {e : Int} (h : Fits m e) : target m e ≤ e := by
  have hleast := h.least
  rw [target_eq]
  obtain hn | he := h.normal
  · rw [log2_eq_of_normal hn h.lt]
    omega
  · by_cases hn : leadingBit ≤ m
    · rw [log2_eq_of_normal hn h.lt]
      omega
    · have hlog : m.log2 < 52 ∨ m = 0 := by
        obtain rfl | hm := Nat.eq_zero_or_pos m
        · exact .inr rfl
        · exact .inl ((Nat.log2_lt hm.ne').mpr (Nat.not_le.mp hn))
      obtain hlog | rfl := hlog
      · omega
      · rw [Nat.log2_zero]
        omega

theorem shift_of_carry {e : Int} (h : -1074 < e) :
    UnpackedFloat.shiftToTargetExponent .binary64 (2 * leadingBit) (e - 1) .exact =
      (⟨leadingBit, false, false⟩, e) := by
  have ht : target (2 * leadingBit) (e - 1) = e := by
    rw [target_eq, show (2 * leadingBit).log2 = 53 by decide +kernel]
    omega
  change (ExtendedMantissa.mk (2 * leadingBit) false false >>>
      (target (2 * leadingBit) (e - 1) - (e - 1)).toNat,
    e - 1 + ((target (2 * leadingBit) (e - 1) - (e - 1)).toNat : Int)) = _
  rw [ht, show (e - (e - 1)).toNat = 1 by omega, Nat.cast_one, Int.sub_add_cancel]
  rfl

/-- The first shift cuts the places that are too many, the second one a carry. -/
theorem roundWithAccuracy_eq {k m : Nat} {j d e : Int} {cut : ExtendedMantissa}
    (hfirst : UnpackedFloat.shiftToTargetExponent .binary64 k j .exact = (cut, d))
    (hsecond : UnpackedFloat.shiftToTargetExponent .binary64 cut.roundedMantissa d .exact =
      (⟨m, false, false⟩, e)) (hm : 0 < m) (s : Sign) :
    UnpackedFloat.roundWithAccuracy .binary64 s k j .exact = .finite s m e hm := by
  unfold UnpackedFloat.roundWithAccuracy
  rw [hfirst]
  dsimp only
  rw [hsecond]
  exact dif_neg hm.ne'

theorem exists_cut {k : Nat} {j : Int} (h : j ≤ target k j) :
    ∃ cut, UnpackedFloat.shiftToTargetExponent .binary64 k j .exact = (cut, target k j) ∧
      CutFrom cut (k * 2 ^ j / 2 ^ target k j) := by
  have hcut := (CutFrom.whole k).shift (target k j - j).toNat
  have hvalue : (k : Rat) / 2 ^ (target k j - j).toNat = k * 2 ^ j / 2 ^ target k j := by
    have := (two_zpow_pos j).ne'
    rw [two_zpow_split h]
    field_simp
  refine ⟨_, Prod.ext rfl ?_, hvalue ▸ hcut⟩
  change j + ((target k j - j).toNat : Int) = target k j
  omega

theorem roundWithAccuracy_of_near {k m : Nat} {j e : Int} (hk : 0 < k) (hj : j ≤ target k j)
    (hm : 0 < m) (h : Fits m e) (hx : Near m e (k * 2 ^ j)) (s : Sign) :
    UnpackedFloat.roundWithAccuracy .binary64 s k j .exact = .finite s m e hm := by
  obtain ⟨cut, hfirst, hcut⟩ := exists_cut hj
  obtain he | ⟨rfl, hleast, he⟩ := (target_reaches hk j).of_near h hx
  · have hp := two_zpow_pos e
    rw [he] at hcut hfirst
    have hround := hcut.rounded ((le_div_iff₀ hp).mpr hx.weaken.1) ((div_le_iff₀ hp).mpr hx.upper)
      fun hodd => ⟨(lt_div_iff₀ hp).mpr (hx.weaken.2 hodd),
        (div_lt_iff₀ hp).mpr (hx.inside hodd).2⟩
    refine roundWithAccuracy_eq hfirst ?_ hm s
    rw [hround]
    exact shift_of_target_le h.target_le
  · have hp := two_zpow_pos (e - 1)
    have hhigh := (target_reaches hk j).lt
    rw [he] at hhigh hcut hfirst
    obtain ⟨hl, hu⟩ := hx.carries hleast hhigh
    have hround := hcut.rounded ((le_div_iff₀ hp).mpr hl) ((div_le_iff₀ hp).mpr hu)
      fun hodd => absurd hodd (by decide)
    refine roundWithAccuracy_eq hfirst ?_ hm s
    rw [hround]
    exact shift_of_carry hleast

theorem log2_shiftLeft {k : Nat} (hk : 0 < k) (n : Nat) : (k <<< n).log2 = k.log2 + n := by
  have hp := Nat.two_pow_pos n
  have hlow := Nat.mul_le_mul_right (2 ^ n) (Nat.log2_self_le hk.ne')
  have hhigh := Nat.mul_lt_mul_of_pos_right (Nat.lt_log2_self (n := k)) hp
  rw [Nat.shiftLeft_eq, Nat.log2_eq_iff (Nat.mul_pos hk hp).ne', Nat.add_right_comm, pow_add,
    pow_add 2 (k.log2 + 1)]
  exact ⟨hlow, hhigh⟩

theorem exists_lowered {k : Nat} (hk : 0 < k) (j : Int) :
    ∃ n i, 0 < n ∧ i ≤ target n i ∧ (n : Rat) * 2 ^ i = k * 2 ^ j ∧
      ∀ s, UnpackedFloat.round .binary64 s k j =
        .roundWithAccuracy .binary64 s n i .exact := by
  let n := (j - target k j).toNat
  have hpos : 0 < k <<< n := by
    rw [Nat.shiftLeft_eq]
    exact Nat.mul_pos hk (Nat.two_pow_pos n)
  have htarget : target (k <<< n) (j - n) = target k j := by
    rw [target_eq, target_eq, log2_shiftLeft hk]
    omega
  refine ⟨k <<< n, j - n, hpos, ?_, ?_, fun s => rfl⟩
  · rw [htarget]
    omega
  · rw [Nat.shiftLeft_eq, Nat.cast_mul, Nat.cast_pow, Nat.cast_ofNat, mul_assoc, ← zpow_natCast,
      ← zpow_add₀ (by norm_num)]
    congr 2
    omega

theorem round_of_near {k m : Nat} {j e : Int} (hk : 0 < k) (hm : 0 < m) (h : Fits m e)
    (hx : Near m e (k * 2 ^ j)) (s : Sign) :
    UnpackedFloat.round .binary64 s k j = .finite s m e hm := by
  obtain ⟨n, i, hn, hle, hvalue, hround⟩ := exists_lowered hk j
  rw [hround]
  exact roundWithAccuracy_of_near hn hle hm h (hvalue.symm ▸ hx) s

/-- What a sign, a mantissa and an exponent stand for. -/
def value (negative : Bool) (m : Nat) (e : Int) : Rat :=
  (if negative then -(m : Rat) else m) * 2 ^ e

def magnitude (negative : Bool) (x : Rat) : Rat := if negative then -x else x

theorem value_shiftLeft (s : Sign) (m : Nat) {d e : Int} (h : d ≤ e) :
    ((s.apply (m <<< (e - d).toNat : Nat) : Int) : Rat) * 2 ^ d = value (signBit s) m e := by
  unfold value
  rw [Nat.shiftLeft_eq, two_zpow_split h]
  cases s <;> simp [Sign.apply, signBit] <;> ring

theorem normalize_of_near {n e : Int} {d : Int} {k : Nat} {s : Sign} (hk : 0 < k) (hf : Fits k d)
    (h : Near k d (magnitude (signBit s) (n * 2 ^ e))) (z : Sign) :
    UnpackedFloat.normalize .binary64 n e z = .finite s k d hk := by
  have hp := two_zpow_pos e
  have hpos : 0 < magnitude (signBit s) (n * 2 ^ e) := by
    refine lt_of_lt_of_le (mul_pos ?_ (two_zpow_pos d)) h.weaken.1
    have : (1 : Rat) ≤ k := by exact_mod_cast hk
    linarith
  unfold UnpackedFloat.normalize
  cases s with
  | positive =>
    change 0 < (n : Rat) * 2 ^ e at hpos
    have hn : 0 < n := by exact_mod_cast pos_of_mul_pos_left hpos hp.le
    rw [show compare n 0 = .gt from compare_gt_iff_gt.mpr hn]
    refine round_of_near (by omega) hk hf ?_ _
    have hcast : ((n.toNat : Nat) : Rat) = n := by exact_mod_cast Int.toNat_of_nonneg hn.le
    rw [hcast]
    exact h
  | negative =>
    change 0 < -((n : Rat) * 2 ^ e) at hpos
    rw [← neg_mul] at hpos
    have hn : 0 < -n := by exact_mod_cast pos_of_mul_pos_left hpos hp.le
    rw [show compare n 0 = .lt from compare_lt_iff_lt.mpr (by omega)]
    refine round_of_near (by omega) hk hf ?_ _
    have hcast : (((-n).toNat : Nat) : Rat) = -n := by exact_mod_cast Int.toNat_of_nonneg hn.le
    rw [hcast, neg_mul]
    exact h

section Sum

variable {x y : Float} {p q : Bool} {m n : Nat} {d e : Int}

theorem toBits_add (x y : Float) : (x + y).toBits.toBitVec =
    UnpackedFloat.pack .binary64 (.add .binary64 (.unpack .binary64 x.toBits.toBitVec)
      (.unpack .binary64 y.toBits.toBitVec)) := rfl

theorem toBits_add_finite (hx : read x = .finite p m d) (hy : read y = .finite q n e) (hm : 0 < m)
    (hn : 0 < n) : ∃ k : Int, (k : Rat) * 2 ^ min d e = value p m d + value q n e ∧
      (x + y).toBits.toBitVec = UnpackedFloat.pack .binary64
        (.normalize .binary64 k (min d e) .positive) := by
  obtain ⟨s, rfl⟩ := exists_sign p
  obtain ⟨t, rfl⟩ := exists_sign q
  obtain ⟨rfl, -⟩ | ⟨hm, hx⟩ := unpack_of_read hx
  · exact absurd hm (by decide)
  obtain ⟨rfl, -⟩ | ⟨hn, hy⟩ := unpack_of_read hy
  · exact absurd hn (by decide)
  refine ⟨s.apply (m <<< (d - min d e).toNat : Nat) + t.apply (n <<< (e - min d e).toNat : Nat),
    ?_, ?_⟩
  · rw [Int.cast_add, add_mul, value_shiftLeft s m (min_le_left d e),
      value_shiftLeft t n (min_le_right d e)]
  · rw [toBits_add, hx, hy]
    rfl

/-- The sum is the double that the exact sum is near to. -/
theorem read_add_of_near {r : Bool} {k : Nat} {f : Int} (hx : read x = .finite p m d)
    (hy : read y = .finite q n e) (hm : 0 < m) (hn : 0 < n) (hk : 0 < k) (hf : Fits k f)
    (h : Near k f (magnitude r (value p m d + value q n e))) :
    read (x + y) = .finite r k f := by
  obtain ⟨a, ha, hbits⟩ := toBits_add_finite hx hy hm hn
  obtain ⟨s, rfl⟩ := exists_sign r
  rw [← ha] at h
  rw [normalize_of_near hk hf h] at hbits
  exact read_of_toBits hf ((congrArg BitVec.toNat hbits).trans (toNat_pack_finite hk hf s))

theorem read_add_of_cancel (hx : read x = .finite p m d) (hy : read y = .finite q n e) (hm : 0 < m)
    (hn : 0 < n) (h : value p m d + value q n e = 0) : read (x + y) = .finite false 0 (-1074) := by
  obtain ⟨a, ha, hbits⟩ := toBits_add_finite hx hy hm hn
  have ha : (a : Rat) = 0 := by
    rw [h] at ha
    exact (mul_eq_zero.mp ha).resolve_right (two_zpow_pos _).ne'
  obtain rfl : a = 0 := by exact_mod_cast ha
  refine read_of_toBits fits_zero ?_
  exact congrArg BitVec.toNat hbits

theorem zero_add_finite (hx : read x = .finite p 0 d) (hy : read y = .finite q n e) (hn : 0 < n) :
    x + y = y := by
  have hf := read_fits hy
  have hyb := toBits_of_read hy
  obtain ⟨s, rfl⟩ := exists_sign p
  obtain ⟨t, rfl⟩ := exists_sign q
  obtain ⟨-, hx⟩ | ⟨hm, -⟩ := unpack_of_read hx
  · obtain ⟨rfl, -⟩ | ⟨hn, hy⟩ := unpack_of_read hy
    · exact absurd hn (by decide)
    have hbits := toBits_add x y
    rw [hx, hy] at hbits
    exact toBits_inj (((congrArg BitVec.toNat hbits).trans (toNat_pack_finite hn hf t)).trans
      hyb.symm)
  · exact absurd hm (by decide)

end Sum

end Duel.Double
