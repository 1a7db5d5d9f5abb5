import Duel.Double

namespace Duel.Double

open Float.Model (UnpackedFloat)
open Float.Model.UnpackedFloat (Sign)

/-- A mantissa with an exponent, as a finite double has them. -/
structure Fits (m : Nat) (e : Int) : Prop where
  lt : m < 2 * leadingBit
  least : -1074 ≤ e
  most : e ≤ 971
  normal : leadingBit ≤ m ∨ e = -1074

theorem fits_zero : Fits 0 (-1074) := ⟨by decide, by decide, by decide, .inr rfl⟩

/-- How many doubles there are from zero up to `m * 2 ^ e`. -/
def bitsOf (m : Nat) (e : Int) : Nat := (e + 1074).toNat * leadingBit + m

def endBits : Nat := 2047 * leadingBit

def signBits (negative : Bool) : Nat := if negative then 0x8000000000000000 else 0

theorem Fits.bitsOf_lt {m : Nat} {e : Int} (h : Fits m e) : bitsOf m e < endBits := by
  have := h.lt
  have := h.most
  have := h.normal
  unfold bitsOf endBits leadingBit at *
  omega

theorem bitsOf_inj {m n : Nat} {d e : Int} (hm : Fits m d) (hn : Fits n e)
    (h : bitsOf m d = bitsOf n e) : m = n ∧ d = e := by
  obtain ⟨hlt, hleast, -, hnormal⟩ := hm
  obtain ⟨hlt', hleast', -, hnormal'⟩ := hn
  unfold bitsOf leadingBit at *
  omega

theorem read_fits {x : Float} {negative : Bool} {m : Nat} {e : Int}
    (h : read x = .finite negative m e) : Fits m e := by
  unfold read at h
  dsimp only at h
  split at h
  · split at h <;> cases h
  · split at h <;> cases h
    · refine ⟨?_, by omega, by omega, .inr rfl⟩
      unfold leadingBit
      omega
    · refine ⟨?_, by omega, ?_, .inl (Nat.le_add_left _ _)⟩
      · unfold leadingBit
        omega
      · omega

theorem toBits_of_read {x : Float} {negative : Bool} {m : Nat} {e : Int}
    (h : read x = .finite negative m e) :
    x.toBits.toNat = signBits negative + bitsOf m e := by
  have hx : x.toBits.toNat < 2 ^ 64 := x.toBits.toNat_lt
  unfold read at h
  dsimp only at h
  split at h
  · split at h <;> cases h
  · split at h <;> cases h
    · unfold signBits bitsOf leadingBit at *
      simp only [decide_eq_true_eq]
      split <;> omega
    · unfold signBits bitsOf leadingBit at *
      simp only [decide_eq_true_eq]
      split <;> omega

theorem read_of_toBits {x : Float} {negative : Bool} {m : Nat} {e : Int} (hf : Fits m e)
    (h : x.toBits.toNat = signBits negative + bitsOf m e) : read x = .finite negative m e := by
  have hlt := hf.bitsOf_lt
  have hsign : decide (0x8000000000000000 ≤ x.toBits.toNat) = negative := by
    unfold signBits endBits leadingBit at *
    cases negative <;> simp only [decide_eq_true_eq, decide_eq_false_iff_not] <;> grind
  have hbits : x.toBits.toNat / leadingBit % 2048 = bitsOf m e / leadingBit ∧
      x.toBits.toNat % leadingBit = bitsOf m e % leadingBit := by
    unfold signBits endBits leadingBit at *
    cases negative <;> simp only [Bool.false_eq_true, if_false, if_true] at h <;> omega
  unfold read
  dsimp only
  rw [hsign, hbits.1, hbits.2]
  obtain ⟨hm, hleast, hmost, hnormal⟩ := hf
  unfold bitsOf endBits leadingBit at *
  split
  · omega
  · split
    · congr 1 <;> omega
    · congr 1 <;> omega

theorem toNat_append {v w : Nat} (x : BitVec v) (y : BitVec w) :
    (x ++ y).toNat = x.toNat <<< w + y.toNat := by
  rw [BitVec.toNat_append, ← Nat.shiftLeft_add_eq_or_of_lt y.isLt]

def signBit : Sign → Bool
  | .positive => false
  | .negative => true

theorem exists_sign (negative : Bool) : ∃ s, signBit s = negative := by
  cases negative
  · exact ⟨.positive, rfl⟩
  · exact ⟨.negative, rfl⟩

theorem toNat_packComponents (s : Sign) (e : BitVec 11) (m : BitVec 52) :
    (UnpackedFloat.packComponents .binary64 s e m).toNat =
      signBits (signBit s) + e.toNat * leadingBit + m.toNat := by
  change ((s.toBitVec ++ e) ++ m : BitVec (1 + 11 + 52)).toNat = _
  rw [toNat_append, toNat_append, Nat.shiftLeft_eq, Nat.shiftLeft_eq]
  unfold leadingBit
  cases s
  · change (1 * 2 ^ 11 + e.toNat) * 2 ^ 52 + m.toNat = 0x8000000000000000 + _ + _
    omega
  · change (0 * 2 ^ 11 + e.toNat) * 2 ^ 52 + m.toNat = 0 + _ + _
    omega

theorem log2_eq_of_normal {m : Nat} (hm : leadingBit ≤ m) (h : m < 2 * leadingBit) :
    m.log2 = 52 := by
  have hne : m ≠ 0 := by
    unfold leadingBit at hm
    omega
  rw [Nat.log2_eq_iff hne]
  unfold leadingBit at hm h
  omega

theorem toNat_pack_finite {m : Nat} {e : Int} (hm : 0 < m) (h : Fits m e) (s : Sign) :
    (UnpackedFloat.pack .binary64 (.finite s m e hm)).toNat =
      signBits (signBit s) + bitsOf m e := by
  have hlt := h.lt
  have hleast := h.least
  have hmost := h.most
  have hbiased : (e + (1023 : Nat) + (52 : Nat)).toNat = (e + 1075).toNat := by omega
  unfold UnpackedFloat.pack
  change (if 2048 ≤ (e + (1023 : Nat) + (52 : Nat)).toNat + 1 then _
    else if m.log2 + 1 = 53 then _ else _ : BitVec 64).toNat = _
  rw [hbiased, if_neg (by omega)]
  by_cases hn : leadingBit ≤ m
  · rw [if_pos (congrArg (· + 1) (log2_eq_of_normal hn hlt)), toNat_packComponents]
    change _ + (e + (1023 : Nat) + (52 : Nat)).toNat % 2 ^ 11 * _ + m % 2 ^ 52 = _
    rw [hbiased]
    unfold bitsOf leadingBit at *
    omega
  · have he : e = -1074 := h.normal.resolve_left hn
    have hlog : ¬m.log2 + 1 = 53 := by
      intro hlog
      have := (Nat.log2_eq_iff (by omega)).mp (show m.log2 = 52 by omega)
      unfold leadingBit at hn
      omega
    rw [if_neg hlog, toNat_packComponents]
    change _ + 0 * _ + m % 2 ^ 52 = _
    subst he
    unfold bitsOf leadingBit at *
    omega

theorem toNat_pack_zero (s : Sign) :
    (UnpackedFloat.pack .binary64 (.zero s)).toNat = signBits (signBit s) := by
  cases s <;> rfl

theorem finite_congr {s : Sign} {m n : Nat} {d e : Int} {hm : 0 < m} (hn : 0 < n) (h : m = n)
    (he : d = e) : UnpackedFloat.finite s m d hm = .finite s n e hn := by
  subst h he
  rfl

theorem toNat_unpackMantissa (b : BitVec 64) :
    (@UnpackedFloat.unpackMantissa .binary64 b).toNat = b.toNat % leadingBit := by
  change (b.toNat >>> 0) % 2 ^ 52 = _
  rw [Nat.shiftRight_zero]
  rfl

theorem toNat_unpackExponent (b : BitVec 64) :
    (@UnpackedFloat.unpackExponent .binary64 b).toNat = b.toNat / leadingBit % 2048 := by
  change (b.toNat >>> 52) % 2 ^ 11 = _
  rw [Nat.shiftRight_eq_div_pow]
  rfl

theorem sign_unpack {b : BitVec 64} {s : Sign} {n : Nat}
    (hb : b.toNat = signBits (signBit s) + n) (h : n < 0x8000000000000000) :
    Sign.ofBitVec (@UnpackedFloat.unpackSign .binary64 b) = s := by
  have hsign : (@UnpackedFloat.unpackSign .binary64 b).toNat = b.toNat / 2 ^ 63 % 2 := by
    change (b.toNat >>> 63) % 2 = _
    rw [Nat.shiftRight_eq_div_pow]
  cases s with
  | positive =>
    have hzero : @UnpackedFloat.unpackSign .binary64 b = 0#1 := by
      refine BitVec.eq_of_toNat_eq (hsign.trans ?_)
      change b.toNat = 0 + n at hb
      change _ = 0
      omega
    rw [hzero]
    rfl
  | negative =>
    have hone : @UnpackedFloat.unpackSign .binary64 b = 1#1 := by
      refine BitVec.eq_of_toNat_eq (hsign.trans ?_)
      change b.toNat = 0x8000000000000000 + n at hb
      change _ = 1
      omega
    rw [hone]
    rfl

theorem unpackExponent_eq_end_iff {b : BitVec 64} :
    @UnpackedFloat.unpackExponent .binary64 b = -1#11 ↔ b.toNat / leadingBit % 2048 = 2047 := by
  rw [← toNat_unpackExponent, ← BitVec.toNat_inj]
  rfl

theorem unpackExponent_eq_zero_iff {b : BitVec 64} :
    @UnpackedFloat.unpackExponent .binary64 b = 0#11 ↔ b.toNat / leadingBit % 2048 = 0 := by
  rw [← toNat_unpackExponent, ← BitVec.toNat_inj]
  rfl

theorem unpackMantissa_eq_zero_iff {b : BitVec 64} :
    @UnpackedFloat.unpackMantissa .binary64 b = 0#52 ↔ b.toNat % leadingBit = 0 := by
  rw [← toNat_unpackMantissa, ← BitVec.toNat_inj]
  rfl

/-- What the bits below those of infinity stand for, with a sign before them. -/
theorem unpack_cases {b : BitVec 64} {s : Sign} {n : Nat}
    (hb : b.toNat = signBits (signBit s) + n) (h : n < endBits) :
    n = 0 ∧ UnpackedFloat.unpack .binary64 b = .zero s ∨
      ∃ m e, ∃ hm : 0 < m, Fits m e ∧ bitsOf m e = n ∧
        UnpackedFloat.unpack .binary64 b = .finite s m e hm := by
  have hsign : signBits (signBit s) = 0 ∨ signBits (signBit s) = 2048 * leadingBit := by
    cases s
    · exact .inr rfl
    · exact .inl rfl
  have hfields : b.toNat % leadingBit = n % leadingBit ∧
      b.toNat / leadingBit % 2048 = n / leadingBit := by
    unfold endBits leadingBit at *
    omega
  have hmantissa := toNat_unpackMantissa b
  have hexponent := toNat_unpackExponent b
  have hend : ¬@UnpackedFloat.unpackExponent .binary64 b = -1#11 := by
    rw [unpackExponent_eq_end_iff]
    unfold endBits leadingBit at *
    omega
  have hzero := @unpackExponent_eq_zero_iff b
  have hnone := @unpackMantissa_eq_zero_iff b
  rw [hfields.1] at hmantissa hnone
  rw [hfields.2] at hexponent hzero
  unfold UnpackedFloat.unpack
  dsimp only
  rw [sign_unpack hb (Nat.lt_trans h (by decide)), if_neg hend]
  unfold endBits leadingBit at h
  unfold leadingBit at hmantissa hexponent hzero hnone
  -- The leading bit is added to the mantissa from the least normal double on.
  by_cases hfield : @UnpackedFloat.unpackExponent .binary64 b = 0#11
  · rw [if_pos hfield]
    have hlow : n / 0x10000000000000 = 0 := hzero.mp hfield
    by_cases hm : @UnpackedFloat.unpackMantissa .binary64 b = 0#52
    · rw [dif_pos hm]
      have hm : n % 0x10000000000000 = 0 := hnone.mp hm
      exact .inl ⟨by omega, rfl⟩
    · rw [dif_neg hm]
      have hm : n % 0x10000000000000 ≠ 0 := mt hnone.mpr hm
      have hn : 0 < n := by omega
      refine .inr ⟨n, -1074, hn, ⟨?_, ?_, ?_, .inr rfl⟩, ?_, finite_congr hn ?_ ?_⟩
      · unfold leadingBit
        omega
      · decide
      · decide
      · exact Nat.zero_add _
      · omega
      · change ((@UnpackedFloat.unpackExponent .binary64 b).toNat : Int) - 1075 + 1 = -1074
        omega
  · rw [if_neg hfield]
    have hhigh : n / 0x10000000000000 ≠ 0 := mt hzero.mpr hfield
    have hm : 0 < n % 0x10000000000000 + leadingBit := Nat.add_pos_right _ (by decide)
    refine .inr ⟨n % 0x10000000000000 + leadingBit, (n / 0x10000000000000 : Nat) - 1075, hm,
      ⟨?_, ?_, ?_, .inl (Nat.le_add_left _ _)⟩, ?_, finite_congr hm ?_ ?_⟩
    · unfold leadingBit
      omega
    · omega
    · omega
    · unfold bitsOf leadingBit
      omega
    · rw [toNat_append, Nat.shiftLeft_eq, hmantissa, Nat.add_comm]
      rfl
    · change ((@UnpackedFloat.unpackExponent .binary64 b).toNat : Int) - 1075 = _
      rw [hexponent]

theorem unpack_of_read {x : Float} {s : Sign} {m : Nat} {e : Int}
    (h : read x = .finite (signBit s) m e) :
    m = 0 ∧ UnpackedFloat.unpack .binary64 x.toBits.toBitVec = .zero s ∨
      ∃ hm : 0 < m, UnpackedFloat.unpack .binary64 x.toBits.toBitVec = .finite s m e hm := by
  have hf := read_fits h
  obtain ⟨hz, hu⟩ | ⟨n, d, hn, hfits, hbits, hu⟩ :=
    unpack_cases (b := x.toBits.toBitVec) (toBits_of_read h) hf.bitsOf_lt
  · refine .inl ⟨?_, hu⟩
    unfold bitsOf at hz
    omega
  · obtain ⟨rfl, rfl⟩ := bitsOf_inj hfits hf hbits
    exact .inr ⟨hn, hu⟩

/-- What a reading comes from. -/
inductive Unpacks : Reading → UnpackedFloat → Prop
  | nan : Unpacks .nan .notANumber
  | infinite (s : Sign) : Unpacks (.infinite (signBit s)) (.infinity s)
  | zero (s : Sign) (e : Int) : Unpacks (.finite (signBit s) 0 e) (.zero s)
  | finite (s : Sign) {m : Nat} {e : Int} (hm : 0 < m) (h : Fits m e) :
    Unpacks (.finite (signBit s) m e) (.finite s m e hm)

theorem unpack_end {x : Float} (h : x.toBits.toNat / leadingBit % 2048 = 2047) :
    ∃ s, UnpackedFloat.unpack .binary64 x.toBits.toBitVec =
        (if x.toBits.toNat % leadingBit = 0 then .infinity s else .notANumber) ∧
      signBit s = decide (0x8000000000000000 ≤ x.toBits.toNat) := by
  have hx : x.toBits.toNat < 2 ^ 64 := x.toBits.toNat_lt
  obtain ⟨s, hs⟩ := exists_sign (decide (0x8000000000000000 ≤ x.toBits.toNat))
  refine ⟨s, ?_, hs⟩
  have hbits : x.toBits.toBitVec.toNat =
      signBits (signBit s) + x.toBits.toNat % 0x8000000000000000 := by
    change x.toBits.toNat = _
    rw [hs]
    unfold signBits
    split
    next hn =>
      have hn := of_decide_eq_true hn
      omega
    next hn =>
      have hn := of_decide_eq_false (Bool.eq_false_iff.mpr hn)
      omega
  unfold UnpackedFloat.unpack
  dsimp only
  rw [if_pos (unpackExponent_eq_end_iff.mpr h), sign_unpack hbits (Nat.mod_lt _ (by decide))]
  by_cases hm : x.toBits.toNat % leadingBit = 0
  · rw [if_pos (unpackMantissa_eq_zero_iff.mpr hm), if_pos hm]
  · rw [if_neg (mt unpackMantissa_eq_zero_iff.mp hm), if_neg hm]

theorem unpacks (x : Float) : Unpacks (read x) (.unpack .binary64 x.toBits.toBitVec) := by
  cases hr : read x with
  | finite negative m e =>
    obtain ⟨s, rfl⟩ := exists_sign negative
    obtain ⟨rfl, hu⟩ | ⟨hm, hu⟩ := unpack_of_read hr
    · exact hu ▸ .zero s e
    · exact hu ▸ .finite s hm (read_fits hr)
  | nan =>
    have hend : x.toBits.toNat / leadingBit % 2048 = 2047 ∧ x.toBits.toNat % leadingBit ≠ 0 := by
      unfold read at hr
      grind
    obtain ⟨s, hu, -⟩ := unpack_end hend.1
    rw [if_neg hend.2] at hu
    exact hu ▸ .nan
  | infinite negative =>
    have hend : x.toBits.toNat / leadingBit % 2048 = 2047 ∧ x.toBits.toNat % leadingBit = 0 ∧
        negative = decide (0x8000000000000000 ≤ x.toBits.toNat) := by
      unfold read at hr
      grind
    obtain ⟨s, hu, hs⟩ := unpack_end hend.1
    rw [if_pos hend.2.1] at hu
    rw [hend.2.2, ← hs]
    exact hu ▸ .infinite s

theorem toBits_ofBits {n : Nat} (h : n < endBits) :
    (Float.ofBits (UInt64.ofNat n)).toBits.toNat = n := by
  have hn : (UInt64.ofNat n).toBitVec.toNat = n := by
    rw [UInt64.toNat_toBitVec, UInt64.toNat_ofNat']
    refine Nat.mod_eq_of_lt ?_
    unfold endBits leadingBit at h
    omega
  change (UnpackedFloat.pack .binary64 (.unpack .binary64 (UInt64.ofNat n).toBitVec)).toNat = n
  have hb : (UInt64.ofNat n).toBitVec.toNat = signBits (signBit .positive) + n :=
    hn.trans (Nat.zero_add n).symm
  obtain ⟨hz, hu⟩ | ⟨m, e, hm, hfits, hbits, hu⟩ := unpack_cases hb h
  · rw [hu, toNat_pack_zero]
    exact hz.symm
  · rw [hu, toNat_pack_finite hm hfits, hbits]
    exact Nat.zero_add n

theorem toBits_neg {x : Float} (h : x.toBits.toNat < endBits) :
    (-x).toBits.toNat = signBits true + x.toBits.toNat := by
  change (UnpackedFloat.pack .binary64 (.neg (.unpack .binary64 x.toBits.toBitVec))).toNat = _
  have hb : x.toBits.toBitVec.toNat = signBits (signBit .positive) + x.toBits.toNat :=
    (Nat.zero_add _).symm
  obtain ⟨hz, hu⟩ | ⟨m, e, hm, hfits, hbits, hu⟩ := unpack_cases hb h
  · rw [hu]
    change (UnpackedFloat.pack .binary64 (.zero .negative)).toNat = _
    rw [toNat_pack_zero]
    exact congrArg (signBits true + ·) hz.symm
  · rw [hu]
    change (UnpackedFloat.pack .binary64 (.finite .negative m e hm)).toNat = _
    rw [toNat_pack_finite hm hfits, hbits]
    rfl

theorem toBits_inj {x y : Float} (h : x.toBits.toNat = y.toBits.toNat) : x = y := by
  obtain ⟨⟨b, hb⟩⟩ := x
  obtain ⟨⟨c, hc⟩⟩ := y
  obtain rfl : b = c := UInt64.toNat_inj.mp h
  rfl

theorem toBits_signed {m : Nat} {e : Int} (h : Fits m e) (negative : Bool) :
    (signed negative (Float.ofBits (UInt64.ofNat (bitsOf m e)))).toBits.toNat =
      signBits negative + bitsOf m e := by
  have hbits := toBits_ofBits h.bitsOf_lt
  cases negative with
  | false => exact hbits.trans (Nat.zero_add _).symm
  | true =>
    have hlt : (Float.ofBits (UInt64.ofNat (bitsOf m e))).toBits.toNat < endBits := by
      rw [hbits]
      exact h.bitsOf_lt
    rw [signed, if_pos rfl, toBits_neg hlt, hbits]

theorem read_signed {m : Nat} {e : Int} (h : Fits m e) (negative : Bool) :
    read (signed negative (Float.ofBits (UInt64.ofNat (bitsOf m e)))) = .finite negative m e :=
  read_of_toBits h (toBits_signed h negative)

/-- A finite double is the one that its mantissa, exponent and sign make up. -/
theorem eq_of_read {x : Float} {negative : Bool} {m : Nat} {e : Int}
    (h : read x = .finite negative m e) :
    x = signed negative (Float.ofBits (UInt64.ofNat (bitsOf m e))) :=
  toBits_inj ((toBits_of_read h).trans (toBits_signed (read_fits h) negative).symm)

theorem isFinite_iff {x : Float} :
    x.isFinite = true ↔ ∃ negative m e, read x = .finite negative m e := by
  have hend := @unpackExponent_eq_end_iff x.toBits.toBitVec
  change _ ↔ x.toBits.toNat / leadingBit % 2048 = 2047 at hend
  change (UnpackedFloat.unpack .binary64 x.toBits.toBitVec).isFinite = true ↔ _
  unfold UnpackedFloat.unpack read
  dsimp only
  by_cases h : x.toBits.toNat / leadingBit % 2048 = 2047
  · rw [if_pos (hend.mpr h), if_pos h]
    refine iff_of_false (fun hf => ?_) fun ⟨_, _, _, hr⟩ => ?_
    · split at hf <;> cases hf
    · split at hr <;> cases hr
  · rw [if_neg fun hx => h (hend.mp hx), if_neg h]
    refine iff_of_true ?_ ?_
    · by_cases hzero : @UnpackedFloat.unpackExponent .binary64 x.toBits.toBitVec = 0#11
      · rw [if_pos hzero]
        by_cases hm : @UnpackedFloat.unpackMantissa .binary64 x.toBits.toBitVec = 0#52
        · rw [dif_pos hm]
          rfl
        · rw [dif_neg hm]
          rfl
      · rw [if_neg hzero]
        rfl
    · split <;> exact ⟨_, _, _, rfl⟩

end Duel.Double
