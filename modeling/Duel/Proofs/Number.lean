import Duel.Number

namespace Duel

namespace Double

open Float.Model (UnpackedFloat)
open Float.Model.UnpackedFloat (Sign Accuracy)

def Unsigned : UnpackedFloat → Prop
  | .notANumber => True
  | .infinity s | .zero s | .finite s _ _ _ => s = .positive

theorem packComponents_lt (e : BitVec 11) (m : BitVec 52) :
    (UnpackedFloat.packComponents .binary64 .positive e m).toNat < 0x8000000000000000 := by
  refine BitVec.toNat_lt_of_msb_false ?_
  change ((0#1 ++ e) ++ m : BitVec (1 + 11 + 52)).msb = false
  rw [BitVec.msb_append, BitVec.msb_append]
  rfl

theorem pack_lt {u : UnpackedFloat} (h : Unsigned u) :
    (UnpackedFloat.pack .binary64 u).toNat < 0x8000000000000000 := by
  cases u with
  | notANumber => exact packComponents_lt _ _
  | infinity s | zero s =>
    obtain rfl : s = .positive := h
    exact packComponents_lt _ _
  | finite s m e hm =>
    obtain rfl : s = .positive := h
    unfold UnpackedFloat.pack
    dsimp only
    split
    · exact packComponents_lt _ _
    · split <;> exact packComponents_lt _ _

theorem unsigned_ite {c : Prop} [Decidable c] {u v : UnpackedFloat} (hu : Unsigned u)
    (hv : Unsigned v) : Unsigned (if c then u else v) := by
  by_cases h : c
  · rwa [if_pos h]
  · rwa [if_neg h]

theorem unsigned_dite {c : Prop} [Decidable c] {u : c → UnpackedFloat} {v : ¬c → UnpackedFloat}
    (hu : ∀ h, Unsigned (u h)) (hv : ∀ h, Unsigned (v h)) : Unsigned (dite c u v) := by
  by_cases h : c
  · rw [dif_pos h]
    exact hu h
  · rw [dif_neg h]
    exact hv h

theorem unsigned_unpack {b : BitVec 64} (h : b.toNat < 0x8000000000000000) :
    Unsigned (UnpackedFloat.unpack .binary64 b) := by
  have hb : @UnpackedFloat.unpackSign .binary64 b = 0#1 := by
    refine BitVec.eq_of_toNat_eq ?_
    change (b.toNat >>> 63) % 2 = 0
    rw [Nat.shiftRight_eq_div_pow]
    omega
  have hs : Sign.ofBitVec (@UnpackedFloat.unpackSign .binary64 b) = .positive := by
    rw [hb]
    rfl
  unfold UnpackedFloat.unpack
  dsimp only
  rw [hs]
  exact unsigned_ite (unsigned_ite rfl trivial)
    (unsigned_ite (unsigned_dite (fun _ => rfl) fun _ => rfl) rfl)

theorem unsigned_round (m : Nat) (e : Int) (a : Accuracy) :
    Unsigned (UnpackedFloat.roundWithAccuracy .binary64 .positive m e a) := by
  unfold UnpackedFloat.roundWithAccuracy
  exact unsigned_dite (fun _ => rfl) fun _ => rfl

theorem unsigned_mul {u v : UnpackedFloat} (hu : Unsigned u) (hv : Unsigned v) :
    Unsigned (UnpackedFloat.mul .binary64 u v) := by
  cases u with
  | notANumber => trivial
  | infinity s =>
    obtain rfl : s = .positive := hu
    cases v with
    | notANumber | zero => trivial
    | infinity t | finite t =>
      obtain rfl : t = .positive := hv
      rfl
  | zero s =>
    obtain rfl : s = .positive := hu
    cases v with
    | notANumber | infinity => trivial
    | zero t | finite t =>
      obtain rfl : t = .positive := hv
      rfl
  | finite s =>
    obtain rfl : s = .positive := hu
    cases v with
    | notANumber => trivial
    | infinity t | zero t =>
      obtain rfl : t = .positive := hv
      rfl
    | finite t =>
      obtain rfl : t = .positive := hv
      exact unsigned_round _ _ _

def Clear (x : Float) : Prop := x.toBits.toNat < 0x8000000000000000

theorem clear_ofBits {b : UInt64} (h : b.toNat < 0x8000000000000000) : Clear (Float.ofBits b) :=
  pack_lt (unsigned_unpack h)

theorem Clear.mul {x y : Float} (hx : Clear x) (hy : Clear y) : Clear (x * y) :=
  pack_lt (unsigned_mul (unsigned_unpack hx) (unsigned_unpack hy))

theorem clear_ofNat {bits : Nat} (h : ¬2047 * leadingBit ≤ bits) :
    Clear (Float.ofBits (UInt64.ofNat bits)) := by
  refine clear_ofBits ?_
  rw [UInt64.toNat_ofNat']
  refine Nat.lt_of_le_of_lt (Nat.mod_le _ _) ?_
  unfold leadingBit at h
  omega

theorem clear_nearest (num den : Nat) : Clear (nearest num den) := by
  fun_cases nearest num den
  · exact clear_ofBits (by decide)
  · exact clear_ofBits (by decide)
  next bits hb => exact clear_ofNat hb

theorem clear_ofInt {n : Int} {x : Float} (hn : 0 ≤ n) (h : ofInt? n = .ok x) : Clear x := by
  have hs : decide (n < 0) = false := decide_eq_false (by omega)
  have hc := clear_nearest n.natAbs 1
  unfold ofInt? at h
  generalize nearest n.natAbs 1 = magnitude at h hc
  simp only [signed, hs, Bool.false_eq_true, if_false] at h
  split at h <;> cases h
  exact hc

theorem Clear.reading {x : Float} (h : Clear x) {negative : Bool} {m : Nat} {e : Int}
    (hr : read x = .finite negative m e) : negative = false := by
  have hn : ¬0x8000000000000000 ≤ x.toBits.toNat := by
    unfold Clear at h
    omega
  unfold read at hr
  simp only [hn, decide_false] at hr
  split at hr
  · split at hr <;> cases hr
  · split at hr <;> cases hr <;> rfl

theorem Clear.floor_nonneg {x : Float} (h : Clear x) {k : Int} (hk : floor? x = .ok k) :
    0 ≤ k := by
  unfold floor? at hk
  split at hk
  · cases hk
  · cases hk
  next negative m e hr =>
    obtain rfl := h.reading hr
    simp only [Bool.false_eq_true, if_false] at hk
    split at hk <;> cases hk
    · rw [Int.shiftLeft_eq]
      exact Int.mul_nonneg (by omega) (Int.pow_nonneg (by omega))
    · rw [Int.shiftRight_eq_div_pow]
      exact Int.ediv_nonneg (Int.natCast_nonneg m) (Int.natCast_nonneg _)

theorem read_of_not_clear {x : Float} (h : ¬Clear x) :
    read x = .nan ∨ read x = .infinite true ∨
      ∃ m e, read x = .finite true m e ∧ (m = 0 → x.toBits.toNat = 0x8000000000000000) := by
  have hn : 0x8000000000000000 ≤ x.toBits.toNat := by
    unfold Clear at h
    omega
  have hb : x.toBits.toNat < 2 ^ 64 := x.toBits.toNat_lt
  unfold read
  simp only [hn, decide_true]
  split
  · split
    · exact .inr (.inl rfl)
    · exact .inl rfl
  · unfold leadingBit
    split
    · exact .inr (.inr ⟨_, _, rfl, by omega⟩)
    · exact .inr (.inr ⟨_, _, rfl, by omega⟩)

theorem clear_or_zero {x : Float} (h : Number.atMost (.whole 0) (.double x) = true) :
    Clear x ∨ x.toBits.toNat = 0x8000000000000000 := by
  by_cases hc : Clear x
  · exact .inl hc
  refine .inr ?_
  unfold Number.atMost Number.compare? Number.compareWhole at h
  obtain hr | hr | ⟨m, e, hr, hm⟩ := read_of_not_clear hc
  · simp [hr] at h
  · simp [hr] at h
  · refine hm ?_
    simp only [hr, if_true] at h
    have hgt : ∀ v : Int, v < 0 → compare 0 v = .gt := fun v hv => Int.compare_eq_gt.mpr hv
    have hpos : ∀ k : Nat, (0 : Int) < 2 ^ k := fun k => Int.pow_pos (by decide)
    refine Decidable.byContradiction fun hz => ?_
    have hv : -(m : Int) < 0 := by omega
    split at h
    · rw [Int.shiftLeft_eq, hgt _ (Int.mul_neg_of_neg_of_pos hv (hpos _))] at h
      cases h
    · rw [Int.zero_shiftLeft, hgt _ hv] at h
      cases h

theorem unpack_zero {x : Float} (h : x.toBits.toNat = 0x8000000000000000) :
    x.toModel.unpack = .zero .negative := by
  have hb : x.toBits = 0x8000000000000000 := UInt64.toNat_inj.mp h
  change UnpackedFloat.unpack .binary64 x.toBits.toBitVec = _
  rw [hb]
  rfl

theorem mul_zero (u : UnpackedFloat) :
    UnpackedFloat.mul .binary64 u (.zero .negative) = .notANumber ∨
      ∃ s, UnpackedFloat.mul .binary64 u (.zero .negative) = .zero s := by
  cases u with
  | notANumber | infinity => exact .inl rfl
  | zero | finite => exact .inr ⟨_, rfl⟩

/-- A product with the zero below zero is a zero or no number at all. -/
theorem floor_mul_zero {x y : Float} (hx : x.toBits.toNat = 0x8000000000000000) {k : Int}
    (hk : floor? (y * x) = .ok k) : k = 0 := by
  have hm : y * x = ⟨.pack (.mul .binary64 y.toModel.unpack (.zero .negative))⟩ := by
    rw [← unpack_zero hx]
    rfl
  unfold floor? at hk
  rw [hm] at hk
  obtain hz | ⟨s, hz⟩ := mul_zero y.toModel.unpack
  · have hr : read ⟨.pack .notANumber⟩ = .nan := by decide +kernel
    simp [hz, hr] at hk
  · have hr : ∃ negative, read ⟨.pack (.zero s)⟩ = .finite negative 0 (-1074) := by
      cases s
      · exact ⟨true, by decide +kernel⟩
      · exact ⟨false, by decide +kernel⟩
    obtain ⟨negative, hr⟩ := hr
    simp [hz, hr] at hk
    exact hk.symm

theorem floor_mul_nonneg {n : Int} (hn : 0 ≤ n) {x y : Float} (hy : ofInt? n = .ok y)
    (hx : Number.atMost (.whole 0) (.double x) = true) {k : Int}
    (hk : floor? (y * x) = .ok k) : 0 ≤ k := by
  obtain hc | hz := clear_or_zero hx
  · exact ((clear_ofInt hn hy).mul hc).floor_nonneg hk
  · exact Int.le_of_eq (floor_mul_zero hz hk).symm

end Double

/-- A number from zero to one. -/
structure Scalar.InUnit {R : Type} [Scalar R] (x : R) : Prop where
  nonneg : Scalar.atMost Scalar.zero x = true
  le_one : Scalar.atMost x Scalar.one = true

open Scalar in
/-- Numbers have the signs that they ought to have, be they exact or rounded. -/
class Scalar.Signed (R : Type) [Scalar R] : Prop where
  inUnit_clampUnit (x : R) : InUnit (clampUnit x)
  zero_part : less zero (clampUnit (zero : R)) = false
  scaleDown_nonneg {n k : Int} {x : R} (hn : 0 ≤ n) (hx : atMost zero x = true)
    (h : scaleDown n x = .ok k) : 0 ≤ k

open Scalar in
theorem Scalar.clampUnit_cases {R : Type} [Scalar R] (x : R) :
    less zero x = true ∧ less x one = true ∧ clampUnit x = measured x ∨
      clampUnit x = measured one ∨ clampUnit x = measured (measured zero) := by
  unfold clampUnit positivePart
  dsimp only
  by_cases h₀ : less zero x = true <;> simp only [h₀, if_true, Bool.false_eq_true, if_false]
  · by_cases h₁ : less x one = true <;> simp [h₁]
  · split <;> simp

theorem Number.inUnit_measured {x : Number} (h₀ : less (.whole 0) x = true)
    (h₁ : less x (.whole 1) = true) : Scalar.InUnit (Scalar.measured x) := by
  cases x with
  | whole n =>
    simp [less, compare?, Int.compare_eq_lt] at h₀ h₁
    omega
  | double x =>
    refine ⟨?_, ?_⟩
    · exact Bool.or_eq_true_iff.mpr (.inl h₀)
    · exact Bool.or_eq_true_iff.mpr (.inl h₁)

theorem Number.scaleDown_nonneg {n k : Int} {x : Number} (hn : 0 ≤ n)
    (hx : atMost (.whole 0) x = true) (h : Scalar.scaleDown n x = .ok k) : 0 ≤ k := by
  cases x with
  | whole m =>
    have hm : 0 ≤ m := by
      simp [atMost, compare?, Int.compare_eq_lt] at hx
      omega
    cases h
    exact Int.mul_nonneg hn hm
  | double x =>
    change (Double.ofInt? n).map (fun y => Number.double (y * x)) >>= Scalar.floor = _ at h
    cases hy : Double.ofInt? n with
    | error fault =>
      rw [hy] at h
      cases h
    | ok y =>
      rw [hy] at h
      exact Double.floor_mul_nonneg hn hy hx h

instance : Scalar.Signed Number where
  inUnit_clampUnit x := by
    obtain ⟨h₀, h₁, h⟩ | h | h := Scalar.clampUnit_cases x
    · exact h ▸ Number.inUnit_measured h₀ h₁
    · exact h ▸ ⟨by decide +kernel, by decide +kernel⟩
    · exact h ▸ ⟨by decide +kernel, by decide +kernel⟩
  zero_part := by decide +kernel
  scaleDown_nonneg := Number.scaleDown_nonneg

instance : Scalar.Signed Rat where
  inUnit_clampUnit x := by
    obtain ⟨h₀, h₁, h⟩ | h | h := Scalar.clampUnit_cases x
    · exact h ▸ ⟨decide_eq_true (Rat.le_of_lt (of_decide_eq_true h₀)),
        decide_eq_true (Rat.le_of_lt (of_decide_eq_true h₁))⟩
    · exact h ▸ ⟨by decide +kernel, by decide +kernel⟩
    · exact h ▸ ⟨by decide +kernel, by decide +kernel⟩
  zero_part := by decide +kernel
  scaleDown_nonneg {n k x} hn hx h := by
    cases h
    have hp : (0 : Rat) ≤ n * x := Rat.mul_nonneg (by exact_mod_cast hn) (of_decide_eq_true hx)
    exact Rat.le_floor_iff.mpr hp

theorem Double.compare_self {u : Float.Model.UnpackedFloat} (h : u.isNaN = false) :
    u.compare u = some .eq := by
  cases u with
  | notANumber => cases h
  | infinity s => cases s <;> rfl
  | zero s => rfl
  | finite s m e hm =>
    have hexponent : compare e e = .eq := Std.ReflCmp.compare_self
    have hmantissa : compare m m = .eq := Std.ReflCmp.compare_self
    have horder : (compare e e).then (compare m m) = .eq := by
      rw [hexponent, hmantissa]
      rfl
    cases s
    · exact congrArg (fun o => some o.swap) horder
    · exact congrArg some horder

theorem Double.isNaN_of_isFinite {x : Float} (h : x.isFinite = true) : x.isNaN = false := by
  change x.toModel.unpack.isFinite = true at h
  change x.toModel.unpack.isNaN = false
  cases hu : x.toModel.unpack with
  | notANumber =>
    rw [hu] at h
    cases h
  | _ => rfl

namespace Number

theorem same_self {x : Float} (h : x.isNaN = false) : same (.double x) (.double x) = true := by
  have hcompare : x.toModel.unpack.compare x.toModel.unpack = some .eq := Double.compare_self h
  have hless : ¬x < x := by
    intro h
    have hlt : (x.toModel.unpack.compare x.toModel.unpack == some .lt) = true :=
      of_decide_eq_true (show decide (x.toModel < x.toModel) = true from h)
    rw [hcompare] at hlt
    cases hlt
  have hequal : (x == x) = true := by
    change (x.toModel.unpack.compare x.toModel.unpack == some .eq) = true
    rw [hcompare]
    rfl
  rw [same, compare?, if_neg hless, if_neg hless, if_pos hequal]
  rfl

theorem length_toString_le_iff {n k : Nat} (hk : 0 < k) :
    (toString n).length ≤ k ↔ n < Nat.pow 10 k := Nat.length_repr_le_iff hk

def Short (n : Int) : Prop := n.natAbs < Nat.pow 10 digitLimit

instance (n : Int) : Decidable (Short n) := inferInstanceAs (Decidable (_ < _))

theorem short_of_le {n m : Int} (hn : 0 ≤ n) (h : n ≤ m) (hm : Short m) : Short n :=
  Nat.lt_of_le_of_lt (by omega) hm

theorem log2_of_short {n : Int} (h : Short n) : n.natAbs.log2 < 14285 := by
  by_cases hz : n.natAbs = 0
  · simp [hz]
  · rw [Nat.log2_lt hz]
    exact Nat.lt_trans h (by decide +kernel)

theorem digits_eq (n : Int) :
    digits n = if Short n then .ok (toString n) else .error .lengthy := by
  unfold digits
  by_cases hlog : 14285 ≤ n.natAbs.log2
  · rw [if_pos hlog, if_neg fun h => by have := log2_of_short h; omega]
  · have hlength : (toString n.natAbs).length ≤ digitLimit ↔ Short n :=
      length_toString_le_iff (by decide)
    rw [if_neg hlog]
    dsimp only
    by_cases hshort : Short n
    · rw [if_neg (by have := hlength.mpr hshort; omega), if_pos hshort]
      cases n with
      | ofNat n => rfl
      | negSucc n => exact congrArg Except.ok (if_pos (Int.negSucc_lt_zero n))
    · rw [if_pos (by have := mt hlength.mp hshort; omega), if_neg hshort]

theorem digits_ok_iff {n : Int} : (∃ t, digits n = .ok t) ↔ Short n := by
  rw [digits_eq]
  split
  next h => exact iff_of_true ⟨_, rfl⟩ h
  next h => exact iff_of_false (fun ⟨t, ht⟩ => by cases ht) h

end Number

end Duel
