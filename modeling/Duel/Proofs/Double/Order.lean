import Duel.Number
import Duel.Proofs.Double.HalfUp
import Mathlib.Order.WithBot

namespace Duel

abbrev Level : Type := WithBot (WithTop Rat)

def Level.of (x : Rat) : Level := ((x : WithTop Rat) : WithBot (WithTop Rat))

theorem Level.of_inj {x y : Rat} : Level.of x = .of y ↔ x = y :=
  WithBot.coe_inj.trans WithTop.coe_inj

theorem Level.of_le {x y : Rat} : Level.of x ≤ .of y ↔ x ≤ y :=
  WithBot.coe_le_coe.trans WithTop.coe_le_coe

def Level.order (a b : Option Level) : Option Ordering := do return compare (← a) (← b)

namespace Double

open Float.Model (UnpackedFloat)
open Float.Model.UnpackedFloat (Sign)

def Reading.level : Reading → Option Level
  | .nan => none
  | .infinite negative => some (if negative then ⊥ else ⊤)
  | .finite negative m e => some (.of (value negative m e))

theorem Fits.lt_of_exponent {m n : Nat} {d e : Int} (hm : Fits m d) (hn : Fits n e) (h : d < e) :
    (m : Rat) * 2 ^ d < n * 2 ^ e := by
  have hp := two_zpow_pos d
  have hle : (2 : Rat) ^ (d + 1) ≤ 2 ^ e := zpow_le_zpow_right₀ (by norm_num) h
  have hn' : (leadingBit : Rat) ≤ n := by
    exact_mod_cast hn.normal.resolve_right (by have := hm.least; omega)
  have hm' : (m : Rat) < (2 * leadingBit : Nat) := by exact_mod_cast hm.lt
  rw [two_zpow_succ] at hle
  push_cast at hm'
  nlinarith

theorem compare_canonical {m n : Nat} {d e : Int} (hm : Fits m d) (hn : Fits n e) :
    (compare d e).then (compare m n) = compare ((m : Rat) * 2 ^ d) (n * 2 ^ e) := by
  obtain h | rfl | h := lt_trichotomy d e
  · rw [compare_lt_iff_lt.mpr h, compare_lt_iff_lt.mpr (hm.lt_of_exponent hn h)]
    rfl
  · have hp := two_zpow_pos d
    rw [compare_eq_iff_eq.mpr rfl]
    obtain h | rfl | h := lt_trichotomy m n
    · rw [compare_lt_iff_lt.mpr h, compare_lt_iff_lt.mpr]
      · rfl
      · exact mul_lt_mul_of_pos_right (by exact_mod_cast h) hp
    · rw [compare_eq_iff_eq.mpr rfl, compare_eq_iff_eq.mpr rfl]
      rfl
    · rw [compare_gt_iff_gt.mpr h, compare_gt_iff_gt.mpr]
      · rfl
      · exact mul_lt_mul_of_pos_right (by exact_mod_cast h) hp
  · rw [compare_gt_iff_gt.mpr h, compare_gt_iff_gt.mpr (hn.lt_of_exponent hm h)]
    rfl

theorem value_pos {m : Nat} (hm : 0 < m) (e : Int) : 0 < value false m e :=
  mul_pos (show (0 : Rat) < m by exact_mod_cast hm) (two_zpow_pos e)

theorem value_neg (m : Nat) (e : Int) : value true m e = -value false m e :=
  neg_mul _ _

theorem value_zero (negative : Bool) (e : Int) : value negative 0 e = 0 := by
  cases negative <;> simp [value]

section

variable {a b : Level} {x y : Rat}

theorem lt_compare (h : a < b) : some .lt = some (compare a b) := by
  rw [compare_lt_iff_lt.mpr h]

theorem gt_compare (h : b < a) : some .gt = some (compare a b) := by
  rw [compare_gt_iff_gt.mpr h]

theorem eq_compare (h : a = b) : some .eq = some (compare a b) := by
  rw [compare_eq_iff_eq.mpr h]

theorem level_lt (h : x < y) : Level.of x < Level.of y :=
  WithBot.coe_lt_coe.mpr (WithTop.coe_lt_coe.mpr h)

theorem level_lt_top (x : Rat) : Level.of x < ⊤ := WithBot.coe_lt_coe.mpr (WithTop.coe_lt_top x)

theorem bot_lt_level (x : Rat) : ⊥ < Level.of x := WithBot.bot_lt_coe _

theorem compare_level (x y : Rat) : compare (Level.of x) (.of y) = compare x y := by
  obtain h | rfl | h := lt_trichotomy x y
  · rw [compare_lt_iff_lt.mpr h, compare_lt_iff_lt.mpr (level_lt h)]
  · rw [compare_eq_iff_eq.mpr rfl, compare_eq_iff_eq.mpr rfl]
  · rw [compare_gt_iff_gt.mpr h, compare_gt_iff_gt.mpr (level_lt h)]

end

theorem compare_neg (x y : Rat) : compare (-x) (-y) = (compare x y).swap := by
  obtain h | rfl | h := lt_trichotomy x y
  · rw [compare_lt_iff_lt.mpr h, compare_gt_iff_gt.mpr (neg_lt_neg h)]
    rfl
  · rw [compare_eq_iff_eq.mpr rfl, compare_eq_iff_eq.mpr rfl]
    rfl
  · rw [compare_gt_iff_gt.mpr h, compare_lt_iff_lt.mpr (neg_lt_neg h)]
    rfl

theorem compare_finite {s t : Sign} {m n : Nat} {d e : Int} (hm : 0 < m) (hn : 0 < n)
    (hf : Fits m d) (hg : Fits n e) :
    UnpackedFloat.compare (.finite s m d hm) (.finite t n e hn) =
      some (compare (value (signBit s) m d) (value (signBit t) n e)) := by
  have hpos := value_pos hm d
  have hpos' := value_pos hn e
  cases s <;> cases t
  · change some ((compare d e).then (compare m n)).swap = some (compare (value true m d) _)
    rw [compare_canonical hf hg, value_neg, signBit, value_neg, compare_neg]
    rfl
  · change some .lt = some (compare (value true m d) (value false n e))
    rw [value_neg, compare_lt_iff_lt.mpr (by linarith)]
  · change some .gt = some (compare (value false m d) (value true n e))
    rw [value_neg, compare_gt_iff_gt.mpr (by linarith)]
  · exact congrArg some (compare_canonical hf hg)

/-- Doubles are compared as what they stand for. -/
theorem Unpacks.compare {r q : Reading} {u v : UnpackedFloat} (hu : Unpacks r u)
    (hv : Unpacks q v) : u.compare v = Level.order r.level q.level := by
  cases hu with
  | nan => cases hv <;> rfl
  | infinite s =>
    cases hv with
    | nan => cases s <;> rfl
    | infinite t => cases s <;> cases t <;> rfl
    | zero t =>
      cases s
      · exact lt_compare (bot_lt_level _)
      · exact gt_compare (level_lt_top _)
    | finite t hm h =>
      cases s
      · exact lt_compare (bot_lt_level _)
      · exact gt_compare (level_lt_top _)
  | zero s d =>
    cases hv with
    | nan => cases s <;> rfl
    | infinite t =>
      cases t
      · exact gt_compare (bot_lt_level _)
      · exact lt_compare (level_lt_top _)
    | zero t e =>
      refine eq_compare ?_
      rw [value_zero, value_zero]
    | @finite t m e hm h =>
      have hpos := value_pos hm e
      cases t
      · refine gt_compare (level_lt ?_)
        rw [value_zero, signBit, value_neg]
        linarith
      · exact lt_compare (level_lt (by rw [value_zero]; exact hpos))
  | @finite s m d hm h =>
    have hpos := value_pos hm d
    cases hv with
    | nan => cases s <;> rfl
    | infinite t =>
      cases t
      · exact gt_compare (bot_lt_level _)
      · exact lt_compare (level_lt_top _)
    | zero t e =>
      cases s
      · refine lt_compare (level_lt ?_)
        rw [value_zero, signBit, value_neg]
        linarith
      · exact gt_compare (level_lt (by rw [value_zero]; exact hpos))
    | finite t hn hg =>
      rw [compare_finite hm hn h hg, ← compare_level]
      rfl

def level (x : Float) : Option Level := (read x).level

theorem compare_eq (x y : Float) : x.toModel.unpack.compare y.toModel.unpack =
    Level.order (level x) (level y) :=
  (unpacks x).compare (unpacks y)

theorem lt_iff {x y : Float} : x < y ↔ Level.order (level x) (level y) = some .lt := by
  have hmodel : x < y ↔ (x.toModel.unpack.compare y.toModel.unpack == some .lt) = true :=
    decide_eq_true_iff
  rw [hmodel, beq_iff_eq, compare_eq]

theorem beq_iff {x y : Float} : (x == y) = true ↔ Level.order (level x) (level y) = some .eq := by
  change (x.toModel.unpack.compare y.toModel.unpack == some .eq) = true ↔ _
  rw [beq_iff_eq, compare_eq]

theorem level_of_read {x : Float} {negative : Bool} {m : Nat} {e : Int}
    (h : read x = .finite negative m e) : level x = some (.of (value negative m e)) := by
  rw [level, h]
  rfl

theorem compare_mul {p : Rat} (hp : 0 < p) (x y : Rat) : compare (x * p) (y * p) = compare x y := by
  obtain h | rfl | h := lt_trichotomy x y
  · rw [compare_lt_iff_lt.mpr h, compare_lt_iff_lt.mpr (mul_lt_mul_of_pos_right h hp)]
  · rw [compare_eq_iff_eq.mpr rfl, compare_eq_iff_eq.mpr rfl]
  · rw [compare_gt_iff_gt.mpr h, compare_gt_iff_gt.mpr (mul_lt_mul_of_pos_right h hp)]

theorem compare_cast (a b : Int) : compare (a : Rat) b = compare a b := by
  obtain h | rfl | h := lt_trichotomy a b
  · rw [compare_lt_iff_lt.mpr h, compare_lt_iff_lt.mpr (Int.cast_lt.mpr h)]
  · rw [compare_eq_iff_eq.mpr rfl, compare_eq_iff_eq.mpr rfl]
  · rw [compare_gt_iff_gt.mpr h, compare_gt_iff_gt.mpr (Int.cast_lt.mpr h)]

theorem compare_shift (n v e : Int) :
    (if 0 ≤ e then compare n (v <<< e.toNat) else compare (n <<< (-e).toNat) v) =
      compare (n : Rat) (v * 2 ^ e) := by
  split
  next he =>
    rw [← compare_cast, Int.shiftLeft_eq]
    push_cast
    rw [← zpow_natCast, Int.toNat_of_nonneg he]
  next he =>
    have hp := two_zpow_pos (-e)
    rw [← compare_cast, Int.shiftLeft_eq, ← compare_mul hp (n : Rat)]
    push_cast
    rw [← zpow_natCast, Int.toNat_of_nonneg (by omega), mul_assoc, ← zpow_add₀ (by norm_num),
      add_neg_cancel, zpow_zero, mul_one]

end Double

namespace Number

/-- What a number stands for, if it does. -/
def level : Number → Option Level
  | whole n => some (.of n)
  | double x => Double.level x

theorem compareWhole_eq (n : Int) (x : Float) :
    compareWhole n x = Level.order (some (.of n)) (Double.level x) := by
  unfold compareWhole Double.level
  cases Double.read x with
  | nan => rfl
  | infinite negative =>
    cases negative
    · exact Double.lt_compare (Double.level_lt_top _)
    · exact Double.gt_compare (Double.bot_lt_level _)
  | finite negative m e =>
    refine congrArg some ((Double.compare_shift n _ e).trans ?_)
    refine Eq.trans ?_ (Double.compare_level n _).symm
    rw [Double.value]
    cases negative <;> simp

/-- Numbers are compared as what they stand for. -/
theorem compare?_eq (x y : Number) : compare? x y = Level.order x.level y.level := by
  cases x with
  | whole a =>
    cases y with
    | whole b =>
      refine congrArg some ((Double.compare_cast a b).symm.trans ?_)
      exact (Double.compare_level a b).symm
    | double y => exact compareWhole_eq a y
  | double x =>
    cases y with
    | whole b =>
      rw [compare?, compareWhole_eq, level, level]
      cases Double.level x with
      | none => rfl
      | some a => exact congrArg some (Std.OrientedCmp.eq_swap).symm
    | double y =>
      rw [compare?, level, level]
      simp only [Double.lt_iff, Double.beq_iff]
      cases Double.level x with
      | none => cases Double.level y <;> rfl
      | some a =>
        cases Double.level y with
        | none => rfl
        | some b =>
          have hlt : Level.order (some a) (some b) = some (compare a b) := rfl
          have hgt : Level.order (some b) (some a) = some (compare b a) := rfl
          rw [hlt, hgt]
          obtain h | rfl | h := lt_trichotomy a b
          · simp [compare_lt_iff_lt.mpr h]
          · simp
          · simp [compare_lt_iff_lt.mpr h, compare_gt_iff_gt.mpr h]

theorem atMost_iff {x y : Number} : atMost x y = true ↔
    ∃ a b, x.level = some a ∧ y.level = some b ∧ a ≤ b := by
  rw [atMost, compare?_eq]
  cases x.level <;> cases y.level <;>
    simp [Level.order, compare_lt_iff_lt, le_iff_lt_or_eq]

theorem less_iff {x y : Number} : less x y = true ↔
    ∃ a b, x.level = some a ∧ y.level = some b ∧ a < b := by
  rw [less, compare?_eq]
  cases x.level <;> cases y.level <;> simp [Level.order, compare_lt_iff_lt]

end Number

end Duel
