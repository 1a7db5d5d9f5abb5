import Duel.Proofs.Double.Bits
import Mathlib.Algebra.Order.Field.Power
import Mathlib.Data.Rat.Cast.Order
import Mathlib.Data.Rat.Floor
import Mathlib.Tactic.FieldSimp
import Mathlib.Tactic.Linarith
import Mathlib.Tactic.NormNum
import Mathlib.Tactic.Positivity
import Mathlib.Tactic.Ring

namespace Duel.Double

/-- How far below a mantissa the next double begins, in units of the last place. The doubles below a
power of two are twice as dense. -/
def reach (m : Nat) (e : Int) : Rat := if m = leadingBit ∧ -1074 < e then 1 / 4 else 1 / 2

/-- A fraction that is rounded to `m * 2 ^ e`. The ends of the interval belong to the even one. -/
structure Near (m : Nat) (e : Int) (x : Rat) : Prop where
  lower : (m - reach m e) * 2 ^ e ≤ x
  upper : x ≤ (m + 1 / 2) * 2 ^ e
  inside : m % 2 = 1 → (m - reach m e) * 2 ^ e < x ∧ x < (m + 1 / 2) * 2 ^ e

def roundEven (a b : Nat) : Nat :=
  if b < 2 * (a % b) ∨ (2 * (a % b) = b ∧ a / b % 2 = 1) then a / b + 1 else a / b

theorem roundEven_eq {a b n : Nat} (hb : 0 < b) (hl : 2 * n * b ≤ 2 * a + b)
    (hu : 2 * a ≤ 2 * n * b + b)
    (hodd : n % 2 = 1 → 2 * n * b < 2 * a + b ∧ 2 * a < 2 * n * b + b) : roundEven a b = n := by
  have ha : b * (a / b) + a % b = a := Nat.div_add_mod a b
  have hr : a % b < b := Nat.mod_lt a hb
  unfold roundEven
  generalize a / b = q at *
  generalize a % b = r at *
  subst ha
  have hle : n ≤ q + 1 := by
    by_contra hn
    have : (q + 2) * b ≤ n * b := Nat.mul_le_mul_right b (by omega)
    nlinarith
  have hge : q ≤ n := by
    by_contra hn
    have : (n + 1) * b ≤ q * b := Nat.mul_le_mul_right b (by omega)
    nlinarith
  obtain rfl | rfl : n = q ∨ n = q + 1 := by omega
  · have hlow : 2 * r ≤ b := by nlinarith
    have hstrict : n % 2 = 1 → 2 * r < b := fun hn => by nlinarith [(hodd hn).2]
    rw [if_neg (by omega)]
  · have hlow : b ≤ 2 * r := by nlinarith
    have hstrict : (q + 1) % 2 = 1 → b < 2 * r := fun hn => by nlinarith [(hodd hn).1]
    rw [if_pos (by omega)]

def scaled (num den : Nat) (e : Int) : Nat × Nat :=
  if 0 ≤ e then (num, den <<< e.toNat) else (num <<< (-e).toNat, den)

def guess (num den : Nat) : Int := (num.log2 : Int) - den.log2 - 52

def exponentFor (num den : Nat) : Int :=
  max (-1074)
    (if (scaled num den (guess num den)).1 / (scaled num den (guess num den)).2 < leadingBit then
      guess num den - 1 else guess num den)

theorem nearest_eq {num den : Nat} (h : num ≠ 0) : nearest num den =
    (let e := exponentFor num den
    let bits := bitsOf (roundEven (scaled num den e).1 (scaled num den e).2) e
    if endBits ≤ bits then infinity else Float.ofBits (UInt64.ofNat bits)) := by
  unfold nearest
  rw [if_neg h]
  dsimp only
  unfold exponentFor guess scaled bitsOf roundEven endBits
  simp only [decide_eq_true_eq]

variable {num den : Nat}

theorem two_zpow_pos (e : Int) : (0 : Rat) < 2 ^ e := zpow_pos (by norm_num) e

theorem two_zpow_succ (e : Int) : (2 : Rat) ^ (e + 1) = 2 * 2 ^ e := by
  rw [add_comm, zpow_one_add₀ (by norm_num)]

theorem two_zpow_split {d e : Int} (h : d ≤ e) : (2 : Rat) ^ e = 2 ^ (e - d).toNat * 2 ^ d := by
  rw [← zpow_natCast, Int.toNat_of_nonneg (by omega), ← zpow_add₀ (by norm_num), Int.sub_add_cancel]

theorem cast_leadingBit : (leadingBit : Rat) = 2 ^ (52 : Int) := by norm_num [leadingBit]

theorem cast_carry : ((2 * leadingBit : Nat) : Rat) = 2 ^ (53 : Int) := by norm_num [leadingBit]

theorem scaled_pos (hd : 0 < den) (e : Int) : 0 < (scaled num den e).2 := by
  unfold scaled
  split
  · simpa [Nat.shiftLeft_eq] using hd
  · exact hd

theorem scaled_ratio (hd : 0 < den) (e : Int) :
    ((scaled num den e).1 : Rat) = num / den / 2 ^ e * (scaled num den e).2 := by
  have hd' : (den : Rat) ≠ 0 := by exact_mod_cast hd.ne'
  have hp := (two_zpow_pos e).ne'
  unfold scaled
  split
  next he =>
    obtain ⟨k, rfl⟩ := Int.eq_ofNat_of_zero_le he
    simp only [Int.toNat_natCast, Nat.shiftLeft_eq, zpow_natCast, Nat.cast_mul, Nat.cast_pow,
      Nat.cast_ofNat]
    field_simp
  next he =>
    obtain ⟨k, hk⟩ := Int.eq_ofNat_of_zero_le (show 0 ≤ -e by omega)
    obtain rfl : e = -k := by omega
    simp only [neg_neg, Int.toNat_natCast, Nat.shiftLeft_eq, zpow_neg, zpow_natCast, Nat.cast_mul,
      Nat.cast_pow, Nat.cast_ofNat]
    field_simp

theorem quotient_lt_iff (hd : 0 < den) (e : Int) (n : Nat) :
    (scaled num den e).1 / (scaled num den e).2 < n ↔ (num : Rat) / den / 2 ^ e < n := by
  have hs : 0 < ((scaled num den e).2 : Rat) := by exact_mod_cast scaled_pos hd e
  have h : ((scaled num den e).1 : Rat) < n * (scaled num den e).2 ↔
      (num : Rat) / den / 2 ^ e < n := by
    rw [scaled_ratio hd]
    exact mul_lt_mul_iff_of_pos_right hs
  rw [Nat.div_lt_iff_lt_mul (scaled_pos hd e), ← h]
  exact_mod_cast Iff.rfl

theorem ratio_between (hn : 0 < num) (hd : 0 < den) :
    (2 : Rat) ^ ((num.log2 : Int) - den.log2 - 1) < num / den ∧
      (num : Rat) / den < 2 ^ ((num.log2 : Int) - den.log2 + 1) := by
  have hd' : (0 : Rat) < den := by exact_mod_cast hd
  have hnum : (2 : Rat) ^ (num.log2 : Int) ≤ num ∧ (num : Rat) < 2 ^ ((num.log2 : Int) + 1) := by
    exact_mod_cast And.intro (Nat.log2_self_le hn.ne') (Nat.lt_log2_self (n := num))
  have hden : (2 : Rat) ^ (den.log2 : Int) ≤ den ∧ (den : Rat) < 2 ^ ((den.log2 : Int) + 1) := by
    exact_mod_cast And.intro (Nat.log2_self_le hd.ne') (Nat.lt_log2_self (n := den))
  have hp := two_zpow_pos ((num.log2 : Int) - den.log2 - 1)
  have hp' := two_zpow_pos ((num.log2 : Int) - den.log2 + 1)
  rw [lt_div_iff₀ hd', div_lt_iff₀ hd']
  constructor
  · calc (2 : Rat) ^ ((num.log2 : Int) - den.log2 - 1) * den
        < 2 ^ ((num.log2 : Int) - den.log2 - 1) * 2 ^ ((den.log2 : Int) + 1) :=
          mul_lt_mul_of_pos_left hden.2 hp
      _ = 2 ^ (num.log2 : Int) := by
          rw [← zpow_add₀ (by norm_num)]
          congr 1
          omega
      _ ≤ num := hnum.1
  · calc (num : Rat) < 2 ^ ((num.log2 : Int) + 1) := hnum.2
      _ = 2 ^ ((num.log2 : Int) - den.log2 + 1) * 2 ^ (den.log2 : Int) := by
          rw [← zpow_add₀ (by norm_num)]
          congr 1
          omega
      _ ≤ 2 ^ ((num.log2 : Int) - den.log2 + 1) * den := mul_le_mul_of_nonneg_left hden.1 hp'.le

theorem div_zpow_lt_iff {x : Rat} {d e : Int} : x / 2 ^ e < 2 ^ d ↔ x < 2 ^ (d + e) := by
  rw [div_lt_iff₀ (two_zpow_pos e), ← zpow_add₀ (by norm_num)]

/-- A number has as many places at an exponent as a mantissa has, or fewer at the least one. -/
structure Reaches (d : Int) (x : Rat) : Prop where
  lt : x < 2 ^ (53 + d)
  least : -1074 ≤ d
  normal : 2 ^ (52 + d) ≤ x ∨ d = -1074

theorem exponentFor_reaches (hn : 0 < num) (hd : 0 < den) :
    Reaches (exponentFor num den) ((num : Rat) / den) := by
  obtain ⟨hlow, hhigh⟩ := ratio_between hn hd
  have hshort :
      (scaled num den (guess num den)).1 / (scaled num den (guess num den)).2 < leadingBit ↔
      (num : Rat) / den < 2 ^ (52 + guess num den) := by
    rw [quotient_lt_iff hd, ← div_zpow_lt_iff]
    norm_num [leadingBit]
  have hmono : ∀ {d e : Int}, d ≤ e → (2 : Rat) ^ d ≤ 2 ^ e :=
    fun h => zpow_le_zpow_right₀ (by norm_num) h
  unfold exponentFor
  rw [show (num.log2 : Int) - den.log2 - 1 = 51 + guess num den by unfold guess; omega] at hlow
  rw [show (num.log2 : Int) - den.log2 + 1 = 53 + guess num den by unfold guess; omega] at hhigh
  split
  next h =>
    have h := hshort.mp h
    refine ⟨h.trans_le (hmono (by omega)), by omega, ?_⟩
    by_cases hg : -1074 ≤ guess num den - 1
    · exact .inl (le_trans (hmono (by omega)) hlow.le)
    · exact .inr (by omega)
  next h =>
    have h := not_lt.mp fun hlt => h (hshort.mpr hlt)
    refine ⟨hhigh.trans_le (hmono (by omega)), by omega, ?_⟩
    by_cases hg : -1074 ≤ guess num den
    · exact .inl (le_trans (hmono (by omega)) h)
    · exact .inr (by omega)

theorem roundEven_scaled (hd : 0 < den) {e : Int} {n : Nat}
    (hl : (n - 1 / 2) * 2 ^ e ≤ (num : Rat) / den) (hu : (num : Rat) / den ≤ (n + 1 / 2) * 2 ^ e)
    (hodd : n % 2 = 1 →
      (n - 1 / 2) * 2 ^ e < (num : Rat) / den ∧ (num : Rat) / den < (n + 1 / 2) * 2 ^ e) :
    roundEven (scaled num den e).1 (scaled num den e).2 = n := by
  have hp := two_zpow_pos e
  have hs : 0 < ((scaled num den e).2 : Rat) := by exact_mod_cast scaled_pos hd e
  have hratio : ((scaled num den e).1 : Rat) = _ := scaled_ratio hd e
  rw [← le_div_iff₀ hp] at hl
  rw [← div_le_iff₀ hp] at hu
  rw [← lt_div_iff₀ hp, ← div_lt_iff₀ hp] at hodd
  generalize (num : Rat) / den / 2 ^ e = x at *
  refine roundEven_eq (scaled_pos hd e) ?_ ?_ fun hn => ⟨?_, ?_⟩
  · have : (2 * n * (scaled num den e).2 : Rat) ≤
        2 * (scaled num den e).1 + (scaled num den e).2 := by
      nlinarith
    exact_mod_cast this
  · have : (2 * (scaled num den e).1 : Rat) ≤
        2 * n * (scaled num den e).2 + (scaled num den e).2 := by
      nlinarith
    exact_mod_cast this
  · have : (2 * n * (scaled num den e).2 : Rat) <
        2 * (scaled num den e).1 + (scaled num den e).2 := by
      nlinarith [(hodd hn).1]
    exact_mod_cast this
  · have : (2 * (scaled num den e).1 : Rat) <
        2 * n * (scaled num den e).2 + (scaled num den e).2 := by
      nlinarith [(hodd hn).2]
    exact_mod_cast this

theorem reach_bounds (m : Nat) (e : Int) : 1 / 4 ≤ reach m e ∧ reach m e ≤ 1 / 2 := by
  unfold reach
  split <;> norm_num

theorem Near.weaken {m : Nat} {e : Int} {x : Rat} (h : Near m e x) :
    (m - 1 / 2) * 2 ^ e ≤ x ∧ (m % 2 = 1 → (m - 1 / 2) * 2 ^ e < x) := by
  have hp := two_zpow_pos e
  have hr := (reach_bounds m e).2
  have hle : ((m : Rat) - 1 / 2) * 2 ^ e ≤ (m - reach m e) * 2 ^ e :=
    mul_le_mul_of_nonneg_right (by linarith) hp.le
  exact ⟨hle.trans h.lower, fun hm => hle.trans_lt (h.inside hm).1⟩

/-- Just below a power of two the mantissa is taken at the exponent below, and rounding carries. -/
theorem Reaches.of_near {m : Nat} {d e : Int} {x : Rat} (hd : Reaches d x) (h : Fits m e)
    (hx : Near m e x) : d = e ∨ m = leadingBit ∧ -1074 < e ∧ d = e - 1 := by
  obtain ⟨hlt, hfrom, hge⟩ := hd
  have hleast := h.least
  have hp := two_zpow_pos e
  have hmono : ∀ {c d : Int}, c ≤ d → (2 : Rat) ^ c ≤ 2 ^ d :=
    fun h => zpow_le_zpow_right₀ (by norm_num) h
  have hsplit : ∀ c : Int, (2 : Rat) ^ (c + e) = 2 ^ c * 2 ^ e :=
    fun c => zpow_add₀ (by norm_num) c e
  have hm := h.lt
  -- It is too small only if the mantissa carries, and it is never too large.
  obtain hlow | heq | hhigh := lt_trichotomy d e
  · refine .inr ?_
    have hnormal : leadingBit ≤ m := h.normal.resolve_right (by omega)
    have htop : x < 2 ^ (52 : Int) * 2 ^ e := by
      rw [← hsplit]
      exact hlt.trans_le (hmono (by omega))
    have hbelow : (m : Rat) - 1 / 2 < 2 ^ (52 : Int) :=
      lt_of_mul_lt_mul_right (hx.weaken.1.trans_lt htop) hp.le
    have hm : m = leadingBit := by
      have : (m : Rat) < (leadingBit + 1 : Nat) := by
        push_cast [leadingBit]
        linarith [show (2 : Rat) ^ (52 : Int) = 4503599627370496 by norm_num]
      have : m < leadingBit + 1 := by exact_mod_cast this
      omega
    refine ⟨hm, by omega, ?_⟩
    by_contra hne
    have hdeep : x < 2 ^ (51 : Int) * 2 ^ e := by
      rw [← hsplit]
      exact hlt.trans_le (hmono (by omega))
    have hdeep : (m : Rat) - 1 / 2 < 2 ^ (51 : Int) :=
      lt_of_mul_lt_mul_right (hx.weaken.1.trans_lt hdeep) hp.le
    rw [hm] at hdeep
    norm_num [leadingBit] at hdeep
  · exact .inl heq
  · exfalso
    have hge : (2 : Rat) ^ (53 : Int) * 2 ^ e ≤ x := by
      rw [← hsplit]
      exact (hmono (by omega)).trans (hge.resolve_right (by omega))
    have hm' : (2 : Rat) ^ (53 : Int) ≤ m + 1 / 2 :=
      le_of_mul_le_mul_right (hge.trans hx.upper) hp
    have : ((2 * leadingBit : Nat) : Rat) < m + 1 := by
      push_cast [leadingBit]
      linarith [show (2 : Rat) ^ (53 : Int) = 9007199254740992 by norm_num]
    have : 2 * leadingBit < m + 1 := by exact_mod_cast this
    omega

theorem Near.carries {e : Int} {x : Rat} (h : Near leadingBit e x) (he : -1074 < e)
    (hlt : x < 2 ^ (53 + (e - 1))) :
    ((2 * leadingBit : Nat) - 1 / 2 : Rat) * 2 ^ (e - 1) ≤ x ∧
      x ≤ ((2 * leadingBit : Nat) + 1 / 2 : Rat) * 2 ^ (e - 1) := by
  have hp := two_zpow_pos (e - 1)
  have htwo := two_zpow_succ (e - 1)
  rw [Int.sub_add_cancel] at htwo
  have hlow := h.lower
  have hreach : reach leadingBit e = 1 / 4 := if_pos ⟨rfl, he⟩
  rw [hreach, htwo] at hlow
  rw [zpow_add₀ (by norm_num), ← cast_carry] at hlt
  constructor
  · push_cast
    linarith
  · linarith

theorem bits_of_near {m : Nat} {e : Int} (hn : 0 < num) (hd : 0 < den) (h : Fits m e)
    (hx : Near m e ((num : Rat) / den)) :
    bitsOf (roundEven (scaled num den (exponentFor num den)).1
      (scaled num den (exponentFor num den)).2) (exponentFor num den) = bitsOf m e := by
  obtain he | ⟨rfl, hleast, he⟩ := (exponentFor_reaches hn hd).of_near h hx
  · rw [he, roundEven_scaled hd hx.weaken.1 hx.upper fun hm => ⟨hx.weaken.2 hm, (hx.inside hm).2⟩]
  · have hhigh := (exponentFor_reaches hn hd).lt
    rw [he] at hhigh
    obtain ⟨hl, hu⟩ := hx.carries hleast hhigh
    have hround : roundEven (scaled num den (e - 1)).1 (scaled num den (e - 1)).2 =
        2 * leadingBit := roundEven_scaled hd hl hu fun hodd => absurd hodd (by decide)
    have hcarry : (e + 1074).toNat = (e - 1 + 1074).toNat + 1 := by omega
    rw [he, hround]
    unfold bitsOf leadingBit
    omega

/-- A fraction near a double is rounded to it. -/
theorem nearest_of_near {m : Nat} {e : Int} (hd : 0 < den) (h : Fits m e)
    (hx : Near m e ((num : Rat) / den)) :
    nearest num den = Float.ofBits (UInt64.ofNat (bitsOf m e)) := by
  obtain rfl | hn := Nat.eq_zero_or_pos num
  · have hp := two_zpow_pos e
    have hlow := hx.weaken.1
    rw [Nat.cast_zero, zero_div] at hlow
    have hm : (m : Rat) - 1 / 2 ≤ 0 := nonpos_of_mul_nonpos_left hlow hp
    have hm : (m : Rat) < (1 : Nat) := by
      push_cast
      linarith
    obtain rfl : m = 0 := Nat.lt_one_iff.mp (by exact_mod_cast hm)
    obtain rfl : e = -1074 := h.normal.resolve_left (by decide)
    rfl
  · rw [nearest_eq hn.ne']
    dsimp only
    rw [bits_of_near hn hd h hx, if_neg (by have := h.bitsOf_lt; omega)]

def huge : Rat := ((2 * leadingBit : Nat) - 1 / 2) * 2 ^ (971 : Int)

theorem huge_lt : huge < 2 ^ (1024 : Int) := by
  have hsplit : (2 : Rat) ^ (1024 : Int) = 2 ^ (53 : Int) * 2 ^ (971 : Int) := by
    rw [← zpow_add₀ (by norm_num)]
    norm_num
  rw [huge, hsplit, cast_carry]
  exact mul_lt_mul_of_pos_right (by norm_num) (two_zpow_pos 971)

theorem le_huge : (2 : Rat) ^ (1023 : Int) ≤ huge := by
  have hsplit : (2 : Rat) ^ (1023 : Int) = 2 ^ (52 : Int) * 2 ^ (971 : Int) := by
    rw [← zpow_add₀ (by norm_num)]
    norm_num
  rw [huge, hsplit, cast_carry]
  exact mul_le_mul_of_nonneg_right (by norm_num) (two_zpow_pos 971).le

theorem exists_nearest {y : Rat} (hy : 0 ≤ y) :
    ∃ n : Nat, n - 1 / 2 ≤ y ∧ y ≤ n + 1 / 2 ∧ (n % 2 = 1 → n - 1 / 2 < y ∧ y < n + 1 / 2) := by
  have hl := Nat.floor_le hy
  have hu := Nat.lt_floor_add_one y
  generalize ⌊y⌋₊ = f at hl hu
  obtain hlt | heq | hgt := lt_trichotomy y (f + 1 / 2)
  · exact ⟨f, by linarith, hlt.le, fun _ => ⟨by linarith, hlt⟩⟩
  · obtain heven | hodd : f % 2 = 0 ∨ f % 2 = 1 := by omega
    · exact ⟨f, by linarith, heq.le, fun h => by omega⟩
    · refine ⟨f + 1, ?_, ?_, fun h => by omega⟩
      · push_cast
        linarith
      · push_cast
        linarith
  · refine ⟨f + 1, ?_, ?_, fun _ => ⟨?_, ?_⟩⟩ <;> push_cast <;> linarith

theorem exists_near {x : Rat} (hx : 0 < x) (hlarge : x < huge) : ∃ m e, Fits m e ∧ Near m e x := by
  obtain ⟨d, hd⟩ : ∃ d, Reaches d x := by
    have hn : 0 < x.num := Rat.num_pos.mpr hx
    have hcast : ((x.num.toNat : Nat) : Rat) / x.den = x := by
      have : ((x.num.toNat : Nat) : Rat) = x.num := by exact_mod_cast Int.toNat_of_nonneg hn.le
      rw [this]
      exact x.num_div_den
    exact ⟨_, hcast ▸ exponentFor_reaches (by omega) x.den_pos⟩
  have hp := two_zpow_pos d
  have hmost : d ≤ 971 := by
    obtain h | h := hd.normal
    · have := (zpow_lt_zpow_iff_right₀ (by norm_num)).mp ((h.trans_lt hlarge).trans huge_lt)
      omega
    · omega
  obtain ⟨n, hl, hu, hodd⟩ := exists_nearest (div_pos hx hp).le
  rw [le_div_iff₀ hp] at hl
  rw [div_le_iff₀ hp] at hu
  rw [lt_div_iff₀ hp, div_lt_iff₀ hp] at hodd
  have hle : n ≤ 2 * leadingBit := by
    have hlt : (n - 1 / 2 : Rat) * 2 ^ d < 2 ^ (53 : Int) * 2 ^ d := by
      rw [← zpow_add₀ (by norm_num)]
      exact hl.trans_lt hd.lt
    have hlt := lt_of_mul_lt_mul_right hlt hp.le
    rw [← cast_carry] at hlt
    have : (n : Rat) < (2 * leadingBit : Nat) + 1 := by linarith
    have : n < 2 * leadingBit + 1 := by exact_mod_cast this
    omega
  have hnormal : leadingBit ≤ n ∨ d = -1074 := by
    refine hd.normal.imp_left fun h => ?_
    rw [zpow_add₀ (by norm_num)] at h
    have hge := le_of_mul_le_mul_right (h.trans hu) hp
    rw [← cast_leadingBit] at hge
    have : (leadingBit : Rat) < n + 1 := by linarith
    have : leadingBit < n + 1 := by exact_mod_cast this
    omega
  have hstart : leadingBit = n ∧ -1074 < d → (n : Rat) * 2 ^ d ≤ x := by
    rintro ⟨rfl, hd'⟩
    have h := hd.normal.resolve_right (by omega)
    rwa [zpow_add₀ (by norm_num), ← cast_leadingBit] at h
  obtain hlt | rfl := Nat.lt_or_eq_of_le hle
  · refine ⟨n, d, ⟨hlt, hd.least, hmost, hnormal⟩, ?_, hu, fun h => ⟨?_, (hodd h).2⟩⟩
    · unfold reach
      split
      next h => nlinarith [hstart ⟨h.1.symm, h.2⟩]
      next => exact hl
    · unfold reach
      split
      next h => nlinarith [hstart ⟨h.1.symm, h.2⟩]
      next => exact (hodd h).1
  · have hmost : d < 971 := by
      refine lt_of_le_of_ne hmost ?_
      rintro rfl
      exact (hl.trans_lt hlarge).ne rfl
    refine ⟨leadingBit, d + 1, ⟨by decide, by have := hd.least; omega, by omega, .inl le_rfl⟩,
      ?_, ?_, fun h => absurd h (by decide)⟩
    · have hreach : reach leadingBit (d + 1) = 1 / 4 :=
        if_pos ⟨rfl, by have := hd.least; omega⟩
      rw [hreach, two_zpow_succ]
      push_cast at hl
      linarith
    · rw [two_zpow_succ]
      push_cast at hu
      linarith

theorem near_self (m : Nat) (e : Int) : Near m e (m * 2 ^ e) := by
  have hp := two_zpow_pos e
  have hreach := (reach_bounds m e).1
  exact ⟨by nlinarith, by nlinarith, fun _ => ⟨by nlinarith, by nlinarith⟩⟩

end Duel.Double
