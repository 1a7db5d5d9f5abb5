import Duel.Proofs.Double.Order

namespace Duel.Double

open Float.Model (UnpackedFloat)
open Float.Model.UnpackedFloat (Sign ExtendedMantissa)

theorem Near.mono {m n : Nat} {d e : Int} {x y : Rat} (hm : Fits m d) (hn : Fits n e)
    (hx : Near m d x) (hy : Near n e y) (h : x ≤ y) : (m : Rat) * 2 ^ d ≤ n * 2 ^ e := by
  by_contra hlt
  rw [not_le] at hlt
  have hp := two_zpow_pos e
  obtain hed | rfl := (show e ≤ d from not_lt.mp fun hde =>
    (hm.lt_of_exponent hn hde).not_gt hlt).lt_or_eq
  · -- The larger one has a leading bit, and a unit that is at least twice as large.
    have hmin : -1074 < d := lt_of_le_of_lt hn.least hed
    have hlead : leadingBit ≤ m := hm.normal.resolve_right (by omega)
    have hlow : ((leadingBit : Rat) - 1 / 4) * 2 ^ d ≤ x := by
      refine le_trans (mul_le_mul_of_nonneg_right ?_ (two_zpow_pos d).le) hx.lower
      unfold reach
      split
      next hr => rw [hr.1]
      next hr =>
        have hgt : leadingBit + 1 ≤ m := Nat.lt_of_le_of_ne hlead fun he => hr ⟨he.symm, hmin⟩
        have hgt : (leadingBit : Rat) + 1 ≤ m := by exact_mod_cast hgt
        linarith
    have htwice : 2 * (2 : Rat) ^ e ≤ 2 ^ d := by
      rw [← two_zpow_succ]
      exact zpow_le_zpow_right₀ (by norm_num) hed
    have hlow : (2 * (leadingBit : Rat) - 1 / 2) * 2 ^ e ≤ x := by
      have hpos : (0 : Rat) ≤ leadingBit - 1 / 4 := by norm_num [leadingBit]
      nlinarith
    obtain hodd | heven : n % 2 = 1 ∨ n + 2 ≤ 2 * leadingBit := by
      have := hn.lt
      unfold leadingBit at *
      omega
    · have hle : (n : Rat) + 1 ≤ 2 * leadingBit := by exact_mod_cast hn.lt
      nlinarith [(hy.inside hodd).2]
    · have hle : (n : Rat) + 2 ≤ 2 * leadingBit := by exact_mod_cast heven
      nlinarith [hy.upper]
  · have hstep : n < m := by exact_mod_cast lt_of_mul_lt_mul_right hlt hp.le
    obtain hodd | hodd | hgap : m % 2 = 1 ∨ n % 2 = 1 ∨ n + 2 ≤ m := by omega
    · have hle : (n : Rat) + 1 ≤ m := by exact_mod_cast hstep
      nlinarith [hx.weaken.2 hodd, hy.upper]
    · have hle : (n : Rat) + 1 ≤ m := by exact_mod_cast hstep
      nlinarith [hx.weaken.1, (hy.inside hodd).2]
    · have hle : (n : Rat) + 2 ≤ m := by exact_mod_cast hgap
      nlinarith [hx.weaken.1, hy.upper]

theorem Near.lt_huge {m : Nat} {e : Int} {x : Rat} (h : Fits m e) (hx : Near m e x) : x < huge := by
  have hp := two_zpow_pos e
  have hle : (2 : Rat) ^ e ≤ 2 ^ (971 : Int) := zpow_le_zpow_right₀ (by norm_num) h.most
  have hpos : (0 : Rat) ≤ (2 * leadingBit : Nat) - 1 / 2 := by norm_num [leadingBit]
  refine lt_of_lt_of_le ?_ (mul_le_mul_of_nonneg_left hle hpos)
  obtain hodd | heven : m % 2 = 1 ∨ m + 2 ≤ 2 * leadingBit := by
    have := h.lt
    unfold leadingBit at *
    omega
  · have hm : (m : Rat) + 1 ≤ (2 * leadingBit : Nat) := by exact_mod_cast h.lt
    nlinarith [(hx.inside hodd).2]
  · have hm : (m : Rat) + 2 ≤ (2 * leadingBit : Nat) := by exact_mod_cast heven
    nlinarith [hx.upper]

/-- What a number that is not below zero is rounded to. -/
inductive Rounds (x : Rat) : Level → Prop
  | near {m : Nat} {e : Int} (h : Fits m e) (hx : Near m e x) : Rounds x (.of (m * 2 ^ e))
  | huge (h : huge ≤ x) : Rounds x ⊤

theorem Rounds.mono {x y : Rat} {a b : Level} (hx : Rounds x a) (hy : Rounds y b) (h : x ≤ y) :
    a ≤ b := by
  cases hy with
  | huge => exact le_top
  | near hn hy =>
    cases hx with
    | huge hx => exact absurd (hx.trans h) (hy.lt_huge hn).not_ge
    | near hm hx => exact WithBot.coe_le_coe.mpr (WithTop.coe_le_coe.mpr (hx.mono hm hn hy h))

theorem roundWithAccuracy_of_huge {k : Nat} {j : Int} (hk : 0 < k) (hj : j ≤ target k j)
    (h : huge ≤ k * 2 ^ j) (s : Sign) : ∃ m e, ∃ hm : 0 < m, 972 ≤ e ∧
      UnpackedFloat.roundWithAccuracy .binary64 s k j .exact = .finite s m e hm := by
  obtain ⟨cut, hfirst, hcut⟩ := exists_cut hj
  obtain ⟨hlt, -, hnormal⟩ := target_reaches hk j
  generalize target k j = t at hfirst hcut hlt hnormal
  generalize (k : Rat) * 2 ^ j = x at h hcut hlt hnormal
  have hp := two_zpow_pos t
  have ht : 971 ≤ t := by
    have := (zpow_lt_zpow_iff_right₀ (by norm_num)).mp ((le_huge.trans h).trans_lt hlt)
    omega
  have hlow : (leadingBit : Rat) ≤ x / 2 ^ t := by
    have hx := hnormal.resolve_right (by omega)
    rwa [zpow_add₀ (by norm_num), ← cast_leadingBit, ← le_div_iff₀ hp] at hx
  have hhigh : x / 2 ^ t < (2 * leadingBit : Nat) := by
    rwa [zpow_add₀ (by norm_num), ← cast_carry, ← div_lt_iff₀ hp] at hlt
  obtain ⟨n, hl, hu, hodd⟩ := exists_nearest (y := x / 2 ^ t) (le_trans (by positivity) hlow)
  have hround := hcut.rounded hl hu hodd
  have hleast : leadingBit ≤ n := by
    have : (leadingBit : Rat) < n + 1 := by linarith
    have : leadingBit < n + 1 := by exact_mod_cast this
    omega
  have hmost : n ≤ 2 * leadingBit := by
    have : (n : Rat) < (2 * leadingBit : Nat) + 1 := by linarith
    have : n < 2 * leadingBit + 1 := by exact_mod_cast this
    omega
  have hn : 0 < n := Nat.lt_of_lt_of_le (by decide) hleast
  obtain hless | rfl := hmost.lt_or_eq
  · have htop : t ≠ 971 := by
      -- At the highest exponent the number is nearer to what is beyond the doubles.
      rintro rfl
      have hx := (le_div_iff₀ hp).mpr h
      have hle : (2 * leadingBit : Nat) ≤ (n : Rat) + 1 := by linarith
      have hle : 2 * leadingBit ≤ n + 1 := by exact_mod_cast hle
      have hlast : n % 2 = 1 := by
        unfold leadingBit at *
        omega
      have hle : (n : Rat) + 1 ≤ (2 * leadingBit : Nat) := by exact_mod_cast hless
      linarith [(hodd hlast).2]
    refine ⟨n, t, hn, by omega, roundWithAccuracy_eq hfirst ?_ hn s⟩
    rw [hround]
    refine shift_of_target_le ?_
    rw [target_eq, log2_eq_of_normal hleast hless]
    omega
  · refine ⟨leadingBit, t + 1, by decide, by omega, roundWithAccuracy_eq hfirst ?_ (by decide) s⟩
    rw [hround]
    have hcarry := shift_of_carry (show -1074 < t + 1 by omega)
    rwa [add_sub_cancel_right] at hcarry

theorem pack_huge {m : Nat} {e : Int} (hm : 0 < m) (h : 972 ≤ e) (s : Sign) :
    UnpackedFloat.pack .binary64 (.finite s m e hm) =
      UnpackedFloat.pack .binary64 (.infinity s) := by
  refine if_pos ?_
  change 2048 ≤ (e + 1023 + 52).toNat + 1
  omega

theorem pack_round_of_huge {k : Nat} {j : Int} (hk : 0 < k) (h : huge ≤ k * 2 ^ j) (s : Sign) :
    UnpackedFloat.pack .binary64 (.round .binary64 s k j) =
      UnpackedFloat.pack .binary64 (.infinity s) := by
  obtain ⟨n, i, hn, hle, hvalue, hround⟩ := exists_lowered hk j
  obtain ⟨m, e, hm, he, hr⟩ := roundWithAccuracy_of_huge hn hle (hvalue.symm ▸ h) s
  rw [hround, hr, pack_huge hm he]

section Sum

variable {x y z : Float} {r q : Reading} {u v : UnpackedFloat} {a b : Rat} {m : Nat} {e : Int}

theorem level_of_finite {s : Sign} (hm : 0 < m) (h : Fits m e)
    (hz : z.toBits.toBitVec = UnpackedFloat.pack .binary64 (.finite s m e hm)) :
    level z = some (.of (value (signBit s) m e)) :=
  level_of_read (read_of_toBits h ((congrArg BitVec.toNat hz).trans (toNat_pack_finite hm h s)))

theorem level_of_zero {s : Sign}
    (hz : z.toBits.toBitVec = UnpackedFloat.pack .binary64 (.zero s)) :
    level z = some (.of 0) := by
  have hr : read z = .finite (signBit s) 0 (-1074) :=
    read_of_toBits fits_zero ((congrArg BitVec.toNat hz).trans (toNat_pack_zero s))
  rw [level_of_read hr, value_zero]

theorem level_of_infinity
    (hz : z.toBits.toBitVec = UnpackedFloat.pack .binary64 (.infinity .positive)) :
    level z = some ⊤ := by
  obtain rfl : z = infinity := toBits_inj (congrArg BitVec.toNat hz)
  decide +kernel

theorem rounds_value (h : Fits m e) : Rounds (value false m e) (.of (value false m e)) :=
  .near h (near_self m e)

theorem rounds_zero : Rounds 0 (.of 0) := by
  have h := rounds_value fits_zero
  rwa [value_zero] at h

theorem normalize_rounds {k : Int} (hk : 0 ≤ k) (he : -1074 ≤ e)
    (hz : z.toBits.toBitVec = UnpackedFloat.pack .binary64 (.normalize .binary64 k e .positive)) :
    ∃ l, level z = some l ∧ Rounds (k * 2 ^ e) l := by
  obtain rfl | hk := hk.eq_or_lt
  · refine ⟨.of 0, level_of_zero hz, ?_⟩
    rw [Int.cast_zero, zero_mul]
    exact rounds_zero
  have hone : (1 : Rat) ≤ k := by exact_mod_cast hk
  have hleast : (2 : Rat) ^ (-1074 : Int) ≤ k * 2 ^ e :=
    calc (2 : Rat) ^ (-1074 : Int) ≤ 2 ^ e := zpow_le_zpow_right₀ (by norm_num) he
      _ ≤ k * 2 ^ e := le_mul_of_one_le_left (two_zpow_pos e).le hone
  by_cases hlarge : huge ≤ k * 2 ^ e
  · refine ⟨⊤, level_of_infinity ?_, .huge hlarge⟩
    have hcast : ((k.toNat : Nat) : Rat) = k := by exact_mod_cast Int.toNat_of_nonneg hk.le
    rw [hz, UnpackedFloat.normalize, show compare k 0 = .gt from compare_gt_iff_gt.mpr hk]
    exact pack_round_of_huge (by omega) (hcast.symm ▸ hlarge) .positive
  · obtain ⟨m, d, hf, hx⟩ :=
      exists_near ((two_zpow_pos (-1074)).trans_le hleast) (not_le.mp hlarge)
    have hm : 0 < m := by
      -- The least double is not rounded to zero.
      by_contra hm
      obtain rfl : m = 0 := by omega
      obtain rfl : d = -1074 := hf.normal.resolve_left (by decide)
      have hupper := hx.upper
      rw [Nat.cast_zero] at hupper
      nlinarith [two_zpow_pos (-1074)]
    rw [normalize_of_near hm hf (s := .positive) hx] at hz
    exact ⟨_, level_of_finite hm hf hz, .near hf hx⟩

theorem rounds_of_nonneg {negative : Bool} (hm : 0 < m) (h : Fits m e)
    (hv : 0 ≤ value negative m e) :
    Rounds (value negative m e) (.of (value negative m e)) := by
  cases negative with
  | false => exact .near h (near_self m e)
  | true =>
    rw [value_neg] at hv
    exact absurd (value_pos hm e) (by linarith)

theorem Unpacks.cases_of (h : Unpacks r u) (hr : r.level = some (.of a)) :
    (∃ s, u = .zero s ∧ a = 0) ∨
      ∃ s m e, ∃ hm : 0 < m, u = .finite s m e hm ∧ Fits m e ∧ a = value (signBit s) m e := by
  cases h with
  | nan => cases hr
  | infinite s =>
    cases s with
    | positive => exact absurd (Option.some.inj hr).symm (level_lt_top a).ne
    | negative => exact absurd (Option.some.inj hr) (bot_lt_level a).ne
  | zero s e =>
    refine .inl ⟨s, rfl, ?_⟩
    rw [← Level.of_inj.mp (Option.some.inj hr), value_zero]
  | finite s hm hf =>
    exact .inr ⟨s, _, _, hm, rfl, hf, (Level.of_inj.mp (Option.some.inj hr)).symm⟩

theorem Unpacks.eq_infinity (h : Unpacks r u) (hr : r.level = some ⊤) :
    u = .infinity .positive := by
  cases h with
  | nan => cases hr
  | infinite s =>
    cases s with
    | positive => rfl
    | negative => cases Option.some.inj hr
  | zero s e => exact absurd (Option.some.inj hr) (level_lt_top _).ne
  | finite s hm hf => exact absurd (Option.some.inj hr) (level_lt_top _).ne

/-- A sum that is not below zero is rounded to the nearest double. -/
theorem Unpacks.sum_rounds (hu : Unpacks r u) (hv : Unpacks q v) (hr : r.level = some (.of a))
    (hq : q.level = some (.of b)) (h : 0 ≤ a + b)
    (hz : z.toBits.toBitVec = UnpackedFloat.pack .binary64 (.add .binary64 u v)) :
    ∃ l, level z = some l ∧ Rounds (a + b) l := by
  obtain ⟨s, rfl, rfl⟩ | ⟨s, m, d, hm, rfl, hf, rfl⟩ := hu.cases_of hr
  · rw [zero_add] at h ⊢
    obtain ⟨t, rfl, rfl⟩ | ⟨t, n, e, hn, rfl, hg, rfl⟩ := hv.cases_of hq
    · refine ⟨_, ?_, rounds_zero⟩
      cases s <;> cases t <;> exact level_of_zero hz
    · exact ⟨_, level_of_finite hn hg hz, rounds_of_nonneg hn hg h⟩
  · obtain ⟨t, rfl, rfl⟩ | ⟨t, n, e, hn, rfl, hg, rfl⟩ := hv.cases_of hq
    · rw [add_zero] at h ⊢
      exact ⟨_, level_of_finite hm hf hz, rounds_of_nonneg hm hf h⟩
    · let k : Int := s.apply (m <<< (d - min d e).toNat : Nat) +
        t.apply (n <<< (e - min d e).toNat : Nat)
      have hk : (k : Rat) * 2 ^ min d e = value (signBit s) m d + value (signBit t) n e := by
        rw [Int.cast_add, add_mul, value_shiftLeft s m (min_le_left d e),
          value_shiftLeft t n (min_le_right d e)]
      rw [← hk] at h ⊢
      refine normalize_rounds ?_ (le_min hf.least hg.least) hz
      exact_mod_cast nonneg_of_mul_nonneg_left h (two_zpow_pos _)

theorem add_rounds (hx : level x = some (.of a)) (hy : level y = some (.of b)) (h : 0 ≤ a + b) :
    ∃ l, level (x + y) = some l ∧ Rounds (a + b) l :=
  (unpacks x).sum_rounds (unpacks y) hx hy h (toBits_add x y)

theorem add_of_top (hx : level x = some ⊤) {l : Level} (hy : level y = some l) (hl : l ≠ ⊥) :
    level (x + y) = some ⊤ := by
  have hbits := toBits_add x y
  have hv := unpacks y
  rw [(unpacks x).eq_infinity hx] at hbits
  unfold level at hy
  generalize read y = q at hy hv
  generalize UnpackedFloat.unpack .binary64 y.toBits.toBitVec = v at hv hbits
  cases hv with
  | nan => cases hy
  | infinite s =>
    cases s with
    | positive => exact level_of_infinity hbits
    | negative => exact absurd (Option.some.inj hy).symm hl
  | zero s e => exact level_of_infinity hbits
  | finite s hm hf => exact level_of_infinity hbits

theorem add_to_top (hx : level x = some (.of a)) (hy : level y = some ⊤) :
    level (x + y) = some ⊤ := by
  have hbits := toBits_add x y
  rw [(unpacks y).eq_infinity hy] at hbits
  obtain ⟨s, hu, -⟩ | ⟨s, m, e, hm, hu, -⟩ := (unpacks x).cases_of hx <;> rw [hu] at hbits <;>
    exact level_of_infinity hbits

theorem sub_eq_add_opposite (f : Float.Model.Format) (u v : UnpackedFloat) :
    UnpackedFloat.sub f u v = .add f u v.neg := by
  cases u <;> cases v <;> try rfl
  case finite.finite s m d hm t n e hn =>
    cases t with
    | positive => rfl
    | negative => exact congrArg (UnpackedFloat.normalize f · _ .positive) (sub_neg_eq_add _ _)

theorem toBits_sub (x y : Float) : (x - y).toBits.toBitVec = UnpackedFloat.pack .binary64
    (.add .binary64 (.unpack .binary64 x.toBits.toBitVec)
      (.neg (.unpack .binary64 y.toBits.toBitVec))) := by
  rw [← sub_eq_add_opposite]
  rfl

theorem Unpacks.neg (h : Unpacks r u) :
    ∃ q, Unpacks q u.neg ∧ (∀ a, r.level = some (.of a) → q.level = some (.of (-a))) := by
  cases h with
  | nan => exact ⟨_, .nan, fun a ha => by cases ha⟩
  | infinite s =>
    refine ⟨_, .infinite (-s), fun a ha => ?_⟩
    cases s with
    | positive => exact absurd (Option.some.inj ha).symm (level_lt_top a).ne
    | negative => exact absurd (Option.some.inj ha) (bot_lt_level a).ne
  | zero s e =>
    refine ⟨_, .zero (-s) e, fun a ha => ?_⟩
    rw [← Level.of_inj.mp (Option.some.inj ha), value_zero, neg_zero]
    exact congrArg (fun v => some (Level.of v)) (value_zero _ _)
  | @finite s m e hm hf =>
    refine ⟨_, .finite (-s) hm hf, fun a ha => ?_⟩
    rw [← Level.of_inj.mp (Option.some.inj ha)]
    refine congrArg (fun v => some (Level.of v)) ?_
    cases s with
    | positive => exact value_neg m e
    | negative => exact (neg_eq_iff_eq_neg.mpr (value_neg m e)).symm

theorem sub_rounds (hx : level x = some (.of a)) (hy : level y = some (.of b)) (h : b ≤ a) :
    ∃ l, level (x - y) = some l ∧ Rounds (a - b) l := by
  obtain ⟨q, hv, hq⟩ := (unpacks y).neg
  rw [← sub_nonneg, sub_eq_add_neg] at h
  rw [sub_eq_add_neg]
  exact (unpacks x).sum_rounds hv hx (hq b hy) h (toBits_sub x y)

theorem sub_of_top (hx : level x = some ⊤) (hy : level y = some (.of a)) :
    level (x - y) = some ⊤ := by
  have hbits := toBits_sub x y
  rw [(unpacks x).eq_infinity hx] at hbits
  obtain ⟨s, hv, -⟩ | ⟨s, m, e, hm, hv, -⟩ := (unpacks y).cases_of hy <;> rw [hv] at hbits <;>
    exact level_of_infinity hbits

theorem sub_of_top_top (hx : level x = some ⊤) (hy : level y = some ⊤) : level (x - y) = none := by
  have hbits := toBits_sub x y
  rw [(unpacks x).eq_infinity hx, (unpacks y).eq_infinity hy] at hbits
  have hnan : x - y = nan := toBits_inj (congrArg BitVec.toNat hbits)
  rw [hnan]
  decide +kernel

end Sum

end Duel.Double
