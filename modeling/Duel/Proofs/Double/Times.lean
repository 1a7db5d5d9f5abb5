import Duel.Proofs.Double.Sums

namespace Duel

namespace Scalar

variable {R : Type} [Scalar R]

def Same (x y : R) : Prop := atMost x y = true ∧ atMost y x = true

/-- Whether a time is no further than a span from an earlier one. -/
def within (time last span : R) : Bool :=
  match sub time last with
  | .ok d => atMost d span
  | .error _ => false

/-- Times that stay away from an earlier one once they are further than a span from it. -/
class Dated (R : Type) [Scalar R] where
  IsTime : R → Prop
  atMost_trans {x y z : R} (hx : atMost x y = true) (hy : atMost y z = true) : atMost x z = true
  isTime_measured {t : R} (h : IsTime t) : IsTime (measured t)
  same_measured {t : R} (h : IsTime t) : Same t (measured t)
  sub_isTime {t last : R} (h : IsTime t) (hl : IsTime last) : ∃ d, sub t last = .ok d
  within_mono {t later last last' span : R} (ht : IsTime t) (hlater : IsTime later)
    (hlast : IsTime last) (hlast' : IsTime last') (hs : Same last last')
    (h : atMost last t = true) (hle : atMost t later = true) (hw : within later last' span = true) :
    within t last span = true

variable {x y z : R}

theorem Same.symm (h : Same x y) : Same y x := ⟨h.2, h.1⟩

variable [Dated R]

theorem Same.trans (h : Same x y) (h' : Same y z) : Same x z :=
  ⟨Dated.atMost_trans h.1 h'.1, Dated.atMost_trans h'.2 h.2⟩

theorem Dated.atMost_refl (h : IsTime x) : atMost x x = true :=
  atMost_trans (same_measured h).1 (same_measured h).2

theorem Same.refl (h : Dated.IsTime x) : Same x x := ⟨Dated.atMost_refl h, Dated.atMost_refl h⟩

end Scalar

instance : Scalar.Dated Rat where
  IsTime _ := True
  atMost_trans hx hy := decide_eq_true ((of_decide_eq_true hx).trans (of_decide_eq_true hy))
  isTime_measured _ := trivial
  same_measured _ := ⟨decide_eq_true le_rfl, decide_eq_true le_rfl⟩
  sub_isTime _ _ := ⟨_, rfl⟩
  within_mono {t later last last' span} _ _ _ _ hs _ hle hw := by
    have hlast : last ≤ last' ∧ last' ≤ last :=
      ⟨of_decide_eq_true hs.1, of_decide_eq_true hs.2⟩
    have hle : t ≤ later := of_decide_eq_true hle
    have hw : later - last' ≤ span := of_decide_eq_true hw
    exact decide_eq_true (show t - last ≤ span by linarith)

namespace Double

theorem exists_fits {k : Nat} {e : Int} (hk : k < 2 * leadingBit) (hl : -1074 ≤ e)
    (hm : e ≤ 971) : ∃ m d, Fits m d ∧ (m : Rat) * 2 ^ d = k * 2 ^ e := by
  obtain rfl | hpos := Nat.eq_zero_or_pos k
  · exact ⟨0, -1074, fits_zero, by simp⟩
  have hlog : k.log2 < 53 := (Nat.log2_lt hpos.ne').mpr hk
  -- It is brought to full length, as far as the exponent allows that.
  obtain ⟨n, hn, hfull⟩ : ∃ n, n ≤ 52 - k.log2 ∧ ((n : Int) = e + 1074 ∨ n = 52 - k.log2) ∧
      (n : Int) ≤ e + 1074 := by
    by_cases h : ((52 - k.log2 : Nat) : Int) ≤ e + 1074
    · exact ⟨52 - k.log2, le_rfl, .inr rfl, h⟩
    · exact ⟨(e + 1074).toNat, by omega, .inl (by omega), by omega⟩
  have hsplit : 2 ^ (k.log2 + 1) * 2 ^ n ≤ 2 * leadingBit := by
    rw [← pow_add]
    exact Nat.pow_le_pow_right (by decide) (by omega : k.log2 + 1 + n ≤ 53)
  refine ⟨k * 2 ^ n, e - n, ⟨?_, by omega, by omega, ?_⟩, ?_⟩
  · exact (Nat.mul_lt_mul_of_pos_right Nat.lt_log2_self (Nat.two_pow_pos n)).trans_le hsplit
  · obtain h | rfl := hfull.1
    · exact .inr (by omega)
    · refine .inl (le_trans (le_of_eq ?_) (Nat.mul_le_mul_right _ (Nat.log2_self_le hpos.ne')))
      rw [← pow_add, Nat.add_sub_cancel' (by omega)]
      rfl
  · rw [Nat.cast_mul, Nat.cast_pow, Nat.cast_ofNat, mul_assoc, ← zpow_natCast,
      ← zpow_add₀ two_ne_zero]
    congr 2
    omega

theorem exists_fits_whole {k : Nat} (h : k ≤ 2 ^ 53) :
    ∃ m e, Fits m e ∧ (m : Rat) * 2 ^ e = k := by
  obtain h | rfl := h.lt_or_eq
  · obtain ⟨m, e, hf, hv⟩ := exists_fits (e := 0) h (by decide) (by decide)
    exact ⟨m, e, hf, by rw [hv, zpow_zero, mul_one]⟩
  · refine ⟨leadingBit, 1, ⟨by decide, by decide, by decide, .inl le_rfl⟩, ?_⟩
    norm_num [leadingBit]

theorem ofInt_exact {n : Int} (h : n.natAbs ≤ 2 ^ 53) :
    ∃ x, ofInt? n = .ok x ∧ (Number.whole n).toDouble = x ∧ level x = some (.of n) := by
  obtain ⟨m, e, hf, hv⟩ := exists_fits_whole h
  have hnear : nearest n.natAbs 1 = Float.ofBits (UInt64.ofNat (bitsOf m e)) := by
    refine nearest_of_near Nat.one_pos hf ?_
    rw [Nat.cast_one, div_one, ← hv]
    exact near_self m e
  have hfinite : (nearest n.natAbs 1).isFinite = true :=
    isFinite_iff.mpr ⟨false, m, e, hnear ▸ read_signed hf false⟩
  refine ⟨signed (n < 0) (nearest n.natAbs 1), ?_, rfl, ?_⟩
  · rw [ofInt?]
    exact if_pos hfinite
  · rw [hnear, level_of_read (read_signed hf _), value]
    refine congrArg (fun v => some (Level.of v)) ?_
    by_cases hn : n < 0
    · have habs : (n.natAbs : Rat) = -n := by rw [Nat.cast_natAbs, abs_of_neg hn, Int.cast_neg]
      rw [if_pos (decide_eq_true hn), neg_mul, hv, habs, neg_neg]
    · have habs : (n.natAbs : Rat) = n := by rw [Nat.cast_natAbs, abs_of_nonneg (not_lt.mp hn)]
      rw [if_neg (by simpa using hn), hv, habs]

end Double

namespace Number

/-- What a clock can show: a double that is neither minus infinity nor no number at all, or a whole
number so small that the differences of such numbers are doubles. -/
def IsTime : Number → Prop
  | whole n => n.natAbs ≤ 2 ^ 52
  | double x => Double.read x ≠ .nan ∧ Double.read x ≠ .infinite true

instance : DecidablePred IsTime
  | whole n => inferInstanceAs (Decidable (n.natAbs ≤ 2 ^ 52))
  | double x =>
    inferInstanceAs (Decidable (Double.read x ≠ .nan ∧ Double.read x ≠ .infinite true))

variable {a b c c' t w : Number}

theorem IsTime.toDouble (h : IsTime t) :
    t.double? = .ok t.toDouble ∧ Double.level t.toDouble = t.level := by
  cases t with
  | whole n =>
    have h : n.natAbs ≤ 2 ^ 52 := h
    obtain ⟨x, hx, hd, hl⟩ := Double.ofInt_exact (h.trans (by decide))
    exact ⟨hd.symm ▸ hx, hd.symm ▸ hl⟩
  | double x => exact ⟨rfl, rfl⟩

theorem IsTime.level (h : IsTime t) : t.level = some ⊤ ∨ ∃ v, t.level = some (.of v) := by
  cases t with
  | whole n => exact .inr ⟨n, rfl⟩
  | double x =>
    obtain ⟨hnan, hbottom⟩ := h
    change Double.level x = _ ∨ ∃ v, Double.level x = _
    unfold Double.level
    cases hr : Double.read x with
    | nan => exact absurd hr hnan
    | infinite negative =>
      cases negative
      · exact .inl rfl
      · exact absurd hr hbottom
    | finite negative m e => exact .inr ⟨_, rfl⟩

theorem IsTime.level_measured (h : IsTime t) :
    ∃ l, t.level = some l ∧ (Scalar.measured t).level = some l := by
  have hl := h.toDouble.2
  obtain ht | ⟨v, ht⟩ := h.level
  · exact ⟨⊤, ht, hl.trans ht⟩
  · exact ⟨.of v, ht, hl.trans ht⟩

theorem IsTime.measured (h : IsTime t) : IsTime (Scalar.measured t) := by
  have hl := h.toDouble.2
  change Double.read t.toDouble ≠ .nan ∧ Double.read t.toDouble ≠ .infinite true
  unfold Double.level at hl
  constructor
  · intro hr
    rw [hr] at hl
    obtain ht | ⟨v, ht⟩ := h.level
    · cases hl.trans ht
    · cases hl.trans ht
  · intro hr
    rw [hr] at hl
    obtain ht | ⟨v, ht⟩ := h.level
    · cases Option.some.inj (hl.trans ht)
    · exact (Double.bot_lt_level v).ne (Option.some.inj (hl.trans ht))

/-- What the difference of two times stands for. -/
structure Difference (a c d : Number) : Prop where
  rounds {u v : Rat} (ha : a.level = some (.of u)) (hc : c.level = some (.of v)) (h : v ≤ u) :
    ∃ l, d.level = some l ∧ Double.Rounds (u - v) l
  top {v : Rat} (ha : a.level = some ⊤) (hc : c.level = some (.of v)) : d.level = some ⊤
  none (ha : a.level = some ⊤) (hc : c.level = some ⊤) : d.level = Option.none

theorem sub_double {x y : Float} : Difference (.double x) (.double y) (.double (x - y)) where
  rounds ha hc h := by
    exact Double.sub_rounds ha hc h
  top ha hc := Double.sub_of_top ha hc
  none ha hc := Double.sub_of_top_top ha hc

theorem sub_time (ha : IsTime a) (hc : IsTime c) :
    ∃ d, Scalar.sub a c = .ok d ∧ Difference a c d := by
  obtain ⟨hx, hxl⟩ := ha.toDouble
  obtain ⟨hy, hyl⟩ := hc.toDouble
  have hd : Difference a c (.double (a.toDouble - c.toDouble)) := by
    obtain ⟨hrounds, htop, hnone⟩ := @sub_double a.toDouble c.toDouble
    exact ⟨fun ha hc => hrounds (hxl.trans ha) (hyl.trans hc), fun ha hc => htop (hxl.trans ha)
      (hyl.trans hc), fun ha hc => hnone (hxl.trans ha) (hyl.trans hc)⟩
  have hdouble : (do return Number.double ((← a.double?) - (← c.double?))) =
      Except.ok (.double (a.toDouble - c.toDouble)) := by
    rw [hx, hy]
    rfl
  match a, c with
  | whole n, whole k =>
    have hn : n.natAbs ≤ 2 ^ 52 := ha
    have hk : k.natAbs ≤ 2 ^ 52 := hc
    have htop (i : Int) : level (.whole i) ≠ some ⊤ := by
      intro h
      exact (Double.level_lt_top i).ne (Option.some.inj h)
    refine ⟨.whole (n - k), rfl, ⟨fun {u v} hu hv h => ?_, fun h => absurd h (htop n),
      fun h => absurd h (htop n)⟩⟩
    obtain rfl : (n : Rat) = u := Level.of_inj.mp (Option.some.inj hu)
    obtain rfl : (k : Rat) = v := Level.of_inj.mp (Option.some.inj hv)
    have hle : k ≤ n := by exact_mod_cast h
    obtain ⟨m, e, hf, hm⟩ := Double.exists_fits_whole (show (n - k).natAbs ≤ 2 ^ 53 by omega)
    rw [Nat.cast_natAbs, abs_of_nonneg (Int.sub_nonneg.mpr hle), Int.cast_sub] at hm
    refine ⟨.of (m * 2 ^ e), ?_, ?_⟩
    · rw [hm, ← Int.cast_sub]
      rfl
    · rw [← hm]
      exact .near hf (Double.near_self m e)
  | whole n, double y => exact ⟨_, hdouble, hd⟩
  | double x, whole k => exact ⟨_, hdouble, hd⟩
  | double x, double y => exact ⟨_, hdouble, hd⟩

theorem same_iff : Scalar.Same a b ↔ ∃ l, a.level = some l ∧ b.level = some l := by
  constructor
  · rintro ⟨h, h'⟩
    obtain ⟨l, k, hl, hk, hle⟩ := atMost_iff.mp h
    obtain ⟨k', l', hk', hl', hle'⟩ := atMost_iff.mp h'
    obtain rfl := Option.some.inj (hl.symm.trans hl')
    obtain rfl := Option.some.inj (hk.symm.trans hk')
    exact ⟨l, hl, hk.trans (congrArg some (le_antisymm hle hle').symm)⟩
  · rintro ⟨l, hl, hl'⟩
    exact ⟨atMost_iff.mpr ⟨l, l, hl, hl', le_rfl⟩, atMost_iff.mpr ⟨l, l, hl', hl, le_rfl⟩⟩

theorem within_iff {d : Number} (h : Scalar.sub t c = .ok d) :
    Scalar.within t c w = true ↔ atMost d w = true := by
  rw [Scalar.within, h]
  rfl

theorem within_mono (ha : IsTime a) (hb : IsTime b) (hc : IsTime c) (hc' : IsTime c')
    (hs : Scalar.Same c c') (h : atMost c a = true) (hle : atMost a b = true)
    (hw : Scalar.within b c' w = true) : Scalar.within a c w = true := by
  obtain ⟨d, hd, hdiff⟩ := sub_time ha hc
  obtain ⟨d', hd', hdiff'⟩ := sub_time hb hc'
  obtain ⟨x, y, hx, hy, hxy⟩ := atMost_iff.mp ((within_iff hd').mp hw)
  obtain ⟨γ, hγ, hγ'⟩ := same_iff.mp hs
  obtain ⟨γ', α, hγ'', hα, hγα⟩ := atMost_iff.mp h
  obtain ⟨α', β, hα', hβ, hαβ⟩ := atMost_iff.mp hle
  obtain rfl := Option.some.inj (hγ.symm.trans hγ'')
  obtain rfl := Option.some.inj (hα.symm.trans hα')
  rw [within_iff hd, atMost_iff]
  obtain hv | ⟨v, hv⟩ := hc.level
  · -- At the end of time nothing has a distance.
    obtain rfl := Option.some.inj (hγ.symm.trans hv)
    obtain rfl := top_le_iff.mp hγα
    obtain rfl := top_le_iff.mp hαβ
    rw [hdiff'.none hβ hγ'] at hx
    cases hx
  obtain rfl := Option.some.inj (hγ.symm.trans hv)
  obtain ⟨z, hz, hzx⟩ : ∃ z, d.level = some z ∧ z ≤ x := by
    obtain hβ' | ⟨ub, hβ'⟩ := hb.level
    · obtain rfl : x = ⊤ := Option.some.inj (hx.symm.trans (hdiff'.top hβ' hγ'))
      obtain hα'' | ⟨ua, hα''⟩ := ha.level
      · exact ⟨⊤, hdiff.top hα'' hγ, le_rfl⟩
      · obtain rfl := Option.some.inj (hα.symm.trans hα'')
        obtain ⟨z, hz, -⟩ := hdiff.rounds hα hγ (Level.of_le.mp hγα)
        exact ⟨z, hz, le_top⟩
    · obtain rfl := Option.some.inj (hβ.symm.trans hβ')
      obtain hα'' | ⟨ua, hα''⟩ := ha.level
      · obtain rfl := Option.some.inj (hα.symm.trans hα'')
        exact absurd hαβ (Double.level_lt_top ub).not_ge
      · obtain rfl := Option.some.inj (hα.symm.trans hα'')
        have huv := Level.of_le.mp hγα
        have huu := Level.of_le.mp hαβ
        obtain ⟨z, hz, hr⟩ := hdiff.rounds hα hγ huv
        obtain ⟨z', hz', hr'⟩ := hdiff'.rounds hβ hγ' (huv.trans huu)
        obtain rfl := Option.some.inj (hx.symm.trans hz')
        exact ⟨z, hz, hr.mono hr' (sub_le_sub_right huu v)⟩
  exact ⟨z, y, hz, hy, hzx.trans hxy⟩

instance : Scalar.Dated Number where
  IsTime := IsTime
  atMost_trans hx hy := by
    obtain ⟨a, b, ha, hb, hab⟩ := atMost_iff.mp hx
    obtain ⟨b', c, hb', hc, hbc⟩ := atMost_iff.mp hy
    obtain rfl := Option.some.inj (hb.symm.trans hb')
    exact atMost_iff.mpr ⟨a, c, ha, hc, hab.trans hbc⟩
  isTime_measured h := h.measured
  same_measured h := same_iff.mpr h.level_measured
  sub_isTime h hl := by
    obtain ⟨d, hd, -⟩ := sub_time h hl
    exact ⟨d, hd⟩
  within_mono := within_mono

end Number

end Duel
