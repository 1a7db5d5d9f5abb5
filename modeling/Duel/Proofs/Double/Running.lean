import Duel.Proofs.Double.Times
import Duel.Proofs.Work

namespace Duel

namespace Scalar

/-- Times of a clock that starts at zero and is only moved on. It can be brought to any time ahead
that it can show, if not always at once. -/
class Running (R : Type) [Scalar R] extends Dated R where
  /-- What the clock can show. -/
  Reads : R → Prop
  isTime {t : R} (h : Reads t) : IsTime t
  reads_start : Reads (measured zero)
  isLength_start : isLength (measured zero : R) = true
  measure?_eq {t : R} (h : Reads t) : measure? t = some t
  atMost_of_less {t u : R} (h : less t u = true) : atMost t u = true
  atMost_of_not_less {t u : R} (ht : Reads t) (hu : Reads u) (h : less t u = false) :
    atMost u t = true
  reads_add {t ms u : R} (ht : Reads t) (h : add t (positivePart ms) = .ok u) :
    Reads u ∧ atMost t u = true
  add_mono {t u ms v w : R} (ht : Reads t) (hu : Reads u) (h : atMost t u = true)
    (hv : add t (positivePart ms) = .ok v) (hw : add u (positivePart ms) = .ok w) :
    atMost v w = true
  add_start {t : R} (h : Reads t) : ∃ u, add t (measured zero) = .ok u ∧ Same u t
  reaches {t u x y : R} (ht : Reads t) (hu : Reads u) (h : less t u = true)
    (hy : atMost x y = true) (hx : atMost x u = false) :
    ∃ step v later w, add t (positivePart step) = .ok v ∧ add v (positivePart later) = .ok w ∧
      Same w u

variable {R : Type} [Scalar R] {x y z : R}

theorem larger_le (hx : atMost x z = true) (hy : atMost y z = true) :
    atMost (larger x y) z = true := by
  unfold larger
  split
  · exact hy
  · exact hx

theorem positivePart_start : positivePart (measured zero : R) = measured zero := by
  unfold positivePart
  split <;> rfl

namespace Running

variable [Running R]

theorem atMost_refl (h : Reads x) : atMost x x = true := Dated.atMost_refl (isTime h)

theorem reads_larger (hx : Reads x) (hy : Reads y) : Reads (larger x y) := by
  unfold larger
  split
  · exact hy
  · exact hx

theorem le_larger_left (hx : Reads x) (y : R) : atMost x (larger x y) = true := by
  unfold larger
  split
  · exact atMost_of_less ‹_›
  · exact atMost_refl hx

theorem le_larger_right (hx : Reads x) (hy : Reads y) : atMost y (larger x y) = true := by
  unfold larger
  split
  · exact atMost_refl hy
  · exact atMost_of_not_less hx hy (Bool.eq_false_iff.mpr ‹_›)

/-- A clock can be brought to where a time has come, but none that is later than both that time
and its own. -/
theorem arrives {t u x y : R} (ht : Reads t) (hu : Reads u) (hxt : atMost x t = false)
    (hxu : atMost x u = false) (hxy : atMost x y = true) :
    ∃ step v later w, add t (positivePart step) = .ok v ∧ add v (positivePart later) = .ok w ∧
      atMost u w = true ∧ atMost x w = false := by
  cases h : less t u with
  | true =>
    obtain ⟨step, v, later, w, hv, hw, hwu⟩ := reaches ht hu h hxy hxu
    refine ⟨step, v, later, w, hv, hw, hwu.2, Bool.eq_false_iff.mpr fun hx => ?_⟩
    exact Bool.eq_false_iff.mp hxu (Dated.atMost_trans hx hwu.1)
  | false =>
    obtain ⟨v, hv, hvt⟩ := add_start ht
    rw [← positivePart_start] at hv
    obtain ⟨w, hw, hwv⟩ := add_start (reads_add ht hv).1
    rw [← positivePart_start] at hw
    have hwt := hwv.trans hvt
    refine ⟨_, v, _, w, hv, hw, Dated.atMost_trans (atMost_of_not_less ht hu h) hwt.2,
      Bool.eq_false_iff.mpr fun hx => ?_⟩
    exact Bool.eq_false_iff.mp hxt (Dated.atMost_trans hx hwt.1)

end Running

end Scalar

instance : Scalar.Running Rat where
  Reads _ := True
  isTime _ := trivial
  reads_start := trivial
  isLength_start := rfl
  measure?_eq _ := rfl
  atMost_of_less h := decide_eq_true (le_of_lt (of_decide_eq_true h))
  atMost_of_not_less _ _ h := decide_eq_true (not_lt.mp (of_decide_eq_false h))
  reads_add {t ms u} _ h := by
    refine ⟨trivial, decide_eq_true ?_⟩
    obtain rfl : t + Scalar.positivePart ms = u := Except.ok.inj h
    refine le_add_of_nonneg_right ?_
    unfold Scalar.positivePart
    split
    next h => exact le_of_lt (of_decide_eq_true h)
    next => exact le_rfl
  add_mono _ _ h hv hw := by
    rw [← Except.ok.inj hv, ← Except.ok.inj hw]
    exact decide_eq_true (add_le_add_left (of_decide_eq_true h) _)
  add_start {t} _ := ⟨t, congrArg Except.ok (add_zero t), Scalar.Same.refl trivial⟩
  reaches {t u x y} _ _ h _ _ := by
    have hlt : t < u := of_decide_eq_true h
    have hpos : Scalar.positivePart (u - t) = u - t :=
      if_pos (decide_eq_true (show ((0 : Int) : Rat) < u - t from sub_pos.mpr hlt))
    refine ⟨u - t, u, 0, u, ?_, congrArg Except.ok (add_zero u), Scalar.Same.refl trivial⟩
    rw [hpos]
    exact congrArg Except.ok (add_sub_cancel t u)

namespace Double

variable {x y s : Float} {a b c : Rat} {l : Level}

def NotNegative (x : Float) : Prop := ∃ l, level x = some l ∧ .of 0 ≤ l

theorem NotNegative.cases (h : NotNegative x) :
    level x = some ⊤ ∨ ∃ a, level x = some (.of a) ∧ 0 ≤ a := by
  obtain ⟨l, hx, hl⟩ := h
  cases l with
  | none => exact absurd hl (bot_lt_level 0).not_ge
  | some l =>
    cases l with
    | top => exact .inl hx
    | coe a => exact .inr ⟨a, hx, Level.of_le.mp hl⟩

theorem rounds_self (hx : level x = some (.of a)) (ha : 0 ≤ a) : Rounds a (.of a) := by
  obtain ⟨s, -, rfl⟩ | ⟨s, m, e, hm, -, hf, rfl⟩ := (unpacks x).cases_of hx
  · exact rounds_zero
  · exact rounds_of_nonneg hm hf ha

theorem Rounds.of_fits {m : Nat} {e : Int} (h : Fits m e) (ha : (m : Rat) * 2 ^ e = a)
    (hr : Rounds a l) : l = .of a := by
  subst ha
  have hself : Rounds ((m : Rat) * 2 ^ e) (.of (m * 2 ^ e)) := .near h (near_self m e)
  exact le_antisymm (hr.mono hself le_rfl) (hself.mono hr le_rfl)

def Exact (a : Rat) : Prop := ∃ m e, Fits m e ∧ (m : Rat) * 2 ^ e = a

theorem Exact.rounds (h : Exact a) (hr : Rounds a l) : l = .of a := by
  obtain ⟨m, e, hf, ha⟩ := h
  exact hr.of_fits hf ha

theorem exact_of_level (hx : level x = some (.of a)) (ha : 0 ≤ a) : Exact a := by
  obtain ⟨s, -, rfl⟩ | ⟨s, m, e, hm, -, hf, rfl⟩ := (unpacks x).cases_of hx
  · exact ⟨0, -1074, fits_zero, by simp⟩
  · cases s with
    | positive => exact ⟨m, e, hf, rfl⟩
    | negative =>
      rw [signBit, value_neg] at ha
      exact absurd (value_pos hm e) (by linarith)

theorem NotNegative.add (hx : NotNegative x) (hy : NotNegative y) :
    (level x = some ⊤ ∨ level y = some ⊤) ∧ level (x + y) = some ⊤ ∨
      ∃ a b l, level x = some (.of a) ∧ level y = some (.of b) ∧ 0 ≤ a ∧ 0 ≤ b ∧
        level (x + y) = some l ∧ Rounds (a + b) l := by
  obtain ht | ⟨a, ha, ha0⟩ := hx.cases
  · obtain ⟨k, hy, hk⟩ := hy
    exact .inl ⟨.inl ht, add_of_top ht hy (ne_of_gt ((bot_lt_level 0).trans_le hk))⟩
  · obtain ht | ⟨b, hb, hb0⟩ := hy.cases
    · exact .inl ⟨.inr ht, add_to_top ha ht⟩
    · obtain ⟨l, hl, hr⟩ := add_rounds ha hb (add_nonneg ha0 hb0)
      exact .inr ⟨a, b, l, ha, hb, ha0, hb0, hl, hr⟩

theorem NotNegative.le_add (hx : NotNegative x) (hy : NotNegative y) :
    ∃ l k, level x = some l ∧ level (x + y) = some k ∧ .of 0 ≤ l ∧ l ≤ k := by
  obtain ⟨-, ht⟩ | ⟨a, b, k, ha, -, ha0, hb0, hk, hr⟩ := hx.add hy
  · obtain ⟨l, hl, h0⟩ := hx
    exact ⟨l, ⊤, hl, ht, h0, le_top⟩
  · exact ⟨.of a, k, ha, hk, Level.of_le.mpr ha0,
      (rounds_self ha ha0).mono hr (le_add_of_nonneg_right hb0)⟩

theorem NotNegative.add_mono (hx : NotNegative x) (hs : NotNegative s) (hy : NotNegative y)
    {l k : Level} (hl : level x = some l) (hk : level s = some k) (hle : l ≤ k) :
    ∃ p q, level (x + y) = some p ∧ level (s + y) = some q ∧ p ≤ q := by
  obtain ⟨ht, hsum⟩ | ⟨c, b', q, hc, hb', -, -, hq, hr'⟩ := hs.add hy
  · obtain ⟨-, p, -, hp, -⟩ := hx.le_add hy
    exact ⟨p, ⊤, hp, hsum, le_top⟩
  obtain ⟨ht, -⟩ | ⟨a, b, p, ha, hb, -, -, hp, hr⟩ := hx.add hy
  · obtain rfl := Option.some.inj (hc.symm.trans hk)
    obtain ht | ht := ht
    · obtain rfl := Option.some.inj (ht.symm.trans hl)
      exact absurd hle (level_lt_top c).not_ge
    · exact absurd (Option.some.inj (ht.symm.trans hb')) (level_lt_top b').ne'
  · obtain rfl := Option.some.inj (ha.symm.trans hl)
    obtain rfl := Option.some.inj (hc.symm.trans hk)
    obtain rfl := Level.of_inj.mp (Option.some.inj (hb.symm.trans hb'))
    exact ⟨p, q, hp, hq, hr.mono hr' (add_le_add_left (Level.of_le.mp hle) b)⟩

/-- The difference of two doubles that are within a factor of two of each other is exact. -/
theorem exact_sub_of_near (hx : level x = some (.of a)) (hy : level y = some (.of b)) (hb : 0 ≤ b)
    (hle : b ≤ a) (hnear : a ≤ 2 * b) : Exact (a - b) := by
  obtain ⟨n, e, hn, rfl⟩ := exact_of_level hy hb
  obtain ⟨m, d, hm, rfl⟩ := exact_of_level hx (hb.trans hle)
  have hed : e ≤ d := not_lt.mp fun h => (hm.lt_of_exponent hn h).not_ge hle
  have hp := two_zpow_pos e
  have hsplit : (m : Rat) * 2 ^ d = ((m * 2 ^ (d - e).toNat : Nat) : Rat) * 2 ^ e := by
    rw [two_zpow_split hed]
    push_cast
    ring
  rw [hsplit] at hle hnear ⊢
  have hle : n ≤ m * 2 ^ (d - e).toNat := by exact_mod_cast le_of_mul_le_mul_right hle hp
  have hnear : m * 2 ^ (d - e).toNat ≤ 2 * n := by
    rw [← mul_assoc] at hnear
    exact_mod_cast le_of_mul_le_mul_right hnear hp
  have hlt := hn.lt
  obtain ⟨k, f, hf, hv⟩ := exists_fits (k := m * 2 ^ (d - e).toNat - n) (by omega) hn.least hn.most
  exact ⟨k, f, hf, by rw [hv, Nat.cast_sub hle, sub_mul]⟩

/-- Where doubles are as close together as they can be, all differences are exact. -/
theorem exact_sub_of_fine {m : Nat} (hm : Fits m (-1074)) (hx : level x = some (.of a))
    (ha : 0 ≤ a) (hle : a ≤ m * 2 ^ (-1074 : Int)) : Exact (m * 2 ^ (-1074 : Int) - a) := by
  obtain ⟨n, e, hn, rfl⟩ := exact_of_level hx ha
  obtain rfl : e = -1074 := by
    by_contra he
    have hgt : -1074 < e := lt_of_le_of_ne hn.least (Ne.symm he)
    exact (hm.lt_of_exponent hn hgt).not_ge hle
  have hle : n ≤ m := by exact_mod_cast le_of_mul_le_mul_right hle (two_zpow_pos (-1074))
  have hlt := hm.lt
  obtain ⟨k, f, hf, hv⟩ := exists_fits (k := m - n) (e := -1074) (by omega) le_rfl (by decide)
  exact ⟨k, f, hf, by rw [hv, Nat.cast_sub hle, sub_mul]⟩

/-- A step to a time from which the rest of the way is exact. -/
theorem exists_step (hx : level x = some (.of a)) (hy : level y = some (.of b)) (ha : 0 ≤ a)
    (hlt : a < b) : ∃ c, Exact c ∧ 0 ≤ c ∧ ∀ s, level s = some (.of c) →
      ∃ d, level (x + s) = some (.of d) ∧ 0 ≤ d ∧ d ≤ b ∧ Exact (b - d) := by
  obtain ⟨m, e, hf, rfl⟩ := exact_of_level hy (ha.trans hlt.le)
  by_cases hexact : Exact (m * 2 ^ e - a)
  · refine ⟨0, ⟨0, -1074, fits_zero, by simp⟩, le_rfl, fun s hs => ?_⟩
    obtain ⟨k, hk, hr⟩ := add_rounds hx hs (by linarith)
    rw [add_zero] at hr
    rw [(exact_of_level hx ha).rounds hr] at hk
    exact ⟨a, hk, ha, hlt.le, hexact⟩
  · have hleast : -1074 < e := by
      refine lt_of_le_of_ne hf.least fun he => hexact ?_
      subst he
      exact exact_sub_of_fine hf hx ha hlt.le
    have hhalf : Fits m (e - 1) := by
      have hm := hf.normal.resolve_right hleast.ne'
      have hmost := hf.most
      exact ⟨hf.lt, by omega, by omega, .inl hm⟩
    have htwice : (m : Rat) * 2 ^ e = 2 * (m * 2 ^ (e - 1)) := by
      have hsucc := two_zpow_succ (e - 1)
      rw [sub_add_cancel] at hsucc
      rw [hsucc]
      ring
    have hc : (0 : Rat) ≤ m * 2 ^ (e - 1) := by positivity
    -- Half of the way to `y` and at most as far again, since `x` is not within half of it.
    have hfar : a < m * 2 ^ (e - 1) := by
      by_contra hnear
      exact hexact (exact_sub_of_near hy hx ha hlt.le (by linarith))
    refine ⟨m * 2 ^ (e - 1), ⟨m, e - 1, hhalf, rfl⟩, hc, fun s hs => ?_⟩
    obtain ⟨k, hk, hr⟩ := add_rounds hx hs (add_nonneg ha hc)
    have hlow := (rounds_self hs hc).mono hr (le_add_of_nonneg_left ha)
    have hhigh := hr.mono (rounds_self hy (ha.trans hlt.le)) (by linarith)
    obtain ⟨d, rfl⟩ : ∃ d, k = .of d := by
      cases hr with
      | near hf hx => exact ⟨_, rfl⟩
      | huge h => exact absurd hhigh (level_lt_top _).not_ge
    have hlow := Level.of_le.mp hlow
    have hhigh := Level.of_le.mp hhigh
    exact ⟨d, hk, hc.trans hlow, hhigh, exact_sub_of_near hy hk (hc.trans hlow) hhigh (by linarith)⟩

theorem add_exact (hx : level x = some (.of a)) (hs : level s = some (.of c)) (h : 0 ≤ a + c)
    (hexact : Exact (a + c)) : level (x + s) = some (.of (a + c)) := by
  obtain ⟨k, hk, hr⟩ := add_rounds hx hs h
  rwa [hexact.rounds hr] at hk

theorem notNegative_of_bits (hx : x.isFinite = true) (h : x.toBits.toNat < endBits) :
    NotNegative x := by
  obtain ⟨negative, m, e, hr⟩ := isFinite_iff.mp hx
  have hbits := toBits_of_read hr
  cases negative with
  | true =>
    have hsign : endBits ≤ signBits true := by decide
    omega
  | false =>
    have hv : 0 ≤ value false m e := mul_nonneg (Nat.cast_nonneg m) (two_zpow_pos e).le
    exact ⟨_, level_of_read hr, Level.of_le.mpr hv⟩

theorem ofInt_ok {n : Int} (h : ofInt? n = .ok x) :
    (nearest n.natAbs 1).isFinite = true ∧ signed (n < 0) (nearest n.natAbs 1) = x := by
  unfold ofInt? at h
  dsimp only at h
  split at h
  next hf => exact ⟨hf, Except.ok.inj h⟩
  next => cases h

theorem nearest_notNegative {num den : Nat} (h : (nearest num den).isFinite = true) :
    NotNegative (nearest num den) := by
  refine notNegative_of_bits h ?_
  by_cases hn : num = 0
  · rw [nearest, if_pos hn]
    decide
  · rw [nearest_eq hn] at h ⊢
    dsimp only at h ⊢
    split at h
    next => exact absurd h (by decide +kernel)
    next hlt =>
      rw [if_neg hlt, toBits_ofBits (not_le.mp hlt)]
      exact not_le.mp hlt

end Double

namespace Number

variable {x y : Float} {ms n : Number} {c : Rat}

def Reads : Number → Prop
  | whole _ => False
  | double x => Double.NotNegative x

theorem Reads.isDouble {t : Number} (h : Reads t) : ∃ x, t = .double x ∧ Double.NotNegative x := by
  cases t with
  | whole n => exact h.elim
  | double x => exact ⟨x, rfl, h⟩

theorem exists_start : ∃ z, Scalar.measured (Scalar.zero : Number) = .double z ∧
    Double.level z = some (.of 0) := by
  obtain ⟨z, -, hz, hl⟩ := Double.ofInt_exact (n := 0) (by decide)
  exact ⟨z, congrArg double hz, by exact_mod_cast hl⟩

theorem add_double (x : Float) (n : Number) :
    Scalar.add (.double x) n = n.double?.map fun y => .double (x + y) := by
  cases n with
  | whole n =>
    change (Double.ofInt? n >>= fun y => Except.ok (Number.double (x + y))) =
      (Double.ofInt? n).map fun y => Number.double (x + y)
    cases Double.ofInt? n <;> rfl
  | double y => rfl

theorem notNegative_positivePart (h : (Scalar.positivePart ms).double? = .ok y) :
    Double.NotNegative y := by
  unfold Scalar.positivePart at h
  split at h
  next hpos =>
    obtain ⟨l, k, hl, hk, hlt⟩ := less_iff.mp hpos
    obtain rfl : Level.of ((0 : Int) : Rat) = l := Option.some.inj hl
    rw [Int.cast_zero] at hlt
    cases ms with
    | whole n =>
      have hn : ¬n < 0 := by
        obtain rfl : Level.of n = k := Option.some.inj hk
        exact_mod_cast (Level.of_le.mp hlt.le).not_gt
      obtain ⟨hfinite, rfl⟩ := Double.ofInt_ok h
      rw [decide_eq_false hn, Double.signed, if_neg Bool.false_ne_true]
      exact Double.nearest_notNegative hfinite
    | double x =>
      obtain rfl : x = y := Except.ok.inj h
      exact ⟨k, hk, hlt.le⟩
  next =>
    obtain ⟨z, hz, hl⟩ := exists_start
    rw [hz] at h
    obtain rfl : z = y := Except.ok.inj h
    exact ⟨_, hl, le_rfl⟩

theorem add_positivePart (h : Scalar.add (.double x) (Scalar.positivePart ms) = .ok n) :
    ∃ y, (Scalar.positivePart ms).double? = .ok y ∧ Double.NotNegative y ∧ n = .double (x + y) := by
  rw [add_double] at h
  obtain ⟨y, hy, rfl⟩ := except_map_ok h
  exact ⟨y, hy, notNegative_positivePart hy, rfl⟩

theorem exists_positivePart (h : Double.Exact c) (hc : 0 ≤ c) :
    ∃ ms y, Scalar.positivePart ms = Number.double y ∧ Double.level y = some (.of c) := by
  obtain ⟨m, e, hf, rfl⟩ := h
  obtain ⟨s, hs⟩ : ∃ s, Double.level s = some (.of (m * 2 ^ e)) :=
    ⟨_, Double.level_of_read (Double.read_signed hf false)⟩
  refine ⟨.double s, ?_⟩
  unfold Scalar.positivePart
  split
  next => exact ⟨s, rfl, hs⟩
  next hpos =>
    obtain h0 | hc := hc.eq_or_lt
    · rw [← h0]
      exact exists_start
    · refine absurd ?_ hpos
      refine (less_iff (x := .whole 0) (y := .double s)).mpr ⟨.of ((0 : Int) : Rat), _, rfl, hs, ?_⟩
      exact_mod_cast Double.level_lt hc

/-- A clock can be brought to any finite time in two steps. -/
theorem reaches (hx : Double.NotNegative x) (hy : Double.NotNegative y)
    (h : less (.double x) (.double y) = true) (hfin : Double.level y ≠ some ⊤) :
    ∃ step v later w : Number, Scalar.add (.double x) (Scalar.positivePart step) = .ok v ∧
      Scalar.add v (Scalar.positivePart later) = .ok w ∧ Scalar.Same w (.double y) := by
  obtain ⟨l, k, hl, hk, hlt⟩ := less_iff.mp h
  obtain ⟨b, hb, -⟩ := hy.cases.resolve_left hfin
  obtain rfl : .of b = k := Option.some.inj (hb.symm.trans hk)
  obtain htop | ⟨a, ha, ha0⟩ := hx.cases
  · obtain rfl : ⊤ = l := Option.some.inj (htop.symm.trans hl)
    exact absurd hlt (Double.level_lt_top b).not_gt
  obtain rfl : .of a = l := Option.some.inj (ha.symm.trans hl)
  have hab : a < b := not_le.mp fun hba => hlt.not_ge (Level.of_le.mpr hba)
  obtain ⟨c, hexact, hc, hstep⟩ := Double.exists_step ha hb ha0 hab
  obtain ⟨step, s, hs, hsc⟩ := exists_positivePart hexact hc
  obtain ⟨d, hd, hd0, hdb, hrest⟩ := hstep s hsc
  obtain ⟨later, r, hr, hrc⟩ := exists_positivePart hrest (sub_nonneg.mpr hdb)
  refine ⟨step, .double (x + s), later, .double (x + s + r), hs ▸ rfl, hr ▸ rfl, ?_⟩
  have hw := Double.add_exact hd hrc (by linarith) (by
    rw [add_sub_cancel]
    exact Double.exact_of_level hb (ha0.trans hab.le))
  rw [add_sub_cancel] at hw
  exact same_iff.mpr ⟨_, hw, hb⟩

instance : Scalar.Running Number where
  Reads := Reads
  isTime {t} h := by
    obtain ⟨x, rfl, l, hl, h0⟩ := h.isDouble
    unfold Double.level at hl
    constructor
    · intro hr
      rw [hr] at hl
      cases hl
    · intro hr
      rw [hr] at hl
      obtain rfl : ⊥ = l := Option.some.inj hl
      exact absurd h0 (Double.bot_lt_level 0).not_ge
  reads_start := by
    obtain ⟨z, hz, hl⟩ := exists_start
    rw [hz]
    exact ⟨_, hl, le_rfl⟩
  isLength_start := by decide +kernel
  measure?_eq {t} h := by
    obtain ⟨x, rfl, -⟩ := h.isDouble
    change (if x.isFinite && !x.isFinite then none else some (Number.double x)) = _
    rw [Bool.and_not_self]
    rfl
  atMost_of_less {t u} h := by
    obtain ⟨l, k, hl, hk, hlt⟩ := less_iff.mp h
    exact atMost_iff.mpr ⟨l, k, hl, hk, hlt.le⟩
  atMost_of_not_less {t u} ht hu h := by
    obtain ⟨x, rfl, l, hl, -⟩ := ht.isDouble
    obtain ⟨y, rfl, k, hk, -⟩ := hu.isDouble
    refine atMost_iff.mpr ⟨k, l, hk, hl, not_lt.mp fun hlt => ?_⟩
    exact Bool.eq_false_iff.mp h (less_iff.mpr ⟨l, k, hl, hk, hlt⟩)
  reads_add {t ms u} ht h := by
    obtain ⟨x, rfl, hx⟩ := ht.isDouble
    obtain ⟨y, -, hy, rfl⟩ := add_positivePart h
    obtain ⟨l, k, hl, hk, h0, hle⟩ := hx.le_add hy
    exact ⟨⟨k, hk, h0.trans hle⟩, atMost_iff.mpr ⟨l, k, hl, hk, hle⟩⟩
  add_mono {t u ms v w} ht hu h hv hw := by
    obtain ⟨x, rfl, hx⟩ := ht.isDouble
    obtain ⟨s, rfl, hs⟩ := hu.isDouble
    obtain ⟨y, hms, hy, rfl⟩ := add_positivePart hv
    obtain ⟨y', hms', -, rfl⟩ := add_positivePart hw
    obtain rfl : y = y' := Except.ok.inj (hms.symm.trans hms')
    obtain ⟨l, k, hl, hk, hle⟩ := atMost_iff.mp h
    obtain ⟨p, q, hp, hq, hpq⟩ := hx.add_mono hs hy hl hk hle
    exact atMost_iff.mpr ⟨p, q, hp, hq, hpq⟩
  add_start {t} ht := by
    obtain ⟨x, rfl, hx⟩ := ht.isDouble
    obtain ⟨z, hz, hz0⟩ := exists_start
    refine ⟨.double (x + z), hz ▸ rfl, same_iff.mpr ?_⟩
    obtain htop | ⟨a, ha, ha0⟩ := hx.cases
    · exact ⟨⊤, Double.add_of_top htop hz0 (Double.bot_lt_level 0).ne', htop⟩
    · have h := Double.add_exact ha hz0 ((add_zero a).symm ▸ ha0)
        ((add_zero a).symm ▸ Double.exact_of_level ha ha0)
      exact ⟨.of a, add_zero a ▸ h, ha⟩
  reaches {t u z due} ht hu h hz hlate := by
    obtain ⟨x, rfl, hx⟩ := ht.isDouble
    obtain ⟨y, rfl, hy⟩ := hu.isDouble
    refine reaches hx hy h fun htop => ?_
    -- Nothing is later than the end of time.
    obtain ⟨l, -, hl, -⟩ := atMost_iff.mp hz
    exact Bool.eq_false_iff.mp hlate (atMost_iff.mpr ⟨l, ⊤, hl, htop, le_top⟩)

end Number

end Duel
