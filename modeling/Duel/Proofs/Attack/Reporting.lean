import Duel.Proofs.Attack
import Duel.Proofs.Number
import Duel.Proofs.Spend.Totals
import Mathlib.Algebra.Order.Ring.Unbundled.Rat
import Mathlib.Order.Lattice

namespace Duel.Attack

variable {R : Type}

namespace Context

def force (ctx : Context R) : Int := max 0 (ctx.damage + total (ctx.spends.map (·.damage)))

def answers (ctx : Context R) : List (Spend.Summary R) := (ctx.defense.map (·.spends)).getD []

def guard (ctx : Context R) : Int :=
  max 0 ((ctx.defense.map (·.block)).getD 0) + total (ctx.answers.map (·.block))

def negated (ctx : Context R) : Bool := ctx.answers.any (·.negates)

def factors (ctx : Context R) : List R :=
  ctx.answers.flatMap fun s => s.results.filterMap (·.factor)

def part (ctx : Context Rat) : Rat := min 1 (max 0 ((ctx.defense.map (·.retaliate)).getD 0))

def hurt (ctx : Context Rat) : Int :=
  let through := if ctx.negated then 0 else max 0 (ctx.force - ctx.guard)
  match ctx.factors.min? with
  | some f => ((through : Rat) * f).floor
  | none => through

/-- What goes back to the attacker, who may have less to lose. -/
def recoil (ctx : Context Rat) : Int :=
  max 0 ((ctx.defense.map (·.reflect)).getD 0) + ((ctx.hurt : Rat) * ctx.part).floor

end Context

/-- All parts of a resolution tell of the same attack. -/
structure Reports (ctx : Context Rat) (res : Resolution) : Prop where
  damage : res.summary.damage = ctx.force
  blocked : res.summary.blocked = ctx.guard
  negated : res.summary.negated = ctx.negated
  dealt : res.summary.dealt = ctx.hurt
  healed : res.summary.healed = min ctx.defender.hero.maxHp
    (max 0 (ctx.defender.hp - ctx.hurt) + max 0 ctx.heal) - max 0 (ctx.defender.hp - ctx.hurt)
  defender : res.defender =
    { ctx.defender with hp := max 0 (ctx.defender.hp - ctx.hurt) + res.summary.healed }
  reflected : res.summary.reflected = min ctx.attacker.hp ctx.recoil
  attacker : res.attacker = { ctx.attacker with hp := ctx.attacker.hp - res.summary.reflected }
  defenderDefeated : res.summary.defenderDefeated = decide (res.defender.hp = 0)
  attackerDefeated : res.summary.attackerDefeated = decide (res.attacker.hp = 0)
  outcome : res.outcome =
    if res.defender.hp = 0 then .defenderDefeated
    else if res.attacker.hp = 0 then .attackerDefeated
    else .goesOn
  next : res.next = ctx.defenderSide
  turnEnd : res.turnEnd =
    if res.outcome = .goesOn then some ⟨ctx.defenderSide, ctx.delay⟩ else none
  effects : res.effects =
    (if 0 < ctx.hurt then [⟨ctx.defenderSide, ctx.hurt, .hit⟩] else []) ++
      if 0 < res.summary.reflected
        then [⟨ctx.attackerSide, res.summary.reflected, .reflect⟩] else []

theorem least?_eq (xs : List Rat) : Scalar.least? xs = xs.min? := by
  cases xs with
  | nil => rfl
  | cons x xs =>
    refine congrArg some (congrArg (fun f => xs.foldl f x) ?_)
    funext best y
    change (if decide (y < best) = true then y else best) = min best y
    by_cases h : y < best
    · rw [if_pos (decide_eq_true h), min_eq_right (le_of_lt h)]
    · rw [if_neg (by simpa using h), min_eq_left (not_lt.mp h)]

theorem min?_congr {xs ys : List Rat} (h : ∀ x, x ∈ xs ↔ x ∈ ys) : xs.min? = ys.min? := by
  refine Option.ext fun x => ?_
  rw [List.min?_eq_some_iff, List.min?_eq_some_iff, h]
  simp only [h]

theorem factor_eq (ctx : Context Rat) : ctx.defended.factor = ctx.factors.min? := by
  unfold Spend.Totals.factor
  rw [least?_eq]
  exact min?_congr fun x => Spend.Totals.mem_factors

theorem dealt_eq (ctx : Context Rat) : dealt ctx.force ctx.guard ctx.defended = .ok ctx.hurt := by
  unfold dealt Context.hurt
  have hn : ctx.defended.negates = ctx.negated := Spend.Totals.negates_eq ctx.answers
  rw [factor_eq, hn]
  cases ctx.factors.min? <;> rfl

theorem clampUnit_eq (x : Rat) : Scalar.clampUnit x = min 1 (max 0 x) := by
  have hpos : Scalar.positivePart x = max 0 x := by
    change (if decide (0 < x) = true then x else 0) = max 0 x
    by_cases h : 0 < x
    · rw [if_pos (decide_eq_true h), max_eq_right (le_of_lt h)]
    · rw [if_neg (by simpa using h), max_eq_left (not_lt.mp h)]
  unfold Scalar.clampUnit
  rw [hpos]
  change (if decide (max 0 x < 1) = true then max 0 x else 1) = _
  by_cases h : max 0 x < 1
  · rw [if_pos (decide_eq_true h), min_eq_right (le_of_lt h)]
  · rw [if_neg (by simpa using h), min_eq_left (not_lt.mp h)]

theorem recoil_eq (ctx : Context Rat) : recoil ctx.defense ctx.hurt = .ok ctx.recoil := by
  have hfloor : Rat.floor 0 = 0 := rfl
  unfold Context.recoil Context.part
  cases ctx.defense with
  | none => simp [recoil, hfloor]
  | some d =>
    simp only [recoil, clampUnit_eq, Option.map_some, Option.getD_some]
    by_cases h : 0 < min 1 (max 0 d.retaliate)
    · have hless : Scalar.less Scalar.zero (min 1 (max 0 d.retaliate)) = true := decide_eq_true h
      rw [if_pos hless]
      rfl
    · have hzero : min 1 (max 0 d.retaliate) = 0 :=
        le_antisymm (not_lt.mp h) (le_min (by decide) (le_max_left _ _))
      have hless : Scalar.less Scalar.zero (0 : Rat) = false := by decide
      rw [hzero, hless, Rat.mul_zero, hfloor]
      rfl

/-- The numbers that an attack tells of. -/
def told (ctx : Context R) (s : Summary) : List Int :=
  (if ctx.ability.isSome then [ctx.damage] else []) ++ [s.dealt, s.blocked] ++
    [s.reflected, s.healed].filter (0 < ·)

theorem digits_bind_returns {α : Type} {n : Int} {f : String → α} :
    (∃ b, (do return f (← Number.digits n) : Except Double.Fault α) = .ok b) ↔ Number.Short n := by
  simp only [except_bind_returns, pure_returns, and_true, Number.digits_ok_iff]

theorem lines_returns (ctx : Context R) (s : Summary) (attack defense : Spend.Totals R) :
    (∃ ls, lines ctx s attack defense = .ok ls) ↔ ∀ n ∈ told ctx s, Number.Short n := by
  have hopening : ∀ f : Ability → String → String, (∃ o, ctx.ability.mapM (fun a => do
      return f a (← Number.digits ctx.damage)) = .ok o) ↔
      (ctx.ability.isSome → Number.Short ctx.damage) := by
    intro f
    cases ctx.ability with
    | none => exact iff_of_true ⟨none, rfl⟩ (by simp)
    | some a =>
      have hmap : ∀ x : Except Double.Fault String,
          (∃ o, some <$> x = .ok o) ↔ ∃ t, x = .ok t := by
        rintro (e | t)
        · exact iff_of_false (fun ⟨_, h⟩ => by cases h) fun ⟨_, h⟩ => by cases h
        · exact iff_of_true ⟨_, rfl⟩ ⟨_, rfl⟩
      simp only [Option.mapM_some, Option.isSome_some, true_implies, hmap, digits_bind_returns]
  have hamount : ∀ (n : Int) (f : String → List String), (∃ ls, (if 0 < n
      then do return f (← Number.digits n) else pure [] : Except Double.Fault _) = .ok ls) ↔
      (0 < n → Number.Short n) := by
    intro n f
    by_cases hn : 0 < n
    · simp only [hn, if_true, digits_bind_returns, true_implies]
    · simp only [hn, if_false, pure_returns, false_implies]
  unfold lines told
  simp only [except_bind_returns, pure_returns, exists_and_right, and_true, Number.digits_ok_iff]
  rw [hamount, hamount, hopening]
  cases ctx.ability <;> by_cases hr : 0 < s.reflected <;> by_cases hh : 0 < s.healed <;>
    simp [hr, hh]

def report (ctx : Context Rat) (logs : List String) : Resolution :=
  let (defenderHp, healed) := endure ctx.defender ctx.hurt ctx.heal
  let attackerHp := max 0 (ctx.attacker.hp - ctx.recoil)
  let summary : Summary := {
    damage := ctx.force, dealt := ctx.hurt, blocked := ctx.guard
    reflected := if 0 < ctx.attacker.hp then max 0 (ctx.attacker.hp - attackerHp) else 0
    healed, negated := ctx.negated
    attackerDefeated := decide (attackerHp ≤ 0), defenderDefeated := decide (defenderHp ≤ 0) }
  { attacker := { ctx.attacker with hp := attackerHp }
    defender := { ctx.defender with hp := defenderHp }
    summary
    effects := effects ctx summary
    turnEnd := if summary.outcome = .goesOn then some ⟨ctx.defenderSide, ctx.delay⟩ else none
    outcome := summary.outcome
    next := ctx.defenderSide
    logs }

theorem resolve_eq (ctx : Context Rat) : resolve ctx =
    (lines ctx (report ctx []).summary (.ofSummaries ctx.spends) ctx.defended).map
      (report ctx) := by
  have hforce : max 0 (ctx.damage + (Spend.Totals.ofSummaries ctx.spends).damage) = ctx.force := by
    rw [Spend.Totals.damage_eq, Context.force]
  have hguard : max 0 ((ctx.defense.map (·.block)).getD 0) + ctx.defended.block = ctx.guard := by
    rw [Context.defended, Spend.Totals.block_eq]
    rfl
  have hnegated : ctx.defended.negates = ctx.negated := Spend.Totals.negates_eq ctx.answers
  unfold resolve
  dsimp only
  rw [← Context.defended, hforce, hguard, hnegated, dealt_eq]
  change (recoil ctx.defense ctx.hurt >>= _) = _
  rw [recoil_eq]
  change (lines ctx (report ctx []).summary (.ofSummaries ctx.spends) ctx.defended >>= _) = _
  cases lines ctx (report ctx []).summary (.ofSummaries ctx.spends) ctx.defended <;> rfl

theorem floor_mul_nonneg {n : Int} {x : Rat} (hn : 0 ≤ n) (hx : 0 ≤ x) :
    0 ≤ ((n : Rat) * x).floor :=
  Rat.le_floor_iff.mpr (Rat.mul_nonneg (Rat.intCast_nonneg.mpr hn) hx)

theorem Context.hurt_nonneg {ctx : Context Rat} (hf : ∀ f ∈ ctx.factors, 0 ≤ f) : 0 ≤ ctx.hurt := by
  have hthrough : 0 ≤ if ctx.negated then 0 else max 0 (ctx.force - ctx.guard) := by
    split
    · exact Int.le_refl 0
    · exact Int.le_max_left _ _
  unfold Context.hurt
  cases hmin : ctx.factors.min? with
  | none => exact hthrough
  | some f => exact floor_mul_nonneg hthrough (hf f (List.min?_mem hmin))

theorem Context.recoil_nonneg {ctx : Context Rat} (h : 0 ≤ ctx.hurt) : 0 ≤ ctx.recoil :=
  Int.add_nonneg (Int.le_max_left _ _)
    (floor_mul_nonneg h (le_min (by decide) (le_max_left _ _)))

theorem endure_eq {p : Player} {damage : Int} (heal : Int) (hd : 0 ≤ damage)
    (hp : p.hp ≤ p.hero.maxHp) (hm : 0 ≤ p.hero.maxHp) :
    let left := max 0 (p.hp - damage)
    let healed := min p.hero.maxHp (left + max 0 heal) - left
    endure p damage heal = (left + healed, healed) := by
  unfold endure
  split
  · simp only [Prod.mk.injEq]
    omega
  · simp only [Prod.mk.injEq]
    omega

theorem reports_report (ctx : Context Rat) (ha : 0 ≤ ctx.attacker.hp)
    (hd : 0 ≤ ctx.defender.hp) (hm : ctx.defender.hp ≤ ctx.defender.hero.maxHp)
    (hf : ∀ f ∈ ctx.factors, 0 ≤ f) (logs : List String) : Reports ctx (report ctx logs) := by
  have hhurt := Context.hurt_nonneg hf
  have hrecoil := Context.recoil_nonneg hhurt
  have hendure := endure_eq ctx.heal hhurt hm (by omega)
  have hreflected : (if 0 < ctx.attacker.hp
      then max 0 (ctx.attacker.hp - max 0 (ctx.attacker.hp - ctx.recoil)) else 0) =
      min ctx.attacker.hp ctx.recoil := by omega
  have hattacker : max 0 (ctx.attacker.hp - ctx.recoil) =
      ctx.attacker.hp - min ctx.attacker.hp ctx.recoil := by omega
  have hdown : ∀ {n : Int}, 0 ≤ n → decide (n ≤ 0) = decide (n = 0) := by
    intro n hn
    rw [decide_eq_decide]
    omega
  have hleft : 0 ≤ (endure ctx.defender ctx.hurt ctx.heal).1 := by
    rw [hendure]
    omega
  have hkept : 0 ≤ max 0 (ctx.attacker.hp - ctx.recoil) := Int.le_max_left _ _
  have hdefeated : (report ctx logs).summary.defenderDefeated =
      decide ((report ctx logs).defender.hp = 0) := hdown hleft
  have hfallen : (report ctx logs).summary.attackerDefeated =
      decide ((report ctx logs).attacker.hp = 0) := hdown hkept
  have hend : (report ctx logs).outcome =
      if (report ctx logs).defender.hp = 0 then .defenderDefeated
      else if (report ctx logs).attacker.hp = 0 then .attackerDefeated else .goesOn := by
    change (report ctx logs).summary.outcome = _
    unfold Summary.outcome
    rw [hdefeated, hfallen]
    simp only [decide_eq_true_eq]
  refine ⟨rfl, rfl, rfl, rfl, ?_, ?_, hreflected, ?_, hdefeated, hfallen, hend, rfl, rfl, rfl⟩
  · exact congrArg Prod.snd hendure
  · simp only [report, hendure]
  · have hlost : max 0 (ctx.attacker.hp - ctx.recoil) =
        ctx.attacker.hp - (report ctx logs).summary.reflected :=
      hattacker.trans (congrArg (ctx.attacker.hp - ·) hreflected.symm)
    exact congrArg (fun hp => { ctx.attacker with hp }) hlost

/-- An attack comes to what all parts of its resolution tell of. Only where one of the numbers is
too long to be written is nothing told at all. -/
theorem resolve_reports (ctx : Context Rat) (ha : 0 ≤ ctx.attacker.hp) (hd : 0 ≤ ctx.defender.hp)
    (hm : ctx.defender.hp ≤ ctx.defender.hero.maxHp) (hf : ∀ f ∈ ctx.factors, 0 ≤ f ∧ f ≤ 1) :
    ∃ res, Reports ctx res ∧
      resolve ctx = (lines ctx res.summary (.ofSummaries ctx.spends) ctx.defended).map
        (fun logs => { res with logs }) ∧
      ((∃ r, resolve ctx = .ok r) ↔ ∀ n ∈ told ctx res.summary, Number.Short n) := by
  refine ⟨report ctx [], reports_report ctx ha hd hm (fun f h => (hf f h).1) [], resolve_eq ctx, ?_⟩
  rw [← lines_returns ctx _ (.ofSummaries ctx.spends) ctx.defended, resolve_eq]
  cases lines ctx (report ctx []).summary (.ofSummaries ctx.spends) ctx.defended with
  | error fault => exact iff_of_false (fun ⟨_, h⟩ => by cases h) fun ⟨_, h⟩ => by cases h
  | ok logs => exact iff_of_true ⟨_, rfl⟩ ⟨_, rfl⟩

def clash : Context Rat where
  attackerSide := .you
  defenderSide := .ai
  attacker := { side := .you, hero := { id := "duelist", name := "Duelist", maxHp := 20 }, hp := 4 }
  defender := { side := .ai, hero := { id := "mirror", name := "Mirror", maxHp := 20 }, hp := 5 }
  damage := 14
  spends := [
    { id := "focus", spent := 1, damage := 5 }, { id := "doubt", spent := 1, damage := -3 }]
  defense := some {
    block := 3, reflect := 2, heal := 4, retaliate := 3 / 2
    spends := [
      { id := "veil", spent := 1, results := [{ factor := some (3 / 4) }] },
      { id := "sloth", spent := 1, block := -1, results := [{ factor := some (1 / 2) }] }] }

theorem resolve_reports_clash :
    0 ≤ clash.attacker.hp ∧ 0 ≤ clash.defender.hp ∧
    clash.defender.hp ≤ clash.defender.hero.maxHp ∧ (∀ f ∈ clash.factors, 0 ≤ f ∧ f ≤ 1) ∧
    ∃ res, Reports clash res ∧ res.summary.dealt = 7 ∧ res.defender.hp = 4 ∧
      res.summary.reflected = 4 ∧ res.outcome = .attackerDefeated ∧
      ∃ r, resolve clash = .ok r := by
  have hd : clash.defender.hp ≤ clash.defender.hero.maxHp := by decide
  have hf : ∀ f ∈ clash.factors, 0 ≤ f ∧ f ≤ 1 := by decide +kernel
  obtain ⟨res, hres, -, hreturns⟩ := resolve_reports clash (by decide) (by decide) hd hf
  have hhurt : clash.hurt = 7 := by decide +kernel
  have hrecoil : clash.recoil = 9 := by decide +kernel
  have hhealed : res.summary.healed = 4 := by
    rw [hres.healed, hhurt]
    decide
  have hreflected : res.summary.reflected = 4 := by
    rw [hres.reflected, hrecoil]
    decide
  have hleft : res.defender.hp = 4 := by
    rw [hres.defender, hhealed, hhurt]
    decide
  have hlost : res.attacker.hp = 0 := by
    rw [hres.attacker, hreflected]
    decide
  have hblocked : res.summary.blocked = 2 := by
    rw [hres.blocked]
    decide +kernel
  have hdealt : res.summary.dealt = 7 := hres.dealt.trans hhurt
  have hout : res.outcome = .attackerDefeated := by
    rw [hres.outcome, hleft, hlost]
    decide
  refine ⟨by decide, by decide, hd, hf, res, hres, hdealt, hleft, hreflected, hout, ?_⟩
  rw [hreturns, told, hdealt, hblocked, hreflected, hhealed]
  decide +kernel

end Duel.Attack
