import Duel.Attack
import Duel.Proofs.Number
import Duel.Proofs.Work

namespace Duel.Attack

variable {R : Type} {ctx : Context R} {res : Resolution} {damage blocked hurt back : Int}

def Context.heal (ctx : Context R) : Int := (ctx.defense.map (·.heal)).getD 0

def Context.defended (ctx : Context R) : Spend.Totals R :=
  .ofSummaries ((ctx.defense.map (·.spends)).getD [])

structure Lands (ctx : Context R) (hurt back : Int) (res : Resolution) : Prop where
  attacker : res.attacker = { ctx.attacker with hp := max 0 (ctx.attacker.hp - back) }
  defender : res.defender = { ctx.defender with hp := (endure ctx.defender hurt ctx.heal).1 }
  reflected : res.summary.reflected =
    if 0 < ctx.attacker.hp then max 0 (ctx.attacker.hp - res.attacker.hp) else 0
  outcome : res.outcome =
    if res.defender.hp ≤ 0 then .defenderDefeated
    else if res.attacker.hp ≤ 0 then .attackerDefeated
    else .goesOn

namespace Lands

theorem attacker_hp (h : Lands ctx hurt back res) (hb : 0 ≤ back) (hp : 0 ≤ ctx.attacker.hp) :
    0 ≤ res.attacker.hp ∧ res.attacker.hp ≤ ctx.attacker.hp := by
  rw [h.attacker]
  dsimp only
  omega

theorem attacker_loss (h : Lands ctx hurt back res) (hb : 0 ≤ back) (hp : 0 < ctx.attacker.hp) :
    res.attacker.hp = ctx.attacker.hp - res.summary.reflected := by
  have ha := h.attacker_hp hb (Int.le_of_lt hp)
  rw [h.reflected, if_pos hp]
  omega

end Lands

theorem endure_bounds {p : Player} {heal : Int} (hd : 0 ≤ hurt) (hp : p.hp ≤ p.hero.maxHp)
    (hm : 0 ≤ p.hero.maxHp) :
    0 ≤ (endure p hurt heal).1 ∧ (endure p hurt heal).1 ≤ p.hero.maxHp := by
  unfold endure
  dsimp only
  split <;> dsimp only <;> omega

variable [Scalar R]

theorem resolve_lands (h : resolve ctx = .ok res) : ∃ damage blocked hurt back,
    dealt damage blocked ctx.defended = .ok hurt ∧ recoil ctx.defense hurt = .ok back ∧
      Lands ctx hurt back res := by
  unfold resolve at h
  obtain ⟨hurt, hd, h⟩ := except_bind_ok h
  obtain ⟨back, hr, h⟩ := except_bind_ok h
  obtain ⟨logs, -, h⟩ := except_bind_ok h
  cases h
  refine ⟨_, _, hurt, back, hd, hr, rfl, rfl, rfl, ?_⟩
  simp only [Summary.outcome, decide_eq_true_eq]

theorem resolve_players (h : resolve ctx = .ok res) :
    res.attacker = { ctx.attacker with hp := res.attacker.hp } ∧
      res.defender = { ctx.defender with hp := res.defender.hp } := by
  obtain ⟨_, _, hurt, back, -, -, l⟩ := resolve_lands h
  rw [l.attacker, l.defender]
  exact ⟨rfl, rfl⟩

variable [Scalar.Signed R]

theorem dealt_nonneg {totals : Spend.Totals R}
    (hf : ∀ f, totals.factor = some f → Scalar.InUnit f)
    (h : dealt damage blocked totals = .ok hurt) : 0 ≤ hurt := by
  unfold dealt at h
  have ht : 0 ≤ if totals.negates = true then 0 else max 0 (damage - blocked) := by
    split
    · exact Int.le_refl 0
    · exact Int.le_max_left _ _
  cases hx : totals.factor with
  | none =>
    simp only [hx] at h
    cases h
    exact ht
  | some f =>
    simp only [hx] at h
    exact Scalar.Signed.scaleDown_nonneg ht (hf f hx).nonneg h

theorem recoil_nonneg {defense : Option (Defense.Resolution R)}
    (hd : ∀ d, defense = some d → d.retaliate = Scalar.zero)
    (h : recoil defense hurt = .ok back) : 0 ≤ back := by
  cases defense with
  | none =>
    cases h
    exact Int.le_refl 0
  | some d =>
    unfold recoil at h
    simp only [hd d rfl, Scalar.Signed.zero_part, Bool.false_eq_true, if_false] at h
    cases h
    omega

end Duel.Attack
