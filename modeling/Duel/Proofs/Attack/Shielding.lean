import Duel.Proofs.Attack.Reporting
import Mathlib.Algebra.Order.Field.Rat
import Mathlib.Logic.Relation

namespace Duel.Attack

open Relation (ReflTransGen)

namespace Context

variable {R : Type}

def against (ctx : Context R) (d : Defense.Resolution R) : Context R :=
  { ctx with defense := some d }

def through (ctx : Context R) : Int := if ctx.negated then 0 else max 0 (ctx.force - ctx.guard)

theorem through_nonneg (ctx : Context R) : 0 ≤ ctx.through := by
  unfold through
  split
  · exact Int.le_refl 0
  · exact Int.le_max_left _ _

theorem through_le {ctx ctx' : Context R} (hforce : ctx'.force ≤ ctx.force)
    (hguard : ctx.guard ≤ ctx'.guard) (hnegated : ctx.negated → ctx'.negated) :
    ctx'.through ≤ ctx.through := by
  by_cases h : ctx'.negated = true
  · exact (if_pos h).le.trans ctx.through_nonneg
  · unfold through
    rw [if_neg h, if_neg fun hn => h (hnegated hn)]
    omega

def share (ctx : Context Rat) : Rat := ctx.factors.min?.getD 1

theorem hurt_eq (ctx : Context Rat) : ctx.hurt = ((ctx.through : Rat) * ctx.share).floor := by
  unfold hurt share
  cases ctx.factors.min? with
  | none => exact (congrArg Rat.floor (mul_one _)).symm ▸ (Rat.floor_intCast _).symm
  | some f => rfl

theorem share_nonneg {ctx : Context Rat} (hf : ∀ f ∈ ctx.factors, 0 ≤ f) : 0 ≤ ctx.share := by
  unfold share
  cases h : ctx.factors.min? with
  | none => exact zero_le_one
  | some f => exact hf f (List.min?_mem h)

theorem share_le {ctx ctx' : Context Rat} (hold : ∀ f ∈ ctx.factors, f ∈ ctx'.factors)
    (hnew : ∀ f ∈ ctx'.factors, f ∈ ctx.factors ∨ f ≤ 1) : ctx'.share ≤ ctx.share := by
  unfold share
  cases h' : ctx'.factors.min? with
  | none =>
    have hnil : ctx.factors = [] := by
      refine List.eq_nil_iff_forall_not_mem.mpr fun f hf => ?_
      have := hold f hf
      rw [List.min?_eq_none_iff.mp h'] at this
      cases this
    rw [hnil]
    rfl
  | some f' =>
    obtain ⟨hmem, hleast⟩ := List.min?_eq_some_iff.mp h'
    cases h : ctx.factors.min? with
    | none =>
      rw [List.min?_eq_none_iff.mp h] at hnew
      exact (hnew f' hmem).resolve_left List.not_mem_nil
    | some f => exact hleast f (hold f (List.min?_mem h))

theorem hurt_le {ctx ctx' : Context Rat} (hthrough : ctx'.through ≤ ctx.through)
    (hshare : ctx'.share ≤ ctx.share) (hf : ∀ f ∈ ctx'.factors, 0 ≤ f) : ctx'.hurt ≤ ctx.hurt := by
  have hproduct : (ctx'.through : Rat) * ctx'.share ≤ ctx.through * ctx.share :=
    mul_le_mul (Rat.intCast_le_intCast.mpr hthrough) hshare (share_nonneg hf)
      (Rat.intCast_nonneg.mpr ctx.through_nonneg)
  rw [hurt_eq, hurt_eq]
  exact Rat.le_floor_iff.mpr ((Rat.le_floor_iff.mp (Int.le_refl _)).trans hproduct)

end Context

/-- A spend brings no block below zero, and lets through some part of the damage. -/
def Shielding (s : Spend.Summary Rat) : Prop :=
  0 ≤ s.block ∧ ∀ r ∈ s.results, ∀ f, r.factor = some f → 0 ≤ f ∧ f ≤ 1

/-- A defence is braced by a further spend, wherever it comes, or by more block. -/
inductive Braces (d : Defense.Resolution Rat) : Defense.Resolution Rat → Prop
  | spend {before after : List (Spend.Summary Rat)} {s : Spend.Summary Rat}
    (hd : d.spends = before ++ after) (hs : Shielding s) :
    Braces d { d with spends := before ++ s :: after }
  | block {block : Int} (h : d.block ≤ block) : Braces d { d with block }

/-- An attack is pressed by a further spend, wherever it comes, or by more damage. -/
inductive Presses (ctx : Context Rat) : Context Rat → Prop
  | spend {before after : List (Spend.Summary Rat)} {s : Spend.Summary Rat}
    (hc : ctx.spends = before ++ after) (hs : 0 ≤ s.damage) :
    Presses ctx { ctx with spends := before ++ s :: after }
  | damage {damage : Int} (h : ctx.damage ≤ damage) : Presses ctx { ctx with damage }

theorem total_insert {R : Type} (f : Spend.Summary R → Int) (before after : List (Spend.Summary R))
    (s : Spend.Summary R) :
    total ((before ++ s :: after).map f) = f s + total ((before ++ after).map f) :=
  total_perm (List.perm_middle.map f)

/-- What does not change if a defence is braced, and what can only get less. -/
structure Eases (ctx : Context Rat) (d d' : Defense.Resolution Rat) : Prop where
  reflect : d'.reflect = d.reflect
  retaliate : d'.retaliate = d.retaliate
  heal : d'.heal = d.heal
  hurt : (ctx.against d').hurt ≤ (ctx.against d).hurt
  factors : ∀ f ∈ (ctx.against d').factors, 0 ≤ f

theorem Braces.eases {ctx : Context Rat} {d d' : Defense.Resolution Rat} (h : Braces d d')
    (hf : ∀ f ∈ (ctx.against d).factors, 0 ≤ f) : Eases ctx d d' := by
  cases h with
  | @spend before after s hd hs =>
    -- Neither a sum, nor the least factor, nor a negation depends on where the spend stands.
    have hbrought : ∀ f ∈ s.results.filterMap (·.factor), 0 ≤ f ∧ f ≤ 1 := by
      intro f hf
      obtain ⟨r, hr, hf⟩ := List.mem_filterMap.mp hf
      exact hs.2 r hr f hf
    have hfactors : ∀ f, f ∈ (ctx.against { d with spends := before ++ s :: after }).factors ↔
        f ∈ s.results.filterMap (·.factor) ∨ f ∈ (ctx.against d).factors := by
      intro f
      change f ∈ (before ++ s :: after).flatMap _ ↔ _ ∨ f ∈ d.spends.flatMap _
      rw [hd]
      simp only [List.flatMap_append, List.flatMap_cons, List.mem_append]
      exact or_left_comm
    have hnonneg : ∀ f ∈ (ctx.against { d with spends := before ++ s :: after }).factors, 0 ≤ f :=
      fun f hm => ((hfactors f).mp hm).elim (fun hm => (hbrought f hm).1) (hf f)
    refine ⟨rfl, rfl, rfl, Context.hurt_le (Context.through_le (Int.le_refl _) ?_ ?_)
      (Context.share_le (fun f hm => (hfactors f).mpr (.inr hm)) fun f hm => ?_) hnonneg, hnonneg⟩
    · change max 0 d.block + total (d.spends.map _) ≤
        max 0 d.block + total ((before ++ s :: after).map _)
      rw [total_insert, ← hd]
      have := hs.1
      omega
    · change d.spends.any _ = true → (before ++ s :: after).any _ = true
      rw [hd]
      simp only [List.any_append, List.any_cons, Bool.or_eq_true]
      exact fun hn => hn.imp_right .inr
    · exact ((hfactors f).mp hm).symm.imp_right fun hm => (hbrought f hm).2
  | @block block hblock =>
    refine ⟨rfl, rfl, rfl, Context.hurt_le (Context.through_le (Int.le_refl _) ?_ id) le_rfl hf, hf⟩
    change max 0 d.block + _ ≤ max 0 block + _
    exact Int.add_le_add_right (by omega) _

theorem eases_of_braces {ctx : Context Rat} {d d' : Defense.Resolution Rat}
    (h : ReflTransGen Braces d d') (hf : ∀ f ∈ (ctx.against d).factors, 0 ≤ f) :
    Eases ctx d d' := by
  induction h with
  | refl => exact ⟨rfl, rfl, rfl, Int.le_refl _, hf⟩
  | tail _ h ih =>
    have hstep := h.eases ih.factors
    exact ⟨hstep.reflect.trans ih.reflect, hstep.retaliate.trans ih.retaliate,
      hstep.heal.trans ih.heal, hstep.hurt.trans ih.hurt, hstep.factors⟩

structure Strains (ctx ctx' : Context Rat) : Prop where
  defense : ctx'.defense = ctx.defense
  hurt : ctx.hurt ≤ ctx'.hurt

theorem Presses.strains {ctx ctx' : Context Rat} (h : Presses ctx ctx')
    (hf : ∀ f ∈ ctx.factors, 0 ≤ f) : Strains ctx ctx' := by
  cases h with
  | @spend before after s hc hs =>
    refine ⟨rfl, Context.hurt_le (Context.through_le ?_ (Int.le_refl _) id) le_rfl hf⟩
    change max 0 (ctx.damage + total (ctx.spends.map _)) ≤
      max 0 (ctx.damage + total ((before ++ s :: after).map _))
    rw [total_insert, ← hc]
    omega
  | @damage damage hdamage =>
    refine ⟨rfl, Context.hurt_le (Context.through_le ?_ (Int.le_refl _) id) le_rfl hf⟩
    change max 0 (ctx.damage + total (ctx.spends.map _)) ≤ max 0 (damage + total (ctx.spends.map _))
    omega

theorem strains_of_presses {ctx ctx' : Context Rat} (h : ReflTransGen Presses ctx ctx')
    (hf : ∀ f ∈ ctx.factors, 0 ≤ f) : Strains ctx ctx' := by
  induction h with
  | refl => exact ⟨rfl, Int.le_refl _⟩
  | @tail ctx' _ _ h ih =>
    have hfactors : ctx'.factors = ctx.factors := by
      rw [Context.factors, Context.answers, ih.defense]
      rfl
    have hstep := h.strains (hfactors ▸ hf)
    exact ⟨hstep.defense.trans ih.defense, ih.hurt.trans hstep.hurt⟩

theorem endured_le {ctx ctx' : Context Rat} (hd : ctx'.defender = ctx.defender)
    (hheal : ctx'.heal = ctx.heal) (h : ctx'.hurt ≤ ctx.hurt) (logs logs' : List String) :
    (report ctx logs).defender.hp ≤ (report ctx' logs').defender.hp ∧
      (report ctx' logs').summary.healed ≤ (report ctx logs).summary.healed := by
  unfold report endure
  dsimp only
  rw [hd, hheal]
  split <;> dsimp only <;> omega

theorem Eases.recoil {ctx : Context Rat} {d d' : Defense.Resolution Rat} (h : Eases ctx d d') :
    (ctx.against d').recoil ≤ (ctx.against d).recoil := by
  have hpart : 0 ≤ (ctx.against d).part := le_min zero_le_one (le_max_left _ _)
  have hproduct : ((ctx.against d').hurt : Rat) * (ctx.against d).part ≤
      (ctx.against d).hurt * (ctx.against d).part :=
    mul_le_mul_of_nonneg_right (Rat.intCast_le_intCast.mpr h.hurt) hpart
  have hback := Rat.le_floor_iff.mpr ((Rat.le_floor_iff.mp (Int.le_refl _)).trans hproduct)
  change max 0 d'.reflect + ((ctx.against d').hurt * min 1 (max 0 d'.retaliate) : Rat).floor ≤ _
  rw [h.reflect, h.retaliate]
  exact Int.add_le_add_left hback _

theorem reflected_le {ctx ctx' : Context Rat} (ha : ctx'.attacker = ctx.attacker)
    (h : ctx'.recoil ≤ ctx.recoil) (logs logs' : List String) :
    (report ctx' logs').summary.reflected ≤ (report ctx logs).summary.reflected := by
  unfold report
  dsimp only
  rw [ha]
  split <;> omega

theorem told_short {R : Type} {ctx : Context R} {s : Summary} :
    (∀ n ∈ told ctx s, Number.Short n) ↔ (ctx.ability.isSome → Number.Short ctx.damage) ∧
      Number.Short s.dealt ∧ Number.Short s.blocked ∧
      (0 < s.reflected → Number.Short s.reflected) ∧ (0 < s.healed → Number.Short s.healed) := by
  unfold told
  cases ctx.ability <;> by_cases hr : 0 < s.reflected <;> by_cases hh : 0 < s.healed <;>
    simp [hr, hh]

theorem resolve_ok {ctx : Context Rat} {res : Resolution} (h : resolve ctx = .ok res) :
    ∃ logs, res = report ctx logs := by
  rw [resolve_eq] at h
  cases hl : lines ctx (report ctx []).summary (.ofSummaries ctx.spends) ctx.defended with
  | error fault =>
    rw [hl] at h
    cases h
  | ok logs =>
    rw [hl] at h
    exact ⟨logs, (Except.ok.inj h).symm⟩

theorem resolve_returns {ctx : Context Rat} :
    (∃ res, resolve ctx = .ok res) ↔ ∀ n ∈ told ctx (report ctx []).summary, Number.Short n := by
  rw [← lines_returns ctx _ (.ofSummaries ctx.spends) ctx.defended, resolve_eq]
  cases lines ctx (report ctx []).summary (.ofSummaries ctx.spends) ctx.defended with
  | error fault => exact iff_of_false (fun ⟨_, h⟩ => by cases h) fun ⟨_, h⟩ => by cases h
  | ok logs => exact iff_of_true ⟨_, rfl⟩ ⟨_, rfl⟩

theorem Eases.returns {ctx : Context Rat} {d d' : Defense.Resolution Rat} (h : Eases ctx d d')
    {res : Resolution} (hres : resolve (ctx.against d) = .ok res) :
    (∃ res', resolve (ctx.against d') = .ok res') ↔ Number.Short (ctx.against d').guard := by
  obtain ⟨hdamage, hdealt, -, hreflected, hhealed⟩ :=
    told_short.mp (resolve_returns.mp ⟨res, hres⟩)
  rw [resolve_returns, told_short]
  refine ⟨fun hall => hall.2.2.1, fun hguard =>
    ⟨hdamage, ?_, hguard, fun hpos => ?_, fun hpos => ?_⟩⟩
  · exact Number.short_of_le (Context.hurt_nonneg h.factors) h.hurt hdealt
  · have hle := @reflected_le (ctx.against d) (ctx.against d') rfl h.recoil [] []
    exact Number.short_of_le hpos.le hle (hreflected (hpos.trans_le hle))
  · have hle := (@endured_le (ctx.against d) (ctx.against d') rfl h.heal h.hurt [] []).2
    exact Number.short_of_le hpos.le hle (hhealed (hpos.trans_le hle))

/-- The defender is better off the second time. -/
structure Softens (res res' : Resolution) : Prop where
  dealt : res'.summary.dealt ≤ res.summary.dealt
  hp : res.defender.hp ≤ res'.defender.hp
  survives : res'.summary.defenderDefeated = true → res.summary.defenderDefeated = true

theorem Eases.softens {ctx : Context Rat} {d d' : Defense.Resolution Rat} (h : Eases ctx d d')
    (logs logs' : List String) :
    Softens (report (ctx.against d) logs) (report (ctx.against d') logs') := by
  have hp := (@endured_le (ctx.against d) (ctx.against d') rfl h.heal h.hurt logs logs').1
  exact ⟨h.hurt, hp, fun hdown => decide_eq_true (hp.trans (of_decide_eq_true hdown))⟩

/-- Defending never hurts. A braced defence lets through no more damage and leaves no fewer hit
points, so nobody falls who would have stood, and nothing but the length of its block can keep it
from being told. Pressing the attack never does less damage. -/
theorem resolve_braced {ctx : Context Rat} {d : Defense.Resolution Rat} {res : Resolution}
    (hd : ctx.defense = some d) (hf : ∀ f ∈ ctx.factors, 0 ≤ f) (h : resolve ctx = .ok res) :
    (∀ d', ReflTransGen Braces d d' →
      ((∃ res', resolve (ctx.against d') = .ok res') ↔ Number.Short (ctx.against d').guard) ∧
      ∀ res', resolve (ctx.against d') = .ok res' → Softens res res') ∧
    ∀ ctx', ReflTransGen Presses ctx ctx' → ∀ res', resolve ctx' = .ok res' →
      res.summary.dealt ≤ res'.summary.dealt := by
  have hctx : ctx.against d = ctx := by
    cases ctx
    cases hd
    rfl
  obtain ⟨logs, rfl⟩ := resolve_ok h
  refine ⟨fun d' hbraced => ?_, fun ctx' hpressed res' h' => ?_⟩
  · rw [← hctx] at h hf ⊢
    have heases := eases_of_braces hbraced hf
    refine ⟨heases.returns h, fun res' h' => ?_⟩
    obtain ⟨logs', rfl⟩ := resolve_ok h'
    exact heases.softens logs logs'
  · obtain ⟨logs', rfl⟩ := resolve_ok h'
    exact (strains_of_presses hpressed hf).hurt

def palisade : Defense.Resolution Rat where
  block := 2
  retaliate := 0
  spends := [{ id := "sloth", spent := 1, results := [{ factor := some (3 / 4) }] }]

def rampart : Spend.Summary Rat where
  id := "sloth"
  spent := 1
  block := 1
  results := [{ factor := some (1 / 2) }]

def siege : Context Rat where
  attackerSide := .you
  defenderSide := .ai
  attacker := { side := .you, hero := { id := "ram", name := "Ram", maxHp := 20 }, hp := 9 }
  defender := { side := .ai, hero := { id := "gate", name := "Gate", maxHp := 20 }, hp := 6 }
  damage := 9
  spends := [{ id := "focus", spent := 1, damage := 2 }]
  defense := some palisade

def bulwark : Defense.Resolution Rat :=
  { palisade with spends := palisade.spends ++ [rampart], block := 4 }

/-- The gate falls, but not with a further spend and more block. -/
theorem resolve_braced_siege : siege.defense = some palisade ∧ (∀ f ∈ siege.factors, 0 ≤ f) ∧
    ReflTransGen Braces palisade bulwark ∧
    ∃ res res', resolve siege = .ok res ∧ resolve (siege.against bulwark) = .ok res' ∧
      Softens res res' ∧
      res.summary.dealt = 6 ∧ res'.summary.dealt = 3 ∧
      res.summary.defenderDefeated = true ∧ res'.summary.defenderDefeated = false ∧
      ∃ res'', resolve { siege with damage := 12 } = .ok res'' ∧
        res.summary.dealt ≤ res''.summary.dealt := by
  have hf : ∀ f ∈ siege.factors, 0 ≤ f := by decide +kernel
  have hs : Shielding rampart := by
    refine ⟨by decide, fun r hr f h => ?_⟩
    obtain rfl := List.mem_singleton.mp hr
    cases h
    decide +kernel
  have hbraced : ReflTransGen Braces palisade bulwark :=
    .tail (.single (.spend (List.append_nil _).symm hs)) (.block (by decide))
  have hpressed : ReflTransGen Presses siege { siege with damage := 12 } :=
    .single (.damage (by decide))
  obtain ⟨res, h⟩ := (@resolve_returns siege).mpr (by decide +kernel)
  obtain ⟨res'', h''⟩ := (@resolve_returns { siege with damage := 12 }).mpr (by decide +kernel)
  obtain ⟨hbraces, hpresses⟩ := resolve_braced rfl hf h
  obtain ⟨hreturns, hsoftens⟩ := hbraces _ hbraced
  obtain ⟨res', h'⟩ := hreturns.mpr (by decide +kernel)
  have hsoft := hsoftens res' h'
  have hmore := hpresses _ hpressed res'' h''
  obtain ⟨logs, rfl⟩ := resolve_ok h
  obtain ⟨logs', rfl⟩ := resolve_ok h'
  have hhurt : siege.hurt = 6 := by decide +kernel
  have hless : (siege.against bulwark).hurt = 3 := by decide +kernel
  have hfalls : (report siege []).summary.defenderDefeated = true := by decide +kernel
  have hstands : (report (siege.against bulwark) []).summary.defenderDefeated = false := by
    decide +kernel
  exact ⟨rfl, hf, hbraced, _, _, h, h', hsoft, hhurt, hless, hfalls, hstands, res'', h'', hmore⟩

end Duel.Attack
