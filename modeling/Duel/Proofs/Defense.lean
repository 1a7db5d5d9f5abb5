import Duel.Proofs.Stacks.Rules

namespace Duel.Defense

open Stacks (Changes)

/-- Rules that can fail have given a result; they told of events and used formulas on the way. -/
def Plays {α : Type} (x : Play α) (fs : Formula.Cache) (a : α) (gs : Formula.Cache)
    (es : List Event) : Prop :=
  x.run.run fs = ⟨(.ok a, gs), es⟩

theorem Plays.bind {α β : Type} {x : Play α} {f : α → Play β} {fs hs : Formula.Cache} {b : β}
    {es : List Event} (h : Plays (x >>= f) fs b hs es) :
    ∃ a gs es₁ es₂, Plays x fs a gs es₁ ∧ Plays (f a) gs b hs es₂ ∧ es = es₁ ++ es₂ := by
  rcases hx : x.run.run fs with ⟨⟨v, gs⟩, es₁⟩
  cases v with
  | error e =>
    have hb : (x >>= f).run.run fs = ⟨(.error e, gs), es₁ ++ []⟩ := by
      rw [ExceptT.run_bind, StateT.run_bind, hx]
      rfl
    rw [Plays, hb] at h
    cases h
  | ok a =>
    have hb : (x >>= f).run.run fs =
        ⟨((f a).run.run gs).value, es₁ ++ ((f a).run.run gs).events⟩ := by
      rw [ExceptT.run_bind, StateT.run_bind, hx]
      rfl
    rw [Plays, hb] at h
    injection h with hv he
    refine ⟨a, gs, es₁, _, hx, ?_, he.symm⟩
    rw [Plays, ← hv]

theorem Plays.after {α β : Type} {x : Play α} {f : α → Play β} {fs gs hs : Formula.Cache} {a : α}
    {b : β} {es ds : List Event} (hx : Plays x fs a gs es) (h : Plays (f a) gs b hs ds) :
    Plays (x >>= f) fs b hs (es ++ ds) := by
  unfold Plays at hx h ⊢
  rw [ExceptT.run_bind, StateT.run_bind, hx]
  change (⟨((f a).run.run gs).value, es ++ ((f a).run.run gs).events⟩ : Traced _) = _
  rw [h]

theorem plays_happen {α : Type} {x : Traced α} {fs gs : Formula.Cache} {a : α} {es : List Event}
    (h : Plays (happen x) fs a gs es) : a = x.value ∧ es = x.events := by
  cases h
  exact ⟨rfl, List.append_nil _ ▸ List.append_nil _⟩

theorem plays_venture {α : Type} {x : Stacks.Work α} {fs gs : Formula.Cache} {a : α}
    {es : List Event} (h : Plays (venture x) fs a gs es) : Gives x a es := by
  rcases hx : x.run with ⟨v, es'⟩
  simp only [Plays, venture, ExceptT.run_mk, hx] at h
  cases h
  exact hx.trans (congrArg (Traced.mk _) (List.append_nil es').symm)

theorem plays_pure {α : Type} {a b : α} {fs gs : Formula.Cache} {es : List Event}
    (h : Plays (pure a) fs b gs es) : b = a ∧ es = [] := by
  cases h
  exact ⟨rfl, rfl⟩

theorem plays_throw {α : Type} {fault : Fault} {a : α} {fs gs : Formula.Cache} {es : List Event} :
    ¬Plays (throw fault) fs a gs es := by
  intro h
  cases h

theorem plays_reckon {α : Type} {x : Formula.Kept α} {fs gs : Formula.Cache} {a : α}
    {es : List Event} (h : Plays (reckon x) fs a gs es) : es = [] := by
  cases hx : x.run fs with
  | ok b hs =>
    simp only [Plays, reckon, ExceptT.run_mk, StateT.run, hx] at h
    cases h
    rfl
  | error e hs =>
    simp only [Plays, reckon, ExceptT.run_mk, StateT.run, hx] at h
    cases h

variable {R : Type} {reg : Registry R} {side : Side}

theorem applyStatuses_changes (base : Base R) (held : Stacks) :
    Changes reg side.name held (applyStatuses side base held reg).events
      (applyStatuses side base held reg).value := by
  unfold applyStatuses
  generalize base.applied.entries = entries
  induction entries generalizing held with
  | nil => exact .none held
  | cons e entries ih =>
    rw [List.foldlM_cons]
    exact (Changes.of_add held e.1 e.2 rfl).trans (ih _)

variable [Scalar R]

theorem serve_changes {base : Base R} {block : Int} {r : Request}
    {before after : Stacks × List (Spend.Summary R)} {fs gs : Formula.Cache} {es : List Event}
    (h : Plays (serve side base block reg before r) fs after gs es) :
    Changes reg side.name before.1 es after.1 := by
  unfold serve at h
  split at h
  · split at h
    · exact (plays_throw h).elim
    · obtain ⟨rfl, rfl⟩ := plays_pure h
      exact .none _
  · obtain ⟨out, ms, es₁, es₂, hs, hr, rfl⟩ := h.bind
    have hg := plays_venture hs
    have ht := @Stacks.spendMany_tries R reg side _ before.1 r.status r.attempts
      .defenseRoll (fun _ ctx => ctx) (some {
        phase := .defenseRoll
        roll := r.roll <|> base.roll
        block := if Status.isReaction ‹_› then none else some block })
    split at hr
    · obtain ⟨rfl, rfl⟩ := plays_pure hr
      simpa using ht.changes hg
    · split at hr
      · exact (plays_throw hr).elim
      · obtain ⟨rfl, rfl⟩ := plays_pure hr
        rw [ht.silent hg]
        exact .none _

theorem serveEach_changes {base : Base R} {block : Int} {requests : List Request}
    {before after : Stacks × List (Spend.Summary R)} {fs gs : Formula.Cache} {es : List Event}
    (h : Plays (requests.foldlM (serve side base block reg) before) fs after gs es) :
    Changes reg side.name before.1 es after.1 := by
  induction requests generalizing before fs es with
  | nil =>
    obtain ⟨rfl, rfl⟩ := plays_pure h
    exact .none _
  | cons r requests ih =>
    rw [List.foldlM_cons] at h
    obtain ⟨mid, ms, es₁, es₂, hr, hs, rfl⟩ := h.bind
    exact (serve_changes hr).trans (ih hs)

theorem serveAll_changes {incoming block : Int} {base : Base R} {requests : List Request}
    {held : Stacks} {after : Stacks × List (Spend.Summary R)} {fs gs : Formula.Cache}
    {es : List Event}
    (h : Plays (serveAll side incoming base block requests held reg) fs after gs es) :
    Changes reg side.name held es after.1 := by
  unfold serveAll at h
  split at h
  · exact serveEach_changes h
  · split at h
    · exact (plays_throw h).elim
    · obtain ⟨rfl, rfl⟩ := plays_pure h
      exact .none _

/-- A defence comes down to the requests that are carried out. -/
theorem plan_serves {defender : Player} {attacker : Side} {incoming : Int} {base : Base R}
    {requests : List Request} {p : Plan R} {fs gs : Formula.Cache} {es : List Event}
    (h : Plays (plan defender attacker incoming base requests reg) fs p gs es) :
    p.defender = { defender with statuses := p.defender.statuses } ∧
      p.resolution.retaliate = base.retaliate ∧
      ∃ block hs ds,
        Plays (serveAll defender.side incoming base block requests
          (applyStatuses defender.side base defender.statuses reg).value reg) hs
          (p.defender.statuses, p.resolution.spends) gs ds ∧
        es = (applyStatuses defender.side base defender.statuses reg).events ++ ds := by
  unfold plan at h
  obtain ⟨held, fs₁, es₁, ds₁, ha, h₁, rfl⟩ := h.bind
  obtain ⟨rfl, rfl⟩ := plays_happen ha
  obtain ⟨modified, fs₂, es₂, ds₂, hm, h₂, rfl⟩ := h₁.bind
  obtain rfl := plays_reckon hm
  obtain ⟨served, fs₃, es₃, ds₃, hs, h₃, rfl⟩ := h₂.bind
  cases h₃
  exact ⟨rfl, rfl, _, _, _, hs, by simp⟩

theorem plan_changes {defender : Player} {attacker : Side} {incoming : Int} {base : Base R}
    {requests : List Request} {p : Plan R} {fs gs : Formula.Cache} {es : List Event}
    (h : Plays (plan defender attacker incoming base requests reg) fs p gs es) :
    p.defender = { defender with statuses := p.defender.statuses } ∧
      Changes reg defender.side.name defender.statuses es p.defender.statuses := by
  obtain ⟨hp, -, _, _, _, hs, rfl⟩ := plan_serves h
  exact ⟨hp, (applyStatuses_changes base defender.statuses).trans (serveAll_changes hs)⟩

end Duel.Defense
