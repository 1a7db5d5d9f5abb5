import Duel.Buff.Grants
import Duel.Proofs.Defense
import Duel.Proofs.Stacks.Spending

namespace Duel.Stacks

open Defense (Plays)

variable {R : Type} {reg : Registry R} {held mid next : Stacks} {id : String} {n : Int}

/-- A side can hold so many stacks of a status. -/
def Allowed (reg : Registry R) (id : String) (n : Int) : Prop :=
  1 ≤ n ∧ ∀ status most, reg.get? id = some status → status.maxStacks = some most → n ≤ most

def WellFormed (reg : Registry R) (held : Stacks) : Prop :=
  ∀ e ∈ held.entries, Allowed reg e.1 e.2

/-- A stack map within the bounds that differs from another one in a single status at most. -/
structure Rewritten (reg : Registry R) (id : String) (held next : Stacks) : Prop where
  bounds : WellFormed reg next
  others : ∀ other, other ≠ id → next.get? other = held.get? other

theorem Rewritten.refl (h : WellFormed reg held) : Rewritten reg id held held :=
  ⟨h, fun _ _ => rfl⟩

theorem Rewritten.trans (h : Rewritten reg id held mid) (h' : Rewritten reg id mid next) :
    Rewritten reg id held next :=
  ⟨h'.bounds, fun other ho => (h'.others other ho).trans (h.others other ho)⟩

theorem allowed_clamp (h : 0 < Status.clamp (reg.get? id) n) :
    Allowed reg id (Status.clamp (reg.get? id) n) := by
  refine ⟨h, fun status most hs hm => ?_⟩
  rw [hs] at h ⊢
  simp only [Status.clamp, hm] at h ⊢
  omega

theorem WellFormed.positive (h : WellFormed reg held) : Positive held := fun e he => (h e he).1

theorem WellFormed.allowed (h : WellFormed reg held) (hc : 0 < held.count id) :
    Allowed reg id (held.count id) := by
  unfold count at hc ⊢
  cases hg : held.get? id with
  | none => simp [hg] at hc
  | some k => exact h _ (Ledger.mem_of_get?_eq_some hg)

theorem WellFormed.put_rewritten (h : WellFormed reg held) (hn : Allowed reg id n) :
    Rewritten reg id held (held.put id n) := by
  refine ⟨fun e he => ?_, fun other ho => Ledger.get?_put_of_ne ho held n⟩
  obtain rfl | he := Ledger.mem_put he
  · exact hn
  · exact h e he

theorem WellFormed.write_rewritten (h : WellFormed reg held) (hn : 0 < n → Allowed reg id n) :
    Rewritten reg id held (held.write id n) := by
  unfold write
  split
  · exact ⟨fun e he => h e (Ledger.mem_erase he), fun other ho => Ledger.get?_erase_of_ne ho held⟩
  · exact h.put_rewritten (hn (by omega))

theorem WellFormed.assign_rewritten (h : WellFormed reg held) (id : String) (n : Int)
    (cause : Option Cause) : Rewritten reg id held (held.assign id n reg cause).value := by
  unfold assign
  split
  · exact .refl h
  · exact h.write_rewritten allowed_clamp

theorem WellFormed.add_rewritten (h : WellFormed reg held) (id : String) (n : Int)
    (cause : Option Cause) : Rewritten reg id held (held.add id n reg cause).value := by
  unfold add
  split
  · exact .refl h
  · exact h.write_rewritten allowed_clamp

theorem Changes.wellFormed {owner : String} {es : List Event}
    (h : Changes reg owner held es next) (hw : WellFormed reg held) : WellFormed reg next := by
  induction h with
  | none => exact hw
  | assign id n _ _ ih => exact ih (hw.assign_rewritten id n _).bounds
  | add id n _ _ ih => exact ih (hw.add_rewritten id n _).bounds

theorem cleanse_some {roll : Int} {owner : Option String} {out : Cleanse.Outcome}
    {es : List Event} (h : Gives (held.cleanse id roll reg owner) (some out) es) :
    ∃ status rule cause, reg.get? id = some status ∧ status.cleanse = some rule ∧
      rule.roll status.name roll (held.count id) = .ok out.result ∧
      out.next = (held.assign id out.result.next reg cause).value := by
  unfold cleanse at h
  split at h
  · cases h
  next status hs =>
    split at h
    · cases h
    next rule hr =>
      obtain ⟨result, _, _, hroll, h, -⟩ := h.bind
      obtain ⟨hroll, -⟩ := gives_ofExcept hroll
      obtain ⟨next, _, _, hnext, h, -⟩ := h.bind
      obtain ⟨rfl, -⟩ := hnext.unique (gives_lift _)
      cases h
      exact ⟨status, rule, _, hs, hr, hroll, rfl⟩

theorem WellFormed.cleanse_rewritten (h : WellFormed reg held) {roll : Int} {owner : Option String}
    {out : Cleanse.Outcome} {es : List Event}
    (ho : Gives (held.cleanse id roll reg owner) (some out) es) :
    Rewritten reg id held out.next := by
  obtain ⟨_, _, cause, -, -, -, hnext⟩ := cleanse_some ho
  rw [hnext]
  exact h.assign_rewritten id _ cause

theorem WellFormed.apply_rewritten (h : WellFormed reg held) (b : Buff) :
    Rewritten reg b.status held (b.apply held reg).value := by
  unfold Buff.apply
  cases hs : reg.get? b.status with
  | none => exact .refl h
  | some status =>
    by_cases hp : 0 < b.raise status (held.count b.status)
    · simp only [if_pos hp]
      refine h.put_rewritten ⟨hp, fun s most hr hm => ?_⟩
      obtain rfl : status = s := Option.some.inj (hs.symm.trans hr)
      have hb : 0 < held.count b.status → held.count b.status ≤ most :=
        fun hc => (h.allowed hc).2 status most hs hm
      simp only [Buff.raise, hm] at hp ⊢
      omega
    · simp only [if_neg hp]
      exact .refl h

variable [Scalar R]

theorem WellFormed.spend_rewritten (h : WellFormed reg held) {phase : Phase} {ctx : Spend.Context}
    {owner : Option String} {out : Spend.Outcome R} {es : List Event}
    (ho : Gives (held.spend id phase ctx reg owner) (some out) es) :
    Rewritten reg id held out.next := by
  obtain ⟨_, _, cause, -, -, -, hnext⟩ := spend_some ho
  rw [hnext]
  exact h.assign_rewritten id _ cause

theorem WellFormed.spendRepeatedly_rewritten (h : WellFormed reg held) {phase : Phase}
    {build : Nat → Spend.Context → Spend.Context} {owner : Option String} {left i : Nat}
    {ctx : Spend.Context} {p : List (Spend.Result R) × Stacks} {es : List Event}
    (hp : Gives (spendRepeatedly id phase build reg owner left i ctx held) p es) :
    Rewritten reg id held p.2 := by
  induction left generalizing i ctx held p es with
  | zero =>
    cases hp
    exact .refl h
  | succ left ih =>
    obtain rfl | ⟨out, rest, _, _, _, hs, hleft, hrest, rfl⟩ := spendRepeatedly_gives hp
    · exact .refl h
    · cases hleft
      have ho := h.spend_rewritten hs
      have hr := ih ho.bounds hrest
      exact ho.trans hr

theorem WellFormed.spendMany_rewritten (h : WellFormed reg held) {attempts : Int} {phase : Phase}
    {build : Nat → Spend.Context → Spend.Context} {ctx : Option Spend.Context}
    {owner : Option String} {out : Spend.ManyOutcome R} {es : List Event}
    (ho : Gives (held.spendMany id attempts phase build ctx reg owner) (some out) es) :
    Rewritten reg id held out.next := by
  obtain ⟨rule, p, -, hp, hne, ho⟩ := spendMany_gives ho
  rw [settle, if_neg (by simpa using hne)] at ho
  cases ho
  exact h.spendRepeatedly_rewritten hp

theorem WellFormed.tick (h : WellFormed reg held) {owner : Option String} {o : Tick.Outcome}
    {es : List Event} (ho : Gives (held.tick reg owner) o es) : WellFormed reg o.next :=
  tick_keeps (P := fun o => WellFormed reg o.next)
    (fun _ id r hw => (hw.assign_rewritten id r.next _).bounds) h ho

theorem WellFormed.plan {defender : Player} (h : WellFormed reg defender.statuses) {attacker : Side}
    {incoming : Int} {base : Defense.Base R} {requests : List Defense.Request} {p : Defense.Plan R}
    {fs gs : Formula.Cache} {es : List Event}
    (hp : Plays (Defense.plan defender attacker incoming base requests reg) fs p gs es) :
    WellFormed reg p.defender.statuses :=
  (Defense.plan_changes hp).2.wellFormed h

end Duel.Stacks
