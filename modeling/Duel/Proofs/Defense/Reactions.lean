import Duel.Proofs.Defense.Requests
import Duel.Proofs.Stacks.Repeating

namespace Duel

def Reaction.brought {R : Type} (r : Reaction R) (roll : Option Int) : Option Int :=
  if r.threshold ≤ roll.getD r.threshold then r.successBlock else r.failureBlock

/-- How many reactions are made, if so many can be. -/
def Reaction.made {R : Type} (r : Reaction R) (roll : Option Int) (most : Int) : Int :=
  if (r.brought roll).all (0 < ·) then most else min 1 most

theorem Reaction.made_eq_iff {R : Type} (r : Reaction R) (roll : Option Int) (most : Int) :
    r.made roll most = most ↔ most ≤ 1 ∨ ∀ n ∈ r.brought roll, 0 < n := by
  unfold made
  cases r.brought roll with
  | none => simp
  | some n =>
    by_cases hn : 0 < n
    · simp [hn]
    · simp only [Option.all_some, hn, decide_false, Bool.false_eq_true, if_false, Option.mem_some,
        forall_eq', or_false]
      omega

namespace Stacks

variable {R : Type} {reg : Registry R} {held next : Stacks} {id : String}

/-- A status that nothing but its reaction is spent for. -/
structure Reactive (reg : Registry R) (id : String) (status : Status R) (rule : Spend.Rule R)
    (r : Reaction R) : Prop where
  known : reg.get? id = some status
  behavior : status.behavior = some (.reaction r)
  spend : status.spend = some rule
  hookless : rule.apply = none
  costs : 1 ≤ rule.cost
  allowed : .defenseRoll ∈ rule.phases

def Open (ctx : Spend.Context) : Prop := ∀ block ∈ ctx.block, 0 < block

def Rolled (rule : Spend.Rule R) (roll : Option Int) : Prop :=
  rule.needsRoll = true → roll.isSome = true

theorem Rolled.not_missing {rule : Spend.Rule R} {roll : Option Int} (h : Rolled rule roll) :
    (rule.needsRoll && roll.isNone) = false := by
  cases hn : rule.needsRoll with
  | false => rfl
  | true => simpa using h hn

variable [Scalar R] {status : Status R} {rule : Spend.Rule R} {r : Reaction R}
  {ctx last : Spend.Context} {owner : Option String} {results : List (Spend.Result R)}
  {es : List Event} {i : Nat} {n : Int}

omit [Scalar R] in
theorem carry_roll (phase : Phase) (ctx : Spend.Context) (result : Spend.Result R) :
    (carry phase ctx ctx result).roll = ctx.roll := by
  rw [roll_carry, Option.or_self]

omit [Scalar R] in
theorem Open.carry {phase : Phase} {result : Spend.Result R} (hopen : Open ctx)
    (hb : ∀ n ∈ result.block, 0 < n) : Open (carry phase ctx ctx result) := by
  unfold Open Stacks.carry
  dsimp only
  cases hr : result.block with
  | none => exact hopen
  | some n =>
    rintro _ ⟨⟩
    have hn := hb n hr
    cases hc : ctx.block with
    | none => simpa using hn
    | some block => exact Int.add_pos (hopen block hc) hn

omit [Scalar R] in
theorem not_open_carry {phase : Phase} {result : Spend.Result R} (hctx : ctx.block = none)
    (hb : n ∈ result.block) (hn : n ≤ 0) : ¬Open (carry phase ctx ctx result) := by
  unfold Open carry
  dsimp only
  rw [hctx, Option.mem_def.mp hb]
  intro hopen
  have := hopen (0 + n) rfl
  omega

namespace Reactive

omit [Scalar R] in
theorem admits_iff (hx : Reactive reg id status rule r) (hroll : Rolled rule ctx.roll) :
    rule.admits .defenseRoll ctx n = true ↔ Open ctx ∧ rule.cost ≤ n := by
  have hphase : rule.phases.contains .defenseRoll = true := by simpa using hx.allowed
  unfold Spend.Rule.admits Open
  rw [hphase, hroll.not_missing]
  cases ctx.block <;> simp

/-- A reaction brings what its roll does, unless the roll is too long a number to be told of. -/
theorem spendResult_eq (hx : Reactive reg id status rule r) (hroll : Rolled rule ctx.roll) :
    status.spendResult rule .defenseRoll ctx =
      if Number.Short (ctx.roll.getD r.threshold) then
        .ok (some (r.outcome status.name (ctx.roll.getD r.threshold)
          (toString (ctx.roll.getD r.threshold))))
      else .error (.number .lengthy) := by
  have hneeds : status.needsRoll = rule.needsRoll := by rw [Status.needsRoll, hx.spend]
  have hasks : Reaction.asksThreshold status.needsRoll ctx.roll = true := by
    rw [Reaction.asksThreshold, hneeds, hroll.not_missing, Bool.not_false]
  have hspend : status.spendResult rule .defenseRoll ctx =
      (r.spend status.name status.needsRoll ctx.roll).mapError .number := by
    unfold Status.spendResult
    rw [hx.hookless, hx.behavior]
    rfl
  rw [hspend, Reaction.spend, hasks]
  dsimp only [Bool.not_true]
  rw [Number.digits_eq]
  by_cases hshort : Number.Short (ctx.roll.getD r.threshold)
  · rw [if_pos hshort, if_pos hshort]
    rfl
  · rw [if_neg hshort, if_neg hshort]
    rfl

theorem block_outcome (r : Reaction R) (name : String) (roll : Option Int) (digits : String) :
    (r.outcome name (roll.getD r.threshold) digits).block = r.brought roll := by
  unfold Reaction.outcome Reaction.brought
  dsimp only
  split <;> rfl

theorem spends (hx : Reactive reg id status rule r) (hroll : Rolled rule ctx.roll)
    (hopen : Open ctx) (hcost : rule.cost ≤ held.count id) :
    held.spend id .defenseRoll ctx reg owner ≠ pure none := by
  have hadmits := (hx.admits_iff hroll).mpr ⟨hopen, hcost⟩
  unfold Stacks.spend
  rw [hx.known]
  simp only [hx.spend, hadmits, hx.spendResult_eq hroll, Bool.not_true, Bool.false_eq_true,
    if_false]
  intro h
  by_cases hshort : Number.Short (ctx.roll.getD r.threshold)
  · rw [if_pos hshort] at h
    cases congrArg (fun x => (ExceptT.run x).value) h
  · rw [if_neg hshort] at h
    cases congrArg (fun x => (ExceptT.run x).value) h

theorem spent (hx : Reactive reg id status rule r) (hroll : Rolled rule ctx.roll)
    {out : Spend.Outcome R}
    (h : Gives (held.spend id .defenseRoll ctx reg owner) (some out) es) :
    Open ctx ∧ out.result.block = r.brought ctx.roll := by
  obtain hf | ⟨s, rule', hs, hr, ha, ⟨fault, -, hf⟩ | ⟨result, _, ho, -, hf⟩⟩ :=
    spend_cases held id .defenseRoll ctx reg owner
  · rw [hf] at h
    cases h
  · rw [hf] at h
    cases h
  · obtain rfl : status = s := Option.some.inj (hx.known.symm.trans hs)
    obtain rfl : rule = rule' := Option.some.inj (hx.spend.symm.trans hr)
    cases (h.unique hf).1
    rw [hx.spendResult_eq hroll] at ho
    split at ho
    · cases ho
      exact ⟨((hx.admits_iff hroll).mp ha).1, block_outcome r status.name ctx.roll _⟩
    · cases ho

/-- Where an attempt breaks off, the roll is too long a number. -/
theorem broken (hx : Reactive reg id status rule r) (hroll : Rolled rule ctx.roll) {fault : Fault}
    (h : held.spend id .defenseRoll ctx reg owner = throw fault) :
    rule.cost ≤ held.count id ∧ ¬Number.Short (ctx.roll.getD r.threshold) := by
  obtain hf | ⟨s, rule', hs, hr, ha, ⟨fault, ho, -⟩ | ⟨result, _, -, -, hf⟩⟩ :=
    spend_cases held id .defenseRoll ctx reg owner
  · cases congrArg (fun x => (ExceptT.run x).value) (h.symm.trans hf)
  · obtain rfl : status = s := Option.some.inj (hx.known.symm.trans hs)
    obtain rfl : rule = rule' := Option.some.inj (hx.spend.symm.trans hr)
    rw [hx.spendResult_eq hroll] at ho
    split at ho
    · cases ho
    next hlong => exact ⟨((hx.admits_iff hroll).mp ha).2, hlong⟩
  · rw [h] at hf
    cases hf

theorem breaks (hx : Reactive reg id status rule r) (hroll : Rolled rule ctx.roll)
    (hopen : Open ctx) (hcost : rule.cost ≤ held.count id)
    (hlong : ¬Number.Short (ctx.roll.getD r.threshold)) :
    held.spend id .defenseRoll ctx reg owner = throw (.number .lengthy) := by
  have hadmits := (hx.admits_iff hroll).mpr ⟨hopen, hcost⟩
  unfold Stacks.spend
  rw [hx.known]
  simp only [hx.spend, hadmits, hx.spendResult_eq hroll, hlong, Bool.not_true, Bool.false_eq_true,
    if_false]
  exact ofExcept_error_bind _ _

theorem last_roll
    (h : Row id .defenseRoll (fun _ ctx => ctx) reg owner i ctx held results last next es) :
    last.roll = ctx.roll := by
  induction h with
  | none => rfl
  | more _ _ ih => exact ih.trans (carry_roll ..)

theorem last_open (hx : Reactive reg id status rule r)
    (h : Row id .defenseRoll (fun _ ctx => ctx) reg owner i ctx held results last next es)
    (hroll : Rolled rule ctx.roll) (hopen : Open ctx)
    (hb : ∀ n ∈ r.brought ctx.roll, 0 < n) : last.roll = ctx.roll ∧ Open last := by
  induction h with
  | none => exact ⟨rfl, hopen⟩
  | @more i ctx last held next out results es fs spent rest ih =>
    obtain ⟨-, hblock⟩ := hx.spent hroll spent
    have hkept := carry_roll .defenseRoll ctx out.result
    -- The roll is the same as before, so what it brings keeps the next context open as well.
    obtain ⟨hroll', hopen'⟩ := ih (hkept ▸ hroll) (hopen.carry (hblock ▸ hb)) (hkept ▸ hb)
    exact ⟨hroll'.trans hkept, hopen'⟩

theorem length_le_one (hx : Reactive reg id status rule r)
    (h : Row id .defenseRoll (fun _ ctx => ctx) reg owner i ctx held results last next es)
    (hroll : Rolled rule ctx.roll) (hctx : ctx.block = none)
    (hb : n ∈ r.brought ctx.roll) (hn : n ≤ 0) : results.length ≤ 1 := by
  cases h with
  | none => exact Nat.zero_le 1
  | @more _ _ _ _ _ out _ _ _ spent rest =>
    cases rest with
    | none => exact Nat.le_refl 1
    | more spent' _ =>
      -- A second reaction would have been made with the block that the first one brought.
      obtain ⟨-, hblock⟩ := hx.spent hroll spent
      obtain ⟨hopen, -⟩ := hx.spent (carry_roll .defenseRoll ctx out.result ▸ hroll) spent'
      exact absurd hopen (not_open_carry hctx (hblock ▸ hb) hn)

theorem paid (hx : Reactive reg id status rule r)
    (h : Row id .defenseRoll (fun _ ctx => ctx) reg owner i ctx held results last next es)
    (hw : WellFormed reg held) : rule.cost * results.length ≤ held.count id ∧
      next.count id = held.count id - rule.cost * results.length := by
  cases results with
  | nil =>
    cases h
    simpa using hw.positive.count_nonneg id
  | cons result results =>
    obtain ⟨hle, hnext⟩ := h.writes hx.known hx.spend hx.costs hw (List.cons_ne_nil _ _)
    exact ⟨hle, by rw [hnext, count_write_self held id (by omega)]⟩

omit [Scalar R] in
theorem affords (hx : Reactive reg id status rule r) (n k : Int) :
    k ≤ n / rule.cost ↔ rule.cost * k ≤ n := by
  have := hx.costs
  rw [Int.le_ediv_iff_mul_le (by omega), Int.mul_comm]

theorem spent_up (hx : Reactive reg id status rule r) (hw : WellFormed reg held)
    (h : Row id .defenseRoll (fun _ ctx => ctx) reg owner i ctx held results last next es)
    (hroll : Rolled rule last.roll) (hopen : Open last)
    (hend : next.spend id .defenseRoll last reg owner = pure none) :
    held.count id / rule.cost < results.length + 1 := by
  obtain ⟨-, hcount⟩ := hx.paid h hw
  refine Int.not_le.mp fun hmore => hx.spends hroll hopen ?_ hend
  have := (hx.affords _ _).mp hmore
  rw [Int.mul_add] at this
  omega

/-- All reactions that can be paid are made, unless the roll brings a block that is none: then there
is one at most. -/
theorem length_of_row (hx : Reactive reg id status rule r) (hw : WellFormed reg held)
    (h : Row id .defenseRoll (fun _ ctx => ctx) reg owner i ctx held results last next es)
    (hroll : Rolled rule ctx.roll) (hctx : ctx.block = none) {left : Nat}
    (hlen : results.length ≤ left)
    (hend : results.length = left ∨ next.spend id .defenseRoll last reg owner = pure none) :
    (results.length : Int) = r.made ctx.roll (min left (held.count id / rule.cost)) := by
  have hopen : Open ctx := fun block hb => by simp [hctx] at hb
  have hmany := (hx.affords (held.count id) results.length).mpr (hx.paid h hw).1
  have hall : (∀ n ∈ r.brought ctx.roll, 0 < n) →
      (results.length : Int) = min (left : Int) (held.count id / rule.cost) := by
    intro hb
    obtain ⟨hkept, hlast⟩ := hx.last_open h hroll hopen hb
    have := hend.imp_right (hx.spent_up hw h (hkept ▸ hroll) hlast)
    omega
  unfold Reaction.made
  cases hb : r.brought ctx.roll with
  | none => exact hall (by simp [hb])
  | some n =>
    by_cases hn : 0 < n
    · rw [Option.all_some, if_pos (decide_eq_true hn)]
      exact hall (by simpa [hb] using hn)
    · -- No block is known to the first one, so that only its price can keep it from being made.
      have hone := hx.length_le_one h hroll hctx hb (by omega)
      have hnone : results.length = 0 → left = 0 ∨ held.count id / rule.cost < 1 := by
        intro hzero
        obtain rfl := List.length_eq_zero_iff.mp hzero
        cases h
        exact hend.imp Eq.symm (hx.spent_up hw (.none i ctx held) hroll hopen)
      rw [Option.all_some, if_neg (by simpa using hn)]
      omega

theorem many (hx : Reactive reg id status rule r) (hw : WellFormed reg held)
    (hroll : Rolled rule ctx.roll) (hctx : ctx.block = none)
    (htold : held.count id < rule.cost ∨ Number.Short (ctx.roll.getD r.threshold)) (attempts : Nat)
    (owner : Option String) :
    let made := r.made ctx.roll (min attempts (held.count id / rule.cost))
    let x := (held.spendMany id attempts .defenseRoll (fun _ ctx => ctx) (some ctx) reg
      owner).run.value
    made = 0 ∧ x = .ok none ∨ made ≠ 0 ∧ ∃ out, x = .ok (some out) ∧
      (out.summary.results.length : Int) = made ∧
      out.next.count id = held.count id - rule.cost * made ∧
      ∀ name, name ≠ id → out.next.get? name = held.get? name := by
  intro made x
  have hx' := congrArg Traced.value (spendMany_run held id attempts .defenseRoll
    (fun _ ctx => ctx) (some ctx) reg owner)
  rw [hx.known, Option.bind_some, hx.spend, Int.toNat_natCast, Option.getD_some] at hx'
  dsimp only at hx'
  obtain ⟨results, last, next, es, hrow, ⟨hrun, hlen, hend⟩ | ⟨-, fault, -, hf⟩⟩ :=
    spendRepeatedly_row id .defenseRoll (fun _ ctx => ctx) reg owner attempts 0 ctx held
  · rw [show ExceptT.run _ = _ from hrun] at hx'
    have hmade : (results.length : Int) = made :=
      hx.length_of_row hw hrow hroll hctx hlen hend
    obtain ⟨-, hcount⟩ := hx.paid hrow hw
    rw [show x = _ from hx', ← hmade]
    cases results with
    | nil => exact .inl ⟨rfl, rfl⟩
    | cons result results =>
      have hne : ((result :: results).length : Int) ≠ 0 := by
        rw [List.length_cons]
        omega
      exact .inr ⟨hne, _, rfl, rfl, hcount, fun name hn => spendRepeatedly_frame hrun hn⟩
  · -- An attempt that breaks off has been paid for, so it is the roll that is too long.
    have hlast := last_roll hrow
    obtain ⟨hcost, hlong⟩ := hx.broken (hlast ▸ hroll) hf
    obtain ⟨hle, hcount⟩ := hx.paid hrow hw
    rw [hlast] at hlong
    have hpos : 0 ≤ rule.cost * results.length :=
      Int.mul_nonneg (by have := hx.costs; omega) (Int.natCast_nonneg _)
    exact absurd htold (not_or.mpr ⟨by omega, hlong⟩)

theorem many_breaks (hx : Reactive reg id status rule r) (hroll : Rolled rule ctx.roll)
    (hctx : ctx.block = none) (hcost : rule.cost ≤ held.count id)
    (hlong : ¬Number.Short (ctx.roll.getD r.threshold)) {attempts : Int} (ha : 1 ≤ attempts)
    (owner : Option String) :
    (held.spendMany id attempts .defenseRoll (fun _ ctx => ctx) (some ctx) reg owner).run.value =
      .error (.number .lengthy) := by
  have hopen : Open ctx := fun block hb => by simp [hctx] at hb
  have hb := (spendMany_breaks_iff held id attempts .defenseRoll (fun _ ctx => ctx) (some ctx) reg
    owner (.number .lengthy) []).mpr
      ⟨[], ctx, held, .none 0 ctx held, by simpa using Int.lt_of_lt_of_le Int.zero_lt_one ha,
        hx.breaks hroll hopen hcost hlong⟩
  rw [show ExceptT.run _ = _ from hb]

end Reactive

end Stacks

namespace Defense

open Stacks (Reactive Rolled WellFormed)

variable {R : Type} [Scalar R] {reg : Registry R} {side : Side} {base : Base R} {block : Int}
  {held : Stacks} {q : Request} {status : Status R} {rule : Spend.Rule R} {r : Reaction R}

omit [Scalar R] in
theorem count_applyStatuses {id : String} (hid : id ∉ base.applied.names) (held : Stacks) :
    (applyStatuses side base held reg).value.count id = held.count id := by
  unfold applyStatuses
  have hne : ∀ e ∈ base.applied.entries, id ≠ e.1 := by
    rintro e he rfl
    exact hid (List.mem_map_of_mem he)
  generalize base.applied.entries = entries at hne
  induction entries generalizing held with
  | nil => rfl
  | cons e entries ih =>
    obtain ⟨he, hne⟩ := List.forall_mem_cons.mp hne
    rw [List.foldlM_cons, Traced.value_bind, ih _ hne]
    dsimp only
    unfold Stacks.add
    by_cases hn : e.2 = 0
    · rw [if_pos hn]
      rfl
    · rw [if_neg hn]
      exact Stacks.count_write_of_ne he held _

theorem attempt_reactive (hx : Reactive reg q.status status rule r) :
    attempt side base block reg held q =
      (held.spendMany q.status q.attempts .defenseRoll (fun _ ctx => ctx)
        (some { phase := .defenseRoll, roll := q.roll <|> base.roll }) reg
        (some side.name)).run.value >>= q.reply := by
  have hreaction : status.isReaction = true := by simp [Status.isReaction, hx.behavior]
  unfold attempt
  rw [hx.known]
  dsimp only
  rw [hreaction]
  rfl

/-- How often a request could be met, for all that is paid. -/
def Request.most (q : Request) (held : Stacks) (cost : Int) : Int :=
  min q.attempts (held.count q.status / cost)

theorem answers_reactive (hx : Reactive reg q.status status rule r) (hw : WellFormed reg held)
    (hroll : Rolled rule (q.roll <|> base.roll)) (ha : 1 ≤ q.attempts)
    (htold : held.count q.status < rule.cost ∨
      Number.Short ((q.roll <|> base.roll).getD r.threshold)) {incoming : Int}
    (hin : 0 < incoming) :
    let made := r.made (q.roll <|> base.roll) (q.most held rule.cost)
    let x := answers side base block reg incoming [q] held
    (made = 0 ∧ x = if q.required then .error (.unpaidDefense q.status) else .ok (held, [])) ∨
    made ≠ 0 ∧ ∃ next s, x = .ok (next, [s]) ∧ (s.results.length : Int) = made ∧
      next.count q.status = held.count q.status - rule.cost * made ∧
      ∀ name, name ≠ q.status → next.get? name = held.get? name := by
  intro made x
  obtain ⟨attempts, hn⟩ := Int.eq_ofNat_of_zero_le (show 0 ≤ q.attempts by omega)
  have hmany := @Reactive.many R reg held q.status _ status rule r
    { phase := .defenseRoll, roll := q.roll <|> base.roll } hx hw hroll rfl htold attempts
    (some side.name)
  have hx' : x = (attempt side base block reg held q).map (enter (held, [])) :=
    answers_singleton side base block reg hin q held
  have hmade : made =
      r.made (q.roll <|> base.roll) (min attempts (held.count q.status / rule.cost)) := by
    rw [← hn]
    rfl
  rw [attempt_reactive hx, hn] at hx'
  rw [hx', hmade]
  obtain ⟨hzero, hnone⟩ | ⟨hne, out, hout, hlen, hcount, hothers⟩ := hmany
  · refine .inl ⟨hzero, ?_⟩
    rw [hnone]
    change (q.reply none).map (enter (held, [])) = _
    rw [Request.reply]
    split <;> rfl
  · refine .inr ⟨hne, out.next, out.summary, ?_, hlen, hcount, hothers⟩
    rw [hout]
    rfl

def Plan.times (p : Plan R) : Int :=
  total (p.resolution.spends.map fun s => (s.results.length : Int))

/-- How many spends a defence comes to; a refused one comes to none. -/
def timesOf : Except Fault (Plan R) → Int
  | .ok p => p.times
  | .error _ => 0

/-- A request has been met so many times, and that is all that has been done. -/
structure Meets (held : Stacks) (q : Request) (cost made : Int) (x : Except Fault (Plan R)) :
    Prop where
  times : timesOf x = made
  returns : (∃ p, x = .ok p) ↔ made ≠ 0 ∨ q.required = false
  refused : ∀ fault, x = .error fault → fault = .unpaidDefense q.status
  count : ∀ p, x = .ok p →
    p.defender.statuses.count q.status = held.count q.status - cost * made
  others : ∀ p, x = .ok p → ∀ name, name ≠ q.status →
    p.defender.statuses.get? name = held.get? name

omit [Scalar R] in
theorem meets_refused (hq : q.required = true) (cost : Int) :
    Meets held q cost 0 (.error (.unpaidDefense q.status) : Except Fault (Plan R)) where
  times := rfl
  returns := iff_of_false (fun ⟨_, h⟩ => by cases h) (by simp [hq])
  refused := fun _ h => (Except.error.inj h).symm
  count := fun _ h => by cases h
  others := fun _ h => by cases h

omit [Scalar R] in
theorem meets_returned {p : Plan R} {cost made : Int}
    (hr : made ≠ 0 ∨ q.required = false) (ht : p.times = made)
    (hc : p.defender.statuses.count q.status = held.count q.status - cost * made)
    (ho : ∀ name, name ≠ q.status → p.defender.statuses.get? name = held.get? name) :
    Meets held q cost made (.ok p) where
  times := ht
  returns := iff_of_true ⟨p, rfl⟩ hr
  refused := fun _ h => by cases h
  count := fun _ h => Except.ok.inj h ▸ hc
  others := fun _ h => Except.ok.inj h ▸ ho

theorem plan_meets {defender : Player} (hx : Reactive reg q.status status rule r)
    (hw : WellFormed reg defender.statuses) (hroll : Rolled rule (q.roll <|> base.roll))
    (ha : 1 ≤ q.attempts) {incoming : Int} (hin : 0 < incoming) {attacker : Side}
    {fs gs : Formula.Cache} {modified : Modifier.Outcome}
    (hp : (passive defender attacker incoming base reg).run fs = .ok modified gs) :
    let held := (applyStatuses defender.side base defender.statuses reg).value
    let x := result (plan defender attacker incoming base [q] reg) fs
    (held.count q.status < rule.cost ∨ Number.Short ((q.roll <|> base.roll).getD r.threshold)) →
    Meets held q rule.cost (r.made (q.roll <|> base.roll) (q.most held rule.cost)) x.1 := by
  intro held x htold
  have hheld : WellFormed reg held := (applyStatuses_changes base defender.statuses).wellFormed hw
  have hplan : x = _ := plan_result defender attacker incoming base [q] reg fs
  rw [hp] at hplan
  rw [hplan]
  dsimp only
  obtain ⟨hzero, hanswers⟩ | ⟨hne, next, s, hanswers, hlen, hcount, hothers⟩ :=
    @answers_reactive R _ reg defender.side base (max 0 modified.context.block) held q status rule
      r hx hheld hroll ha htold incoming hin
  · rw [hanswers, hzero]
    split
    next hq => exact meets_refused hq rule.cost
    next hq =>
      exact meets_returned (.inr (by simpa using hq)) rfl (by simp [held]) fun _ _ => rfl
  · rw [hanswers]
    refine meets_returned (.inl hne) ?_ hcount hothers
    rw [← hlen]
    exact total_singleton _

/-- Reactions are made as often as they can be, or once. If the passive statuses fail, or if there
is no telling of the roll, none is. -/
theorem plan_reacts_iff {defender : Player} (hx : Reactive reg q.status status rule r)
    (hw : WellFormed reg defender.statuses) (hroll : Rolled rule (q.roll <|> base.roll))
    (ha : 1 ≤ q.attempts) {incoming : Int} (hin : 0 < incoming) (attacker : Side)
    (fs : Formula.Cache) :
    let held := (applyStatuses defender.side base defender.statuses reg).value
    let most := q.most held rule.cost
    let x := result (plan defender attacker incoming base [q] reg) fs
    (q.status ∉ base.applied.names →
      held.count q.status = defender.statuses.count q.status) ∧
    match (passive defender attacker incoming base reg).run fs with
    | .error e gs => x = (.error (.formula e), gs)
    | .ok _ gs => x.2 = gs ∧
      (held.count q.status < rule.cost ∨ Number.Short ((q.roll <|> base.roll).getD r.threshold) →
        Meets held q rule.cost (r.made (q.roll <|> base.roll) most) x.1 ∧
        (timesOf x.1 = most ↔ most ≤ 1 ∨ ∀ n ∈ r.brought (q.roll <|> base.roll), 0 < n)) ∧
      (rule.cost ≤ held.count q.status →
        ¬Number.Short ((q.roll <|> base.roll).getD r.threshold) →
          x.1 = .error (.number .lengthy)) := by
  intro held most x
  refine ⟨fun hid => count_applyStatuses hid defender.statuses, ?_⟩
  have hplan : x = _ := plan_result defender attacker incoming base [q] reg fs
  cases hp : (passive defender attacker incoming base reg).run fs with
  | error e gs => exact hplan.trans (by rw [hp])
  | ok modified gs =>
    rw [hp] at hplan
    refine ⟨congrArg Prod.snd hplan, fun htold => ?_, fun hcost hlong => ?_⟩
    · have hmeets := plan_meets hx hw hroll ha hin hp htold
      exact ⟨hmeets, hmeets.times ▸ r.made_eq_iff _ _⟩
    · rw [hplan]
      dsimp only
      rw [answers_singleton _ _ _ _ hin, attempt_reactive hx,
        hx.many_breaks hroll rfl hcost hlong ha]
      rfl

def shelter : Reaction Rat where
  threshold := 1
  successBlock := some 0
  successFactor := some (1 / 2)

def shellRule : Spend.Rule Rat where
  phases := [.defenseRoll]

def shell : Status Rat where
  id := "shell"
  name := "Shell"
  behavior := some (.reaction shelter)
  spend := some shellRule
  maxStacks := some 2

def shelled : Registry Rat := Registry.empty.define shell

def turtle : Player :=
  { Player.fresh .ai { id := "turtle", name := "Turtle" } with statuses := .ofList [("shell", 2)] }

def bare : Base Rat where
  retaliate := 0

def duck : Request where
  status := "shell"
  attempts := 2

theorem reactive_shell : Reactive shelled "shell" shell shellRule shelter where
  known := Ledger.get?_put_self .empty "shell" shell
  behavior := rfl
  spend := rfl
  hookless := rfl
  costs := Int.le_refl 1
  allowed := List.mem_singleton.mpr rfl

theorem wellFormed_turtle : WellFormed shelled turtle.statuses := by
  intro e he
  obtain rfl : e = ("shell", 2) := List.mem_singleton.mp he
  refine ⟨by decide, fun status most hs hm => ?_⟩
  obtain rfl : shell = status := Option.some.inj (reactive_shell.known.symm.trans hs)
  cases hm
  exact Int.le_refl 2

theorem turtle_reacts : timesOf (result (plan turtle .you 5 bare [duck] shelled) {}).1 = 1 := by
  decide +kernel

/-- There are two stacks and two attempts, and one reaction is made. -/
theorem plan_reacts_iff_turtle : Reactive shelled duck.status shell shellRule shelter ∧
    WellFormed shelled turtle.statuses ∧ Rolled shellRule (duck.roll <|> bare.roll) ∧
    duck.most turtle.statuses shellRule.cost = 2 ∧
    let x := result (plan turtle .you 5 bare [duck] shelled) {}
    Meets turtle.statuses duck shellRule.cost 1 x.1 ∧ timesOf x.1 ≠ 2 := by
  have hroll : Rolled shellRule (duck.roll <|> bare.roll) := fun h => by cases h
  have hmost : duck.most turtle.statuses shellRule.cost = 2 := by decide +kernel
  have hmade : shelter.made (duck.roll <|> bare.roll) (duck.most turtle.statuses shellRule.cost) =
      1 := by
    decide +kernel
  obtain ⟨-, h⟩ := plan_reacts_iff reactive_shell wellFormed_turtle hroll (by decide)
    (show (0 : Int) < 5 by decide) .you {}
  have hmeets : Meets turtle.statuses duck shellRule.cost 1
      (result (plan turtle .you 5 bare [duck] shelled) {}).1 := by
    split at h
    next =>
      have hone := turtle_reacts
      rw [h] at hone
      cases hone
    next => exact hmade ▸ (h.2.1 (.inr (by decide +kernel))).1
  refine ⟨reactive_shell, wellFormed_turtle, hroll, hmost, hmeets, ?_⟩
  rw [hmeets.times]
  decide

/-- A reaction that brings no block keeps the next one from being made. -/
theorem not_met_in_full : ¬∀ (reg : Registry Rat) status rule r defender attacker incoming
    (base : Base Rat) (q : Request) fs, Reactive reg q.status status rule r →
      WellFormed reg defender.statuses → Rolled rule (q.roll <|> base.roll) → 1 ≤ q.attempts →
      0 < incoming → timesOf (result (plan defender attacker incoming base [q] reg) fs).1 =
        min q.attempts (defender.statuses.count q.status / rule.cost) := by
  intro h
  have hfull := h shelled shell shellRule shelter turtle .you 5 bare duck {} reactive_shell
    wellFormed_turtle (fun h => by cases h) (by decide) (by decide)
  rw [turtle_reacts] at hfull
  revert hfull
  decide +kernel

end Defense

end Duel
