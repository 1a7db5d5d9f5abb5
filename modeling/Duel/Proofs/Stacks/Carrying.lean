import Duel.Proofs.Stacks.Repeating
import Duel.Status.Builtin

namespace Duel

def Spend.Context.rolling (ctx : Spend.Context) (roll : Int) : Spend.Context :=
  { ctx with roll := some roll }

namespace Status

variable {R : Type} [Scalar R]

def yields (s : Status R) (rule : Spend.Rule R) (phase : Phase) (held : Int)
    (ctx : Spend.Context) : Except Fault (Option (Spend.Result R)) :=
  if rule.admits phase ctx held then s.spendResult rule phase ctx else .ok none

/-- Whether an attempt comes to something else without a roll: with it, it is admitted, and brings
what it does not bring without. Nothing comes of it where a roll is needed and missing. -/
def Relies (s : Status R) (rule : Spend.Rule R) (phase : Phase) (held : Int) (ctx : Spend.Context)
    (roll : Int) : Prop :=
  rule.admits phase (ctx.rolling roll) held = true ∧
    (if rule.needsRoll then .ok none else s.spendResult rule phase ctx) ≠
      s.spendResult rule phase (ctx.rolling roll)

variable {s : Status R} {rule : Spend.Rule R} {phase : Phase} {held roll : Int}
  {ctx : Spend.Context}

omit [Scalar R] in
theorem admits_of_no_roll (h : ctx.roll = none) (roll : Int) : rule.admits phase ctx held =
    (!rule.needsRoll && rule.admits phase (ctx.rolling roll) held) := by
  cases hn : rule.needsRoll <;> simp [Spend.Rule.admits, Spend.Context.rolling, hn, h]

theorem yields_eq_iff (h : ctx.roll = none) :
    s.yields rule phase held ctx = s.yields rule phase held (ctx.rolling roll) ↔
      ¬s.Relies rule phase held ctx roll := by
  rw [yields, yields, admits_of_no_roll h roll, Relies]
  cases rule.admits phase (ctx.rolling roll) held with
  | false => simp
  | true => cases rule.needsRoll <;> simp

end Status

namespace Stacks

variable {R : Type} [Scalar R]

/-- An attempt at a spend: what is known then, what the one before has handed on, and what is
held. -/
structure Attempt where
  snapshot : Spend.Context
  context : Spend.Context
  held : Stacks

namespace Attempt

def rolling (a : Attempt) (roll : Int) : Attempt := { a with context := a.context.rolling roll }

def spend (id : String) (phase : Phase) (reg : Registry R) (owner : Option String) (a : Attempt) :
    Work (Option (Spend.Outcome R)) :=
  a.held.spend id phase a.context reg owner

def result (id : String) (phase : Phase) (reg : Registry R) (owner : Option String)
    (a : Attempt) : Except Fault (Option (Spend.Result R)) :=
  (a.spend id phase reg owner).run.value.map (Option.map (·.result))

def latestRoll (as : List Attempt) : Option Int := (as.filterMap (·.context.roll)).getLast?

theorem latestRoll_cons (a : Attempt) (as : List Attempt) :
    latestRoll (a :: as) = (latestRoll as).or a.context.roll := by
  unfold latestRoll
  rw [List.filterMap_cons]
  cases a.context.roll with
  | none => exact (Option.or_none).symm
  | some roll => rw [List.getLast?_cons, Option.or_some]

end Attempt

/-- The attempts that are made, from the `i`-th on, until one fails or breaks off, or none is
left. -/
def attempts (id : String) (phase : Phase) (build : Nat → Spend.Context → Spend.Context)
    (reg : Registry R) (owner : Option String) :
    (left i : Nat) → Spend.Context → Stacks → List Attempt
  | 0, _, _, _ => []
  | left + 1, i, snapshot, held =>
    let a : Attempt := ⟨snapshot, build i snapshot, held⟩
    a :: match (a.spend id phase reg owner).run.value with
      | .ok (some out) =>
        attempts id phase build reg owner left (i + 1)
          (carry phase snapshot a.context out.result) out.next
      | _ => []

variable {id : String} {phase : Phase} {build : Nat → Spend.Context → Spend.Context}
  {reg : Registry R} {owner : Option String} {left i : Nat} {snapshot : Spend.Context}
  {held : Stacks}

/-- Spending again and again is making these attempts. -/
theorem spendRepeatedly_attempts (id : String) (phase : Phase)
    (build : Nat → Spend.Context → Spend.Context) (reg : Registry R) (owner : Option String)
    (left i : Nat) (snapshot : Spend.Context) (held : Stacks) :
    let run := (spendRepeatedly id phase build reg owner left i snapshot held).run
    let made := attempts id phase build reg owner left i snapshot held
    run.value.map Prod.fst =
        (made.mapM (Attempt.result id phase reg owner)).map List.reduceOption ∧
      run.events = made.flatMap fun a => (a.spend id phase reg owner).run.events := by
  induction left generalizing i snapshot held with
  | zero => exact ⟨rfl, rfl⟩
  | succ left ih =>
    dsimp only
    rw [attempts, spendRepeatedly_succ, List.mapM_cons, List.flatMap_cons, Attempt.result,
      Attempt.spend]
    rcases (held.spend id phase (build i snapshot) reg owner).run with ⟨fault | _ | out, es⟩
    · exact ⟨rfl, (List.append_nil es).symm⟩
    · exact ⟨rfl, (List.append_nil es).symm⟩
    · obtain ⟨hresults, hevents⟩ := ih (i + 1) (carry phase snapshot (build i snapshot) out.result)
        out.next
      refine ⟨?_, congrArg _ hevents⟩
      have hrest := congrArg (Except.map (out.result :: ·)) hresults
      rw [except_map_map] at hrest
      dsimp only
      rw [except_map_map]
      refine hrest.trans ?_
      cases (attempts id phase build reg owner left (i + 1)
        (carry phase snapshot (build i snapshot) out.result) out.next).mapM
          (Attempt.result id phase reg owner) <;> rfl

/-- What the attempt before has handed on is the latest roll, or the one that was there at
first. -/
theorem snapshot_roll {before after : List Attempt} {a : Attempt}
    (h : attempts id phase build reg owner left i snapshot held = before ++ a :: after) :
    a.snapshot.roll = (Attempt.latestRoll before).or snapshot.roll := by
  induction left generalizing i snapshot held before with
  | zero => simp [attempts] at h
  | succ left ih =>
    rw [attempts] at h
    cases before with
    | nil =>
      cases h
      rfl
    | cons b before =>
      rw [List.cons_append, List.cons.injEq] at h
      obtain ⟨rfl, h⟩ := h
      split at h
      · rw [ih h, Attempt.latestRoll_cons, Option.or_assoc, roll_carry]
      · simp at h

/-- A call comes to what spending again and again comes to. -/
theorem spendMany_runs (held : Stacks) (id : String) (n : Int) (phase : Phase)
    (build : Nat → Spend.Context → Spend.Context) (initial : Option Spend.Context)
    (reg : Registry R) (owner : Option String) :
    let call := (held.spendMany id n phase build initial reg owner).run
    let run :=
      (spendRepeatedly id phase build reg owner n.toNat 0 (initial.getD { phase }) held).run
    call.value.map (·.elim [] (·.results)) = run.value.map Prod.fst ∧
      call.events = run.events := by
  dsimp only
  rw [spendMany_run]
  cases hr : (reg.get? id).bind (·.spend) with
  | none =>
    have hnone (ctx : Spend.Context) : held.spend id phase ctx reg owner = pure none := by
      refine (spend_cases held id phase ctx reg owner).resolve_right ?_
      rintro ⟨status, rule, hs, hrule, -⟩
      simp [hs, hrule] at hr
    cases n.toNat with
    | zero => exact ⟨rfl, rfl⟩
    | succ left =>
      rw [spendRepeatedly, hnone]
      exact ⟨rfl, rfl⟩
  | some rule =>
    refine ⟨?_, rfl⟩
    dsimp only
    rw [except_map_map]
    congr 1
    funext p
    obtain ⟨results, next⟩ := p
    cases results <;> rfl

theorem ruled_of_attempts {before after : List Attempt} {a : Attempt} (hb : before ≠ [])
    (h : attempts id phase build reg owner left i snapshot held = before ++ a :: after) :
    ∃ status rule, reg.get? id = some status ∧ status.spend = some rule := by
  obtain ⟨b, before, rfl⟩ := List.exists_cons_of_ne_nil hb
  cases left with
  | zero => cases h
  | succ left =>
    rw [attempts, Attempt.spend] at h
    obtain ⟨-, h⟩ := List.cons.inj h
    obtain hf | ⟨status, rule, hs, hr, -⟩ :=
      spend_cases held id phase (build i snapshot) reg owner
    · rw [hf] at h
      simp at h
    · exact ⟨status, rule, hs, hr⟩

section

variable {status : Status R} {rule : Spend.Rule R} (hs : reg.get? id = some status)
  (hr : status.spend = some rule)

include hs hr

theorem spend_eq (held : Stacks) (ctx : Spend.Context) : held.spend id phase ctx reg owner =
    (do
      match ← ofExcept (status.yields rule phase (held.count id) ctx) with
      | none => return none
      | some result =>
        let next ← ExceptT.lift (held.assign id (held.count id - rule.cost) reg
          (causeFor owner .spend phase.name none))
        return some ⟨next, result⟩) := by
  rw [spend, hs]
  dsimp only
  rw [hr, Status.yields]
  dsimp only
  cases rule.admits phase ctx (held.count id) with
  | false => rfl
  | true => rfl

theorem result_eq (a : Attempt) : a.result id phase reg owner =
    status.yields rule phase (a.held.count id) a.context := by
  rw [Attempt.result, Attempt.spend, spend_eq hs hr]
  rcases status.yields rule phase (a.held.count id) a.context with fault | _ | result
  · rfl
  · rfl
  · rfl

/-- One roll more makes a difference to a spend exactly if something else comes of it. -/
theorem spend_rolling_iff (a : Attempt) (ha : a.context.roll = none) (roll : Int) :
    a.spend id phase reg owner = (a.rolling roll).spend id phase reg owner ↔
      ¬status.Relies rule phase (a.held.count id) a.context roll := by
  rw [← Status.yields_eq_iff ha]
  refine ⟨fun h => ?_, fun h => ?_⟩
  · have hresult := congrArg (fun x => (ExceptT.run x).value.map (Option.map (·.result))) h
    exact (result_eq hs hr a).symm.trans (hresult.trans (result_eq hs hr (a.rolling roll)))
  · rw [Attempt.spend, Attempt.spend, spend_eq hs hr, spend_eq hs hr, Attempt.rolling]
    dsimp only
    rw [h]

end

/-- A call is a row of attempts, each of which is told of the latest roll before it. An attempt that
is made without a roll all the same comes to what it would come to with that roll, unless it relies
on one. -/
theorem carries_iff (held : Stacks) (id : String) (n : Int) (phase : Phase)
    (build : Nat → Spend.Context → Spend.Context) (initial : Option Spend.Context)
    (reg : Registry R) (owner : Option String) :
    let call := (held.spendMany id n phase build initial reg owner).run
    let made := attempts id phase build reg owner n.toNat 0 (initial.getD { phase }) held
    (call.value.map (·.elim [] (·.results)) =
        (made.mapM (Attempt.result id phase reg owner)).map List.reduceOption ∧
      call.events = made.flatMap fun a => (a.spend id phase reg owner).run.events) ∧
    ∀ before a after roll, made = before ++ a :: after → a.context.roll = none →
      Attempt.latestRoll before = some roll →
      a.snapshot.roll = some roll ∧
      ∃ status rule, reg.get? id = some status ∧ status.spend = some rule ∧
        (a.spend id phase reg owner = (a.rolling roll).spend id phase reg owner ↔
          ¬status.Relies rule phase (a.held.count id) a.context roll) := by
  refine ⟨?_, fun before a after roll hmade ha hroll => ?_⟩
  · have hruns := spendMany_runs held id n phase build initial reg owner
    have hmade := spendRepeatedly_attempts id phase build reg owner n.toNat 0
      (initial.getD { phase }) held
    exact ⟨hruns.1.trans hmade.1, hruns.2.trans hmade.2⟩
  · have hb : before ≠ [] := by
      rintro rfl
      cases hroll
    obtain ⟨status, rule, hs, hr⟩ := ruled_of_attempts hb hmade
    refine ⟨?_, status, rule, hs, hr, spend_rolling_iff hs hr a ha roll⟩
    rw [snapshot_roll hmade, hroll, Option.some_or]

/-- A roll is there for the first attempt only. -/
def once (roll : Int) (i : Nat) (ctx : Spend.Context) : Spend.Context :=
  { ctx with roll := if i = 0 then some roll else none }

def bare (id : String) (roll : Int) (block : Option Int) : Attempt :=
  ⟨{ phase := .defenseRoll, roll := some roll, block }, { phase := .defenseRoll, block },
    .ofList [(id, 1)]⟩

def dodge : Attempt :=
  ⟨{ phase := .defenseRoll }, { phase := .defenseRoll, roll := some 6 }, .ofList [("evasive", 2)]⟩

/-- A second dodge, which needs a roll, is not made. -/
theorem carries_iff_dodges : attempts "evasive" .defenseRoll (once 6) Registry.builtin none 2 0
      { phase := .defenseRoll } (.ofList [("evasive", 2)]) = [dodge] ++ [bare "evasive" 6 none] ∧
    (bare "evasive" 6 none).context.roll = none ∧ Attempt.latestRoll [dodge] = some 6 ∧
    (bare "evasive" 6 none).spend "evasive" .defenseRoll Registry.builtin none ≠
      ((bare "evasive" 6 none).rolling 6).spend "evasive" .defenseRoll Registry.builtin none := by
  refine ⟨rfl, rfl, rfl, fun h => ?_⟩
  obtain ⟨-, status, rule, hs, hr, hiff⟩ := (carries_iff (.ofList [("evasive", 2)]) "evasive" 2
    .defenseRoll (once 6) none Registry.builtin none).2 [dodge] (bare "evasive" 6 none) [] 6 rfl
    rfl rfl
  obtain rfl : Status.Builtin.evasive = status := Option.some.inj hs
  cases hr
  exact hiff.mp h ⟨by decide +kernel, fun hsame =>
    absurd (congrArg (fun x => x.toOption.join.isSome) hsame) (by decide +kernel)⟩

def guarded : Attempt :=
  ⟨{ phase := .defenseRoll }, { phase := .defenseRoll, roll := some 6 }, .ofList [("chi", 2)]⟩

/-- The second chi, which makes do without a roll, blocks less than with the roll of the first. -/
theorem not_carried : ¬∀ (held : Stacks) (id : String) (n : Int) (phase : Phase)
    (build : Nat → Spend.Context → Spend.Context) (initial : Option Spend.Context)
    (reg : Registry Number) (owner : Option String) (before after : List Attempt) (a : Attempt)
    (roll : Int),
    attempts id phase build reg owner n.toNat 0 (initial.getD { phase }) held =
        before ++ a :: after →
      a.context.roll = none → Attempt.latestRoll before = some roll →
      a.spend id phase reg owner = (a.rolling roll).spend id phase reg owner := by
  intro hall
  have h := hall (.ofList [("chi", 2)]) "chi" 2 .defenseRoll (once 6) none .builtin none [guarded]
    [] (bare "chi" 6 (some 2)) 6 rfl rfl rfl
  have hblock := congrArg (fun x => (ExceptT.run x).value.toOption.join.map (·.result.block)) h
  exact absurd hblock (by decide +kernel)

end Stacks

end Duel
