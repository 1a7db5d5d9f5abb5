import Duel.Proofs.Stacks.Bounds
import Duel.Proofs.Stacks.Spending
import Mathlib.Data.List.Basic

namespace Duel

namespace Stacks

variable {R : Type} {reg : Registry R} {held next : Stacks} {id : String} {n : Int}

theorem write_write (hn : 0 < n) (held : Stacks) (id : String) (m : Int) :
    (held.write id n).write id m = held.write id m := by
  have hput : held.write id n = held.put id n := if_neg (by omega)
  rw [hput]
  unfold write
  split
  · exact Ledger.erase_put held id n
  · exact Ledger.put_put held id n m

theorem WellFormed.assign_eq (hw : WellFormed reg held) (hc : 0 < held.count id) (h₀ : 0 ≤ n)
    (hn : n ≤ held.count id) (cause : Option Cause) :
    (held.assign id n reg cause).value = held.write id n := by
  have hhas : held.has id = true := by
    rw [Ledger.has_eq]
    unfold count at hc
    cases hg : held.get? id with
    | none => simp [hg] at hc
    | some k => rfl
  have hclamp : Status.clamp (reg.get? id) n = n := by
    obtain ⟨-, hmost⟩ := hw.allowed hc
    unfold Status.clamp
    cases hs : reg.get? id with
    | none => exact Int.max_eq_right h₀
    | some status =>
      cases hm : status.maxStacks with
      | none => simp [hm, Int.max_eq_right h₀]
      | some most =>
        have := hmost status most hs hm
        simp only [hm]
        omega
  unfold assign
  rw [if_neg (by simp [hhas]), hclamp]

variable [Scalar R] {phase : Phase} {ctx : Spend.Context} {owner : Option String}
  {build : Nat → Spend.Context → Spend.Context}

omit [Scalar R] in
theorem roll_carry (phase : Phase) (before ctx : Spend.Context) (result : Spend.Result R) :
    (carry phase before ctx result).roll = ctx.roll.or before.roll := by
  cases h : ctx.roll <;> simp [carry, h]

theorem spend_eq_none {es : List Event} (h : Gives (held.spend id phase ctx reg owner) none es) :
    held.spend id phase ctx reg owner = pure none := by
  obtain hf | ⟨_, _, -, -, -, ⟨fault, -, hf⟩ | ⟨result, _, -, -, hf⟩⟩ :=
    spend_cases held id phase ctx reg owner
  · exact hf
  · rw [hf] at h
    cases h
  · cases (h.unique hf).1

theorem spend_eq_throw {fault : Fault} {es : List Event}
    (h : Breaks (held.spend id phase ctx reg owner) fault es) :
    held.spend id phase ctx reg owner = throw fault ∧ es = [] := by
  obtain hf | ⟨_, _, -, -, -, ⟨_, -, hf⟩ | ⟨result, _, -, -, hf⟩⟩ :=
    spend_cases held id phase ctx reg owner
  · rw [hf] at h
    cases h
  · rw [hf] at h ⊢
    cases h
    exact ⟨rfl, rfl⟩
  · cases Eq.trans (Eq.symm h) hf

omit [Scalar R] in
theorem admits_cost {rule : Spend.Rule R} (h : rule.admits phase ctx n = true) : rule.cost ≤ n := by
  simp only [Spend.Rule.admits, Bool.and_eq_true, decide_eq_true_eq] at h
  exact h.2

section

variable {status : Status R} {rule : Spend.Rule R} (hs : reg.get? id = some status)
  (hr : status.spend = some rule) (hc : 1 ≤ rule.cost)

include hs hr hc

theorem WellFormed.spend_writes (hw : WellFormed reg held) {out : Spend.Outcome R}
    {es : List Event} (h : Gives (held.spend id phase ctx reg owner) (some out) es) :
    rule.cost ≤ held.count id ∧ out.next = held.write id (held.count id - rule.cost) := by
  obtain hf | ⟨s, r, hs', hr', ha, ⟨fault, -, hf⟩ | ⟨result, _, -, rfl, hf⟩⟩ :=
    spend_cases held id phase ctx reg owner
  · rw [hf] at h
    cases h
  · rw [hf] at h
    cases h
  · obtain rfl : status = s := Option.some.inj (hs.symm.trans hs')
    obtain rfl : rule = r := Option.some.inj (hr.symm.trans hr')
    cases (h.unique hf).1
    have hle := admits_cost ha
    exact ⟨hle, hw.assign_eq (by omega) (by omega) (by omega) _⟩

end

/-- A row of spends from attempt `i` on, with the context and the stacks that are left after it and
with all that was told of on the way. -/
inductive Row (id : String) (phase : Phase) (build : Nat → Spend.Context → Spend.Context)
    (reg : Registry R) (owner : Option String) : Nat → Spend.Context → Stacks →
    List (Spend.Result R) → Spend.Context → Stacks → List Event → Prop
  | none (i : Nat) (ctx : Spend.Context) (held : Stacks) :
    Row id phase build reg owner i ctx held [] ctx held []
  | more {i : Nat} {ctx last : Spend.Context} {held next : Stacks} {out : Spend.Outcome R}
    {results : List (Spend.Result R)} {es fs : List Event}
    (spent : Gives (held.spend id phase (build i ctx) reg owner) (some out) es)
    (rest : Row id phase build reg owner (i + 1) (carry phase ctx (build i ctx) out.result)
      out.next results last next fs) :
    Row id phase build reg owner i ctx held (out.result :: results) last next (es ++ fs)

variable {i : Nat} {last : Spend.Context} {results : List (Spend.Result R)} {es : List Event}

/-- The attempts make a row of spends, which goes on as long as it can, or breaks off with the
attempt that does. -/
theorem spendRepeatedly_row (id : String) (phase : Phase)
    (build : Nat → Spend.Context → Spend.Context) (reg : Registry R) (owner : Option String)
    (left i : Nat) (ctx : Spend.Context) (held : Stacks) :
    ∃ results last next es, Row id phase build reg owner i ctx held results last next es ∧
      (Gives (spendRepeatedly id phase build reg owner left i ctx held) (results, next) es ∧
          results.length ≤ left ∧ (results.length = left ∨
            next.spend id phase (build (i + results.length) last) reg owner = pure none) ∨
        results.length < left ∧ ∃ fault,
          Breaks (spendRepeatedly id phase build reg owner left i ctx held) fault es ∧
          next.spend id phase (build (i + results.length) last) reg owner = throw fault) := by
  induction left generalizing i ctx held with
  | zero => exact ⟨[], ctx, held, [], .none i ctx held, .inl ⟨rfl, Nat.le_refl 0, .inl rfl⟩⟩
  | succ left ih =>
    unfold Gives Breaks
    rw [spendRepeatedly_succ]
    rcases hs : (held.spend id phase (build i ctx) reg owner).run with ⟨fault | _ | out, es⟩
    · obtain ⟨hf, rfl⟩ := spend_eq_throw hs
      exact ⟨[], ctx, held, [], .none i ctx held, .inr ⟨Nat.succ_pos left, fault, rfl, hf⟩⟩
    · have hf := spend_eq_none hs
      obtain rfl : es = [] := by
        rw [hf] at hs
        cases hs
        rfl
      exact ⟨[], ctx, held, [], .none i ctx held, .inl ⟨rfl, Nat.zero_le _, .inr hf⟩⟩
    · obtain ⟨results, last, next, fs, hrow, hend⟩ :=
        ih (i + 1) (carry phase ctx (build i ctx) out.result) out.next
      have hplace : i + (out.result :: results).length = i + 1 + results.length := by
        rw [List.length_cons]
        omega
      refine ⟨_, last, next, _, .more hs hrow, ?_⟩
      rw [hplace]
      obtain ⟨hrest, hlen, hend⟩ | ⟨hlen, fault, hrest, hf⟩ := hend
      · refine .inl ⟨?_, Nat.succ_le_succ hlen, hend.imp_left (congrArg Nat.succ)⟩
        dsimp only
        rw [show ExceptT.run _ = _ from hrest]
        rfl
      · refine .inr ⟨Nat.succ_lt_succ hlen, fault, ?_, hf⟩
        dsimp only
        rw [show ExceptT.run _ = _ from hrest]
        rfl

theorem Row.breaks (h : Row id phase build reg owner i ctx held results last next es) {left : Nat}
    (hl : results.length < left) {fault : Fault}
    (hf : next.spend id phase (build (i + results.length) last) reg owner = throw fault) :
    Breaks (spendRepeatedly id phase build reg owner left i ctx held) fault es := by
  induction h generalizing left with
  | none i ctx held =>
    obtain ⟨left, rfl⟩ := Nat.exists_eq_succ_of_ne_zero (by omega : left ≠ 0)
    unfold Breaks
    rw [spendRepeatedly_succ, show held.spend id phase (build i ctx) reg owner = _ from hf]
    rfl
  | @more i ctx last held next out results es fs spent rest ih =>
    obtain ⟨left, rfl⟩ := Nat.exists_eq_succ_of_ne_zero (by omega : left ≠ 0)
    rw [List.length_cons] at hl hf
    have hrest := ih (Nat.succ_lt_succ_iff.mp hl) (by rwa [Nat.add_right_comm, Nat.add_assoc])
    unfold Breaks at hrest ⊢
    rw [spendRepeatedly_succ, show ExceptT.run _ = _ from spent]
    dsimp only
    rw [hrest]
    rfl

theorem Row.eq_nil (h : Row id phase build reg owner i ctx held results last next es)
    (hf : held.spend id phase (build i ctx) reg owner = pure Option.none) :
    results = [] ∧ next = held ∧ last = ctx ∧ es = [] := by
  cases h with
  | none => exact ⟨rfl, rfl, rfl, rfl⟩
  | more spent rest =>
    rw [hf] at spent
    cases spent

/-- Several spends break off with the attempt that does so, after a row of others. -/
theorem spendMany_breaks_iff (held : Stacks) (id : String) (attempts : Int) (phase : Phase)
    (build : Nat → Spend.Context → Spend.Context) (initial : Option Spend.Context)
    (reg : Registry R) (owner : Option String) (fault : Fault) (es : List Event) :
    Breaks (held.spendMany id attempts phase build initial reg owner) fault es ↔
      ∃ results last next,
        Row id phase build reg owner 0 (initial.getD { phase }) held results last next es ∧
        results.length < attempts ∧
        next.spend id phase (build results.length last) reg owner = throw fault := by
  have hrun := spendMany_run held id attempts phase build initial reg owner
  unfold Breaks
  rw [hrun]
  constructor
  · intro h
    split at h
    · cases h
    obtain ⟨results, last, next, fs, hrow, ⟨hx, -, -⟩ | ⟨hlen, fault', hx, hf⟩⟩ :=
      spendRepeatedly_row id phase build reg owner attempts.toNat 0 (initial.getD { phase }) held
    · rw [show ExceptT.run _ = _ from hx] at h
      cases h
    · rw [show ExceptT.run _ = _ from hx] at h
      cases h
      rw [Nat.zero_add] at hf
      exact ⟨results, last, next, hrow, by omega, hf⟩
  · rintro ⟨results, last, next, hrow, hlen, hf⟩
    have hrule : ∃ rule, (reg.get? id).bind (·.spend) = some rule := by
      obtain h | ⟨status, rule, hs, hr, -⟩ :=
        spend_cases next id phase (build results.length last) reg owner
      · rw [hf] at h
        cases congrArg (fun x => (ExceptT.run x).value) h
      · exact ⟨rule, by rw [hs, Option.bind_some, hr]⟩
    obtain ⟨rule, hrule⟩ := hrule
    rw [hrule]
    have hb : Breaks (spendRepeatedly id phase build reg owner attempts.toNat 0
        (initial.getD { phase }) held) fault es :=
      hrow.breaks (by omega) (by rwa [Nat.zero_add])
    dsimp only
    rw [show ExceptT.run _ = _ from hb]
    rfl

section

variable {status : Status R} {rule : Spend.Rule R} (hs : reg.get? id = some status)
  (hr : status.spend = some rule)

include hs hr

theorem spendMany_eq_none_iff (held : Stacks) (attempts : Int) (phase : Phase)
    (build : Nat → Spend.Context → Spend.Context) (initial : Option Spend.Context)
    (owner : Option String) :
    held.spendMany id attempts phase build initial reg owner = pure none ↔
      attempts ≤ 0 ∨
        held.spend id phase (build 0 (initial.getD { phase })) reg owner = pure none := by
  have hmany := spendMany_run held id attempts phase build initial reg owner
  rw [hs, Option.bind_some, hr] at hmany
  obtain ⟨results, last, next, es, hrow, ⟨hx, hlen, hend⟩ | ⟨hlen, fault, hx, hf⟩⟩ :=
    spendRepeatedly_row id phase build reg owner attempts.toNat 0 (initial.getD { phase }) held
  · replace hmany := hmany.trans (congrArg
      (fun x => Traced.mk (x.value.map (settle id rule.cost)) x.events) hx)
    constructor
    · intro h
      rw [h] at hmany
      injection hmany with hnone
      have hnil : results = [] := by
        by_contra hne
        rw [Except.map, settle, if_neg (by simpa using hne)] at hnone
        cases hnone
      subst hnil
      cases hrow
      exact hend.imp_left fun h => by simp at h; omega
    · intro h
      have hnil : results = [] ∧ es = [] := by
        obtain h | h := h
        · obtain rfl := List.eq_nil_of_length_eq_zero (by omega : results.length = 0)
          cases hrow
          exact ⟨rfl, rfl⟩
        · obtain ⟨hnil, -, -, hes⟩ := hrow.eq_nil h
          exact ⟨hnil, hes⟩
      obtain ⟨rfl, rfl⟩ := hnil
      exact ExceptT.ext hmany
  · refine iff_of_false (fun h => ?_) ?_
    · rw [h] at hmany
      have hb : Breaks (pure none : Work (Option (Spend.ManyOutcome R))) fault es :=
        hmany.trans (congrArg
          (fun x => Traced.mk (x.value.map (settle id rule.cost)) x.events) hx)
      cases hb
    · rintro (h | h)
      · omega
      · obtain ⟨rfl, rfl, rfl, -⟩ := hrow.eq_nil h
        rw [Nat.zero_add, List.length_nil, h] at hf
        cases congrArg (fun x => (ExceptT.run x).value) hf

end

section

variable {status : Status R} {rule : Spend.Rule R} (hs : reg.get? id = some status)
  (hr : status.spend = some rule) (hc : 1 ≤ rule.cost)

include hs hr hc

theorem Row.writes (h : Row id phase build reg owner i ctx held results last next es)
    (hw : WellFormed reg held) (hne : results ≠ []) :
    rule.cost * results.length ≤ held.count id ∧
      next = held.write id (held.count id - rule.cost * results.length) := by
  induction h with
  | none => exact absurd rfl hne
  | @more i ctx last held next out results es fs spent rest ih =>
    obtain ⟨hle, hnext⟩ := hw.spend_writes hs hr hc spent
    rw [List.length_cons]
    cases results with
    | nil =>
      cases rest
      simpa using ⟨hle, hnext⟩
    | cons r results =>
      have hbounds := (hw.spend_rewritten spent).bounds
      obtain ⟨hle', hnext'⟩ := ih hbounds (List.cons_ne_nil r results)
      have hcount : out.next.count id = held.count id - rule.cost := by
        rw [hnext, count_write_self held id (by omega)]
      rw [hcount] at hle' hnext'
      have hpos : 0 < held.count id - rule.cost := by
        have : rule.cost * 1 ≤ rule.cost * ((r :: results).length : Int) :=
          Int.mul_le_mul_of_nonneg_left (by simp only [List.length_cons]; omega) (by omega)
        omega
      rw [hnext, write_write hpos] at hnext'
      rw [Int.natCast_add, Int.mul_add]
      exact ⟨by omega, hnext'.trans (congrArg _ (by omega))⟩

/-- What several spends at one price have come to. -/
structure Settles (id : String) (price : Int) (held : Stacks) (out : Spend.ManyOutcome R) :
    Prop where
  afforded : price * out.results.length ≤ held.count id
  left : out.next.get? id =
    if held.count id = price * out.results.length then Option.none
    else some (held.count id - price * out.results.length)
  next : out.next = held.write id (held.count id - price * out.results.length)
  others : ∀ name, name ≠ id → out.next.get? name = held.get? name
  cost : out.cost = price * out.results.length
  spent : out.summary.spent = out.cost
  damage : out.summary.damage = total (out.results.map fun r => r.damage.getD 0)
  block : out.summary.block = total (out.results.map fun r => r.block.getD 0)
  negates : out.summary.negates = true ↔ ∃ r ∈ out.results, r.negates = true
  successes : out.summary.successes = out.results.countP (·.success)
  logs : out.summary.logs = out.results.flatMap fun r => (Event.spoken r.log).toList
  results : out.summary.results = out.results

theorem Row.settles (h : Row id phase build reg owner i ctx held results last next es)
    (hw : WellFormed reg held) (hne : results ≠ []) :
    Settles id rule.cost held ⟨next, results, rule.cost * results.length,
      .ofResults id (rule.cost * results.length) results⟩ := by
  obtain ⟨hle, hnext⟩ := h.writes hs hr hc hw hne
  refine ⟨hle, ?_, hnext, fun name hn => ?_, rfl, rfl, rfl, rfl, ?_, rfl, ?_, rfl⟩
  · dsimp only
    rw [hnext, get?_write_self]
    by_cases hall : held.count id = rule.cost * results.length
    · rw [if_pos hall, if_pos (by omega)]
    · rw [if_neg hall, if_neg (by omega)]
  · dsimp only
    rw [hnext, get?_write_of_ne hn]
  · simp [Spend.Summary.ofResults]
  · exact List.filterMap_eq_flatMap_toList _ _

/-- Nothing comes of several spends if there are no attempts or the first one fails. Otherwise
they are a row of spends that ends with the attempts or where the next one would fail, unless it
breaks off with the next one. -/
theorem spendMany_repeats (hw : WellFormed reg held) (attempts : Int) (phase : Phase)
    (build : Nat → Spend.Context → Spend.Context) (initial : Option Spend.Context)
    (owner : Option String) :
    (held.spendMany id attempts phase build initial reg owner = pure none ↔
      attempts ≤ 0 ∨
        held.spend id phase (build 0 (initial.getD { phase })) reg owner = pure none) ∧
    (∀ out es, Gives (held.spendMany id attempts phase build initial reg owner) (some out) es →
      ∃ last, Row id phase build reg owner 0 (initial.getD { phase }) held out.results last
          out.next es ∧
        1 ≤ out.results.length ∧ out.results.length ≤ attempts ∧
        (out.results.length = attempts ∨
          out.next.spend id phase (build out.results.length last) reg owner = pure none) ∧
        Settles id rule.cost held out) ∧
    ∀ fault es, Breaks (held.spendMany id attempts phase build initial reg owner) fault es ↔
      ∃ results last next,
        Row id phase build reg owner 0 (initial.getD { phase }) held results last next es ∧
        results.length < attempts ∧
        next.spend id phase (build results.length last) reg owner = throw fault := by
  refine ⟨spendMany_eq_none_iff hs hr held attempts phase build initial owner, fun out es h => ?_,
    fun fault es => spendMany_breaks_iff held id attempts phase build initial reg owner fault es⟩
  obtain ⟨rule', p, hrule, hp, hne, hout⟩ := spendMany_gives h
  rw [hs, Option.bind_some, hr] at hrule
  cases hrule
  rw [settle, if_neg (by simpa using hne)] at hout
  cases hout
  obtain ⟨results, last, next, fs, hrow, ⟨hx, hlen, hend⟩ | ⟨-, fault, hx, -⟩⟩ :=
    spendRepeatedly_row id phase build reg owner attempts.toNat 0 (initial.getD { phase }) held
  · obtain ⟨rfl, rfl⟩ := hp.unique hx
    have hpos : 1 ≤ results.length := List.length_pos_of_ne_nil hne
    rw [Nat.zero_add] at hend
    refine ⟨last, hrow, hpos, by dsimp only; omega, hend.imp_left fun h => ?_,
      hrow.settles hs hr hc hw hne⟩
    dsimp only
    omega
  · cases Eq.trans (Eq.symm hp) hx

end

def lunge : Status Rat where
  id := "lunge"
  name := "Lunge"
  behavior := some (.bonusPool { attack := some { damage := some (-4) } })
  spend := some {
    phases := [.attackRoll], cost := 2
    apply := some fun ctx =>
      .ok (if ctx.damage = some 4 then some { damage := some (-3) } else none) }
  maxStacks := some 9

def fencing : Registry Rat := Registry.empty.define lunge

def lunges : Stacks := .ofList [("burn", 1), ("lunge", 7)]

def lunging : Work (Option (Spend.ManyOutcome Rat)) :=
  lunges.spendMany "lunge" 5 .attackRoll (fun _ ctx => ctx)
    (some { phase := .attackRoll, damage := some 4 }) fencing (some "you")

theorem known_lunge : fencing.get? "lunge" = some lunge := Ledger.get?_put_self .empty "lunge" lunge

theorem spendMany_repeats_lunge : WellFormed fencing lunges ∧
    ∃ out es last, Gives lunging (some out) es ∧
      out.results.map (·.damage) = [some (-3), some (-4)] ∧
      out.cost = 4 ∧ out.next.get? "lunge" = some 3 ∧ out.next.get? "burn" = some 1 ∧
      out.next.spend "lunge" .attackRoll last fencing (some "you") = pure none := by
  have hw : WellFormed fencing lunges := by
    have hcounts : ∀ e ∈ lunges.entries, 1 ≤ e.2 ∧ e.2 ≤ 9 := by decide +kernel
    intro e he
    refine ⟨(hcounts e he).1, fun status most hs hm => ?_⟩
    have hlunge : (e.1, status) ∈ [("lunge", lunge)] := Ledger.mem_of_get?_eq_some hs
    obtain rfl : status = lunge := by simpa using congrArg Prod.snd (List.mem_singleton.mp hlunge)
    cases hm
    exact (hcounts e he).2
  obtain ⟨-, hmany, -⟩ := spendMany_repeats known_lunge rfl (by decide) hw 5 .attackRoll
    (fun _ ctx => ctx) (some { phase := .attackRoll, damage := some 4 }) (some "you")
  have hrun : (lunging.run.value.toOption.join.any fun out =>
      out.results.map (·.damage) == [some (-3), some (-4)]) = true := by decide +kernel
  rcases hl : lunging.run with ⟨fault | _ | out, es⟩
  · simp [hl, Except.toOption] at hrun
  · simp [hl, Except.toOption] at hrun
  · have hdamage : out.results.map (·.damage) = [some (-3), some (-4)] := by
      simpa [hl, Except.toOption] using hrun
    have htwo : out.results.length = 2 := by simpa using congrArg List.length hdamage
    obtain ⟨last, -, -, -, hend, hsettles⟩ := hmany out es hl
    have hcount : lunges.count "lunge" = 7 := by decide +kernel
    refine ⟨hw, out, es, last, hl, hdamage, ?_, ?_, ?_, ?_⟩
    · rw [hsettles.cost, htwo]
      rfl
    · rw [hsettles.left, htwo, hcount]
      rfl
    · rw [hsettles.others "burn" (by decide)]
      decide +kernel
    · exact hend.resolve_left (by omega)

end Stacks

end Duel
