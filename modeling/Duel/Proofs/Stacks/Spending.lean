import Duel.Proofs.Number
import Duel.Proofs.Stacks.Rules
import Duel.Proofs.Work

namespace Duel

variable {R : Type}

/-- All that the statuses bring when they are spent is of a kind. -/
def Registry.Brings [Scalar R] (P : Spend.Result R → Prop) (reg : Registry R) : Prop :=
  ∀ id status rule phase ctx r, reg.get? id = some status → status.spend = some rule →
    status.spendResult rule phase ctx = .ok (some r) → P r

namespace Stacks

variable {reg : Registry R} {held other : Stacks} {id : String} {n : Int}

theorem get?_write_self (held : Stacks) (id : String) (n : Int) :
    (held.write id n).get? id = if n ≤ 0 then none else some n := by
  unfold write
  split
  · exact Ledger.get?_erase_self held id
  · exact Ledger.get?_put_self held id n

theorem get?_write_of_ne {name : String} (h : name ≠ id) (held : Stacks) (n : Int) :
    (held.write id n).get? name = held.get? name := by
  unfold write
  split
  · exact Ledger.get?_erase_of_ne h held
  · exact Ledger.get?_put_of_ne h held n

theorem get?_assign_of_ne {name : String} (h : name ≠ id) (held : Stacks) (n : Int)
    (cause : Option Cause) : (held.assign id n reg cause).value.get? name = held.get? name := by
  unfold assign
  split
  · rfl
  · exact get?_write_of_ne h held _

theorem get?_assign_congr (h : held.get? id = other.get? id) (n : Int) (cause : Option Cause) :
    (held.assign id n reg cause).value.get? id = (other.assign id n reg cause).value.get? id := by
  unfold assign
  rw [Ledger.has_eq, Ledger.has_eq, h]
  split
  · exact h
  · dsimp only
    rw [get?_write_self, get?_write_self]

theorem count_congr (h : held.get? id = other.get? id) : held.count id = other.count id := by
  rw [count, count, h]

variable [Scalar R] {phase : Phase} {ctx : Spend.Context} {owner : Option String}
  {es : List Event}

theorem spend_some {out : Spend.Outcome R}
    (h : Gives (held.spend id phase ctx reg owner) (some out) es) : ∃ status rule cause,
      reg.get? id = some status ∧ status.spend = some rule ∧
      status.spendResult rule phase ctx = .ok (some out.result) ∧
      out.next = (held.assign id (held.count id - rule.cost) reg cause).value := by
  obtain hf | ⟨status, rule, hs, hr, -, ⟨fault, -, hf⟩ | ⟨result, _, ho, rfl, hf⟩⟩ :=
    spend_cases held id phase ctx reg owner
  · rw [hf] at h
    cases h
  · rw [hf] at h
    cases h
  · obtain ⟨hout, -⟩ := h.unique hf
    cases hout
    exact ⟨status, rule, _, hs, hr, ho, rfl⟩

theorem spend_frame {out : Spend.Outcome R}
    (h : Gives (held.spend id phase ctx reg owner) (some out) es) {name : String} (hn : name ≠ id) :
    out.next.get? name = held.get? name := by
  obtain ⟨_, _, cause, -, -, -, hnext⟩ := spend_some h
  rw [hnext, get?_assign_of_ne hn]

theorem spend_congr (h : held.get? id = other.get? id) (phase : Phase) (ctx : Spend.Context)
    (reg : Registry R) (owner : Option String) :
    (held.spend id phase ctx reg owner).run.value.map
        (Option.map fun out => (out.next.get? id, out.result)) =
      (other.spend id phase ctx reg owner).run.value.map
        (Option.map fun out => (out.next.get? id, out.result)) := by
  unfold spend
  rw [count_congr h]
  cases reg.get? id with
  | none => rfl
  | some status =>
    dsimp only
    cases status.spend with
    | none => rfl
    | some rule =>
      dsimp only
      split
      · rfl
      · cases status.spendResult rule phase ctx with
        | error fault => rfl
        | ok result =>
          cases result with
          | none => rfl
          | some result =>
            rw [ofExcept_ok_bind, ofExcept_ok_bind, (gives_lift _).andThen, (gives_lift _).andThen]
            exact congrArg (fun n => Except.ok (some (n, result))) (get?_assign_congr h _ _)

theorem spend_brings {P : Spend.Result R → Prop} (hP : reg.Brings P) {out : Spend.Outcome R}
    (h : Gives (held.spend id phase ctx reg owner) (some out) es) : P out.result := by
  obtain ⟨status, rule, _, hs, hr, ho, -⟩ := spend_some h
  exact hP id status rule phase ctx out.result hs hr ho

theorem spend_gives_iff (held : Stacks) (id : String) (phase : Phase) (ctx : Spend.Context)
    (reg : Registry R) (owner : Option String) :
    (∃ out es, Gives (held.spend id phase ctx reg owner) out es) ↔
      ∀ status rule, reg.get? id = some status → status.spend = some rule →
        rule.admits phase ctx (held.count id) = true →
          ∃ result, status.spendResult rule phase ctx = .ok result := by
  constructor
  · rintro ⟨out, es, h⟩ status rule hs hr ha
    cases ho : status.spendResult rule phase ctx with
    | ok result => exact ⟨result, rfl⟩
    | error fault =>
      have hx : held.spend id phase ctx reg owner = throw fault := by
        unfold spend
        simp only [hs, hr, ha, ho, Bool.not_true, Bool.false_eq_true, if_false]
        exact ofExcept_error_bind fault _
      rw [hx] at h
      cases h
  · intro h
    obtain hx | ⟨status, rule, hs, hr, ha, ⟨fault, ho, -⟩ | ⟨result, paid, -, -, hx⟩⟩ :=
      spend_cases held id phase ctx reg owner
    · rw [hx]
      exact ⟨none, [], rfl⟩
    · obtain ⟨result, hok⟩ := h status rule hs hr ha
      rw [ho] at hok
      cases hok
    · exact ⟨_, _, hx⟩

variable {build : Nat → Spend.Context → Spend.Context}

theorem spendRepeatedly_gives {left i : Nat} {p : List (Spend.Result R) × Stacks}
    (h : Gives (spendRepeatedly id phase build reg owner left i ctx held) p es) :
    p = ([], held) ∨ ∃ out rest n fs gs,
      Gives (held.spend id phase (build i ctx) reg owner) (some out) fs ∧ left = n + 1 ∧
      Gives (spendRepeatedly id phase build reg owner n (i + 1)
        (carry phase ctx (build i ctx) out.result) out.next) rest gs ∧
      p = (out.result :: rest.1, rest.2) := by
  cases left with
  | zero =>
    cases h
    exact .inl rfl
  | succ left =>
    rw [Gives, spendRepeatedly_succ] at h
    split at h
    · cases h
    · cases h
      exact .inl rfl
    next out fs hs =>
      dsimp only at h
      rcases hy : (spendRepeatedly id phase build reg owner left (i + 1)
        (carry phase ctx (build i ctx) out.result) out.next).run with ⟨_ | rest, gs⟩
      · rw [hy] at h
        cases h
      · rw [hy] at h
        cases h
        exact .inr ⟨out, rest, left, fs, gs, hs, rfl, hy, rfl⟩

theorem spendRepeatedly_frame {left i : Nat} {p : List (Spend.Result R) × Stacks}
    (h : Gives (spendRepeatedly id phase build reg owner left i ctx held) p es) {name : String}
    (hn : name ≠ id) : p.2.get? name = held.get? name := by
  induction left generalizing i ctx held p es with
  | zero =>
    cases h
    rfl
  | succ left ih =>
    obtain rfl | ⟨out, rest, _, _, _, hs, hleft, hrest, rfl⟩ := spendRepeatedly_gives h
    · rfl
    · cases hleft
      exact (ih hrest).trans (spend_frame hs hn)

theorem spendRepeatedly_congr {held other : Stacks} (h : held.get? id = other.get? id)
    (phase : Phase) (build : Nat → Spend.Context → Spend.Context) (reg : Registry R)
    (owner : Option String) (left i : Nat) (ctx : Spend.Context) :
    (spendRepeatedly id phase build reg owner left i ctx held).run.value.map
        (fun p => (p.1, p.2.get? id)) =
      (spendRepeatedly id phase build reg owner left i ctx other).run.value.map
        (fun p => (p.1, p.2.get? id)) := by
  induction left generalizing i ctx held other with
  | zero => exact congrArg (fun n => Except.ok ([], n)) h
  | succ left ih =>
    have hc := spend_congr h phase (build i ctx) reg owner
    rw [spendRepeatedly_succ, spendRepeatedly_succ]
    rcases hx : (held.spend id phase (build i ctx) reg owner).run with ⟨fault | _ | x, es⟩ <;>
      rcases hy : (other.spend id phase (build i ctx) reg owner).run with ⟨fault' | _ | y, fs⟩ <;>
      simp [Except.map, hx, hy] at hc
    · rw [hc]
    · exact congrArg (fun n => Except.ok ([], n)) h
    · obtain ⟨hnext, hresult⟩ := hc
      dsimp only
      rw [hresult]
      -- The rest of the row differs in nothing but the other statuses that are left.
      have hrest := congrArg (Except.map fun p => (y.result :: p.1, p.2))
        (ih hnext (i + 1) (carry phase ctx (build i ctx) y.result))
      rw [except_map_map, except_map_map] at hrest
      rw [except_map_map, except_map_map]
      exact hrest

theorem spendRepeatedly_brings {P : Spend.Result R → Prop} (hP : reg.Brings P) {left i : Nat}
    {p : List (Spend.Result R) × Stacks}
    (h : Gives (spendRepeatedly id phase build reg owner left i ctx held) p es) :
    ∀ r ∈ p.1, P r := by
  induction left generalizing i ctx held p es with
  | zero =>
    cases h
    exact List.forall_mem_nil _
  | succ left ih =>
    obtain rfl | ⟨out, rest, _, _, _, hs, hleft, hrest, rfl⟩ := spendRepeatedly_gives h
    · exact List.forall_mem_nil _
    · cases hleft
      exact List.forall_mem_cons.mpr ⟨spend_brings hP hs, ih hrest⟩

variable {attempts : Int} {initial : Option Spend.Context}

def settle (id : String) (cost : Int) (p : List (Spend.Result R) × Stacks) :
    Option (Spend.ManyOutcome R) :=
  if p.1.isEmpty then none
  else some ⟨p.2, p.1, cost * p.1.length, .ofResults id (cost * p.1.length) p.1⟩

theorem spendMany_run (held : Stacks) (id : String) (attempts : Int) (phase : Phase)
    (build : Nat → Spend.Context → Spend.Context) (initial : Option Spend.Context)
    (reg : Registry R) (owner : Option String) :
    (held.spendMany id attempts phase build initial reg owner).run =
      match (reg.get? id).bind (·.spend) with
      | none => ⟨.ok none, []⟩
      | some rule =>
        let x := (spendRepeatedly id phase build reg owner attempts.toNat 0
          (initial.getD { phase }) held).run
        ⟨x.value.map (settle id rule.cost), x.events⟩ := by
  unfold spendMany
  cases (reg.get? id).bind (·.spend) with
  | none => rfl
  | some rule =>
    dsimp only
    rcases hx : (spendRepeatedly id phase build reg owner attempts.toNat 0
      (initial.getD { phase }) held).run with ⟨_ | ⟨results, next⟩, es⟩
    · exact Breaks.bind hx _
    · rw [Gives.andThen hx]
      cases results with
      | nil => exact congrArg (Traced.mk _) (List.append_nil es)
      | cons r results => exact congrArg (Traced.mk _) (List.append_nil es)

theorem spendMany_gives {out : Spend.ManyOutcome R}
    (h : Gives (held.spendMany id attempts phase build initial reg owner) (some out) es) :
    ∃ rule p, (reg.get? id).bind (·.spend) = some rule ∧
      Gives (spendRepeatedly id phase build reg owner attempts.toNat 0
        (initial.getD { phase }) held) p es ∧ p.1 ≠ [] ∧ settle id rule.cost p = some out := by
  rw [Gives, spendMany_run] at h
  split at h
  · cases h
  next rule hr =>
    rcases hx : (spendRepeatedly id phase build reg owner attempts.toNat 0
      (initial.getD { phase }) held).run with ⟨_ | p, fs⟩
    · rw [hx] at h
      cases h
    · rw [hx] at h
      injection h with hv he
      have hs : settle id rule.cost p = some out := Except.ok.inj hv
      refine ⟨rule, p, hr, he ▸ hx, fun hnil => ?_, hs⟩
      rw [settle, hnil] at hs
      cases hs

theorem spendMany_frame {out : Spend.ManyOutcome R}
    (h : Gives (held.spendMany id attempts phase build initial reg owner) (some out) es)
    {name : String} (hn : name ≠ id) : out.next.get? name = held.get? name := by
  obtain ⟨rule, p, -, hp, hne, ho⟩ := spendMany_gives h
  rw [settle, if_neg (by simpa using hne)] at ho
  cases ho
  exact spendRepeatedly_frame hp hn

theorem spendMany_congr (h : held.get? id = other.get? id) (attempts : Int) (phase : Phase)
    (build : Nat → Spend.Context → Spend.Context) (initial : Option Spend.Context)
    (reg : Registry R) (owner : Option String) :
    (held.spendMany id attempts phase build initial reg owner).run.value.map
        (Option.map fun out => (out.next.get? id, out.summary)) =
      (other.spendMany id attempts phase build initial reg owner).run.value.map
        (Option.map fun out => (out.next.get? id, out.summary)) := by
  rw [spendMany_run, spendMany_run]
  cases (reg.get? id).bind (·.spend) with
  | none => rfl
  | some rule =>
    have hc := congrArg (Except.map fun p =>
      if p.1.isEmpty then none
      else some (p.2, Spend.Summary.ofResults id (rule.cost * p.1.length) p.1))
        (spendRepeatedly_congr h phase build reg owner attempts.toNat 0 (initial.getD { phase }))
    have hs : ∀ p : List (Spend.Result R) × Stacks,
        ((settle id rule.cost p).map fun out => (out.next.get? id, out.summary)) =
          if p.1.isEmpty then none
          else some (p.2.get? id, Spend.Summary.ofResults id (rule.cost * p.1.length) p.1) := by
      intro p
      unfold settle
      split <;> rfl
    rw [except_map_map, except_map_map] at hc
    dsimp only
    rw [except_map_map, except_map_map]
    simpa only [hs] using hc

theorem spendMany_brings {P : Spend.Result R → Prop} (hP : reg.Brings P)
    {out : Spend.ManyOutcome R}
    (h : Gives (held.spendMany id attempts phase build initial reg owner) (some out) es) :
    ∀ r ∈ out.summary.results, P r := by
  obtain ⟨rule, p, -, hp, hne, ho⟩ := spendMany_gives h
  rw [settle, if_neg (by simpa using hne)] at ho
  cases ho
  exact spendRepeatedly_brings hP hp

end Stacks

variable [Scalar R]

def Spend.Result.Mild (r : Spend.Result R) : Prop :=
  ∀ f, r.factor = some f → Scalar.InUnit f

/-- The hooks of the statuses bring nothing but mild results. -/
def Registry.Mild (reg : Registry R) : Prop :=
  ∀ id status rule hook ctx r, reg.get? id = some status → status.spend = some rule →
    rule.apply = some hook → hook ctx = .ok (some r) → r.Mild

theorem BonusPool.spend_mild {pool : BonusPool} {name : String} {phase : Phase}
    {r : Spend.Result R} (h : pool.spend name phase = .ok (some r)) : r.Mild := by
  have hr : r.factor = none := by
    unfold BonusPool.spend at h
    split at h
    · obtain ⟨⟨b, n⟩, -, h⟩ := option_mapM_ok h
      obtain ⟨log, -, h⟩ := except_bind_ok h
      cases h
      rfl
    · obtain ⟨⟨b, n⟩, -, h⟩ := option_mapM_ok h
      obtain ⟨log, -, h⟩ := except_bind_ok h
      cases h
      rfl
    · cases h
  intro f hf
  rw [hr] at hf
  cases hf

variable [Scalar.Signed R]

theorem Reaction.spend_mild {reaction : Reaction R} {name : String} {needsRoll : Bool}
    {roll : Option Int} {r : Spend.Result R}
    (h : reaction.spend name needsRoll roll = .ok (some r)) : r.Mild := by
  have hclamp : ∀ {x : Option R} {f}, x.map Reaction.clampFactor = some f → Scalar.InUnit f := by
    rintro x f hf
    obtain ⟨y, -, rfl⟩ := Option.map_eq_some_iff.mp hf
    exact Scalar.Signed.inUnit_clampUnit _
  unfold Reaction.spend at h
  split at h
  · cases h
  · obtain ⟨digits, -, h⟩ := except_map_ok h
    cases h
    unfold Reaction.outcome
    dsimp only
    split <;> exact fun f => hclamp

theorem Behavior.spend_mild {b : Behavior R} {name : String} {needsRoll : Bool}
    {ctx : Spend.Context} {phase : Phase} {r : Spend.Result R}
    (h : b.spend name needsRoll ctx phase = .ok (some r)) : r.Mild := by
  cases b with
  | bonusPool pool => exact BonusPool.spend_mild h
  | reaction reaction => exact Reaction.spend_mild h
  | affliction | script => cases h

omit [Scalar R] [Scalar.Signed R] in
theorem Status.firstAnswer_ok {α : Type} {hook behavior : Except Fault (Option α)} {a : α}
    (h : firstAnswer hook behavior = .ok (some a)) :
    hook = .ok (some a) ∨ hook = .ok none ∧ behavior = .ok (some a) := by
  unfold firstAnswer at h
  split at h
  · exact .inr ⟨rfl, h⟩
  · exact .inl h

theorem Registry.Mild.brings {reg : Registry R} (h : reg.Mild) :
    reg.Brings Spend.Result.Mild := by
  intro id status rule phase ctx r hs hr hspend
  unfold Status.spendResult at hspend
  obtain ha | ⟨-, hb⟩ := Status.firstAnswer_ok hspend
  · cases hrule : rule.apply with
    | none =>
      rw [hrule] at ha
      cases ha
    | some hook =>
      rw [hrule] at ha
      exact h id status rule hook _ r hs hr hrule ha
  · cases hbehavior : status.behavior with
    | none =>
      rw [hbehavior] at hb
      cases hb
    | some b =>
      rw [hbehavior] at hb
      exact Behavior.spend_mild (mapError_ok hb)

end Duel
