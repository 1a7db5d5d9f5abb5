import Mathlib.Data.List.Basic
import Duel.Proofs.Status.Definitions
import Duel.Proofs.Work
import Duel.Status.Modifier

namespace Duel

namespace Modifier

theorem Effect.atMost_trans (a b c : Effect) (hab : a.atMost b) (hbc : b.atMost c) :
    a.atMost c := by
  simp only [Effect.atMost, decide_eq_true_eq] at *
  omega

theorem Effect.atMost_total (a b : Effect) : a.atMost b || b.atMost a := by
  simp only [Effect.atMost, Bool.or_eq_true, decide_eq_true_eq]
  omega

def SameSides (a b : Context) : Prop :=
  b.stance = a.stance ∧ b.attacker = a.attacker ∧ b.defender = a.defender

theorem enter_sides {ctx : Context} {o : Outcome} (h : SameSides ctx o.context)
    (r : Option Result) : SameSides ctx (o.enter r).context := by
  cases r with
  | none => exact h
  | some r => exact h

end Modifier

open Modifier (Context Outcome Effect SameSides)
open Formula (Kept)

/-- What the hook of a status has to say to an attack. Without a hook it says nothing. -/
def Status.answer {R : Type} (s : Status R) : Int → Context → Kept (Option Modifier.Result) :=
  s.onModify.getD fun _ _ => return none

namespace Stacks

variable {R : Type} {held other : Stacks} {reg : Registry R} {s : Status R} {ctx : Context}

def Bears (held : Stacks) (reg : Registry R) (s : Status R) : Prop :=
  reg.get? s.id = some s ∧ s.onModify.isSome ∧ 0 < held.count s.id

/-- Lets some statuses answer one after the other. -/
def inTurn (held : Stacks) : List (Status R) → Outcome → Kept Outcome
  | [], o => return o
  | s :: later, o => do
    let answer ← s.answer (held.count s.id) o.context
    inTurn held later (o.enter answer)

def bearer (reg : Registry R) (e : String × Int) : Option (Status R) :=
  if e.2 ≤ 0 then none else (reg.get? e.1).filter (·.onModify.isSome)

def bearing (held : Stacks) (reg : Registry R) : List (Status R) :=
  held.entries.filterMap (bearer reg)

def effectOf (held : Stacks) (reg : Registry R) (s : Status R) : Effect :=
  ⟨s.priority, reg.orderOf s.id, held.count s.id, s.answer⟩

def atMost (reg : Registry R) (a b : Status R) : Bool :=
  decide (a.priority < b.priority ∨
    (a.priority = b.priority ∧ reg.orderOf a.id ≤ reg.orderOf b.id))

def turns (held : Stacks) (reg : Registry R) : List (Status R) :=
  (held.bearing reg).mergeSort (atMost reg)

theorem count_of_mem {e : String × Int} (h : e ∈ held.entries) : held.count e.1 = e.2 := by
  rw [count, Ledger.get?_of_mem h, Option.getD_some]

theorem bearer_eq_some {e : String × Int} :
    bearer reg e = some s ↔
      s.id = e.1 ∧ reg.get? s.id = some s ∧ s.onModify.isSome ∧ 0 < e.2 := by
  unfold bearer
  by_cases hn : e.2 ≤ 0
  · have hn' : ¬0 < e.2 := by omega
    simp [hn, hn']
  · rw [if_neg hn, Option.filter_eq_some_iff]
    constructor
    · intro h
      have hid : s.id = e.1 := Registry.id_of_get? h.1
      exact ⟨hid, hid ▸ h.1, h.2, by omega⟩
    · rintro ⟨hid, hk, hook, -⟩
      exact ⟨hid ▸ hk, hook⟩

theorem mem_bearing : s ∈ held.bearing reg ↔ held.Bears reg s := by
  simp only [bearing, List.mem_filterMap, bearer_eq_some]
  constructor
  · rintro ⟨e, he, hid, hk, hook, hn⟩
    rw [← count_of_mem he, ← hid] at hn
    exact ⟨hk, hook, hn⟩
  · rintro ⟨hk, hook, hc⟩
    cases hg : held.get? s.id with
    | none => simp [count, hg] at hc
    | some n =>
      have hn : 0 < n := by simpa [count, hg] using hc
      exact ⟨_, Ledger.mem_of_get?_eq_some hg, rfl, hk, hook, hn⟩

theorem mem_turns : s ∈ held.turns reg ↔ held.Bears reg s := by
  rw [turns, List.mem_mergeSort, mem_bearing]

theorem effects_eq (held : Stacks) (reg : Registry R) :
    held.effects reg = (held.turns reg).map (held.effectOf reg) := by
  have hsort : (held.turns reg).map (held.effectOf reg) =
      ((held.bearing reg).map (held.effectOf reg)).mergeSort Effect.atMost :=
    List.map_mergeSort fun _ _ _ _ => rfl
  rw [hsort, effects, bearing, List.map_filterMap]
  refine congrArg (List.mergeSort · Effect.atMost) (List.filterMap_congr fun e he => ?_)
  obtain ⟨id, n⟩ := e
  unfold bearer
  by_cases hn : n ≤ 0
  · simp [hn]
  · cases hg : reg.get? id with
    | none => simp [hn, hg]
    | some s =>
      obtain rfl := Registry.id_of_get? hg
      have hc : held.count s.id = n := count_of_mem he
      cases hook : s.onModify with
      | none => simp [hn, hg, hook, Option.filter_some]
      | some f => simp [hn, hg, hook, hc, effectOf, Status.answer, Option.filter_some]

theorem modify_eq (held : Stacks) (ctx : Context) (reg : Registry R) :
    held.modify ctx reg = held.inTurn (held.turns reg) ⟨ctx, []⟩ := by
  rw [modify, effects_eq]
  generalize held.turns reg = ss
  generalize (⟨ctx, []⟩ : Outcome) = o
  induction ss generalizing o with
  | nil => rfl
  | cons s ss ih =>
    rw [List.map_cons, List.foldlM_cons, inTurn, bind_assoc]
    simp only [pure_bind, ih, effectOf]

theorem nodup_turns (held : Stacks) (reg : Registry R) : (held.turns reg).Nodup := by
  rw [turns, (List.mergeSort_perm _ _).nodup_iff, bearing, List.nodup_iff_pairwise_ne,
    List.pairwise_filterMap]
  apply (List.pairwise_map.mp held.distinct).imp
  intro d e hne a ha b hb hab
  exact hne ((bearer_eq_some.mp ha).1.symm.trans
    ((congrArg Status.id hab).trans (bearer_eq_some.mp hb).1))

/-- Priorities come first; of two that are the same, the status that was defined first. -/
def Before (calls : List Registry.Call) (a b : Status Number) : Prop :=
  a.priority < b.priority ∨
    (a.priority = b.priority ∧ Registry.first calls a.id < Registry.first calls b.id)

variable {calls : List Registry.Call} {xs ys : List (Status Number)}

theorem turns_before (held : Stacks) (calls : List Registry.Call) :
    (held.turns (.after calls)).Pairwise (Before calls) := by
  let effect := held.effectOf (.after calls)
  have hsorted : (held.turns (.after calls)).Pairwise fun a b => atMost (.after calls) a b = true :=
    List.pairwise_mergeSort (fun a b c => Effect.atMost_trans (effect a) (effect b) (effect c))
      (fun a b => Effect.atMost_total (effect a) (effect b)) _
  refine (hsorted.and (nodup_turns held (.after calls))).imp_of_mem fun {a b} ha hb h => ?_
  have hne : (Registry.after calls).orderOf a.id ≠ (Registry.after calls).orderOf b.id :=
    fun heq => h.2 <|
      (Registry.after calls).inStep.eq_of_orderOf (mem_turns.mp ha).1 (mem_turns.mp hb).1 heq
  have hle := h.1
  simp only [atMost, decide_eq_true_eq] at hle
  rw [Before, ← Registry.orderOf_lt_iff]
  omega

theorem turns_unique (hx : xs.Pairwise (Before calls)) (hy : ys.Pairwise (Before calls))
    (h : ∀ s, s ∈ xs ↔ s ∈ ys) : xs = ys := by
  have hnodup : ∀ zs : List (Status Number), zs.Pairwise (Before calls) → zs.Nodup := by
    refine fun zs hz => hz.imp ?_
    rintro a _ hab rfl
    unfold Before at hab
    omega
  apply List.Perm.eq_of_pairwise _ hx hy
    ((List.perm_ext_iff_of_nodup (hnodup xs hx) (hnodup ys hy)).mpr h)
  intro a b _ _ hab hba
  unfold Before at hab hba
  omega

theorem mem_turns_after {s : Status Number} : s ∈ held.turns (.after calls) ↔
    Registry.latest calls s.id = some s ∧ s.onModify.isSome ∧ 0 < held.count s.id := by
  rw [mem_turns, Bears, Registry.get?_after]

theorem inTurn_congr {ss : List (Status R)} (h : ∀ s ∈ ss, held.count s.id = other.count s.id)
    (o : Outcome) : held.inTurn ss o = other.inTurn ss o := by
  induction ss generalizing o with
  | nil => rfl
  | cons s ss ih =>
    obtain ⟨hs, h⟩ := List.forall_mem_cons.mp h
    rw [inTurn, inTurn, hs]
    simp only [ih h]

theorem inTurn_sides {ss : List (Status R)} {o o' : Outcome} {c c' : Formula.Cache}
    (h : held.inTurn ss o c = .ok o' c') (ho : SameSides ctx o.context) :
    SameSides ctx o'.context := by
  induction ss generalizing o c with
  | nil =>
    obtain ⟨rfl, -⟩ := pure_ok h
    exact ho
  | cons s ss ih =>
    obtain ⟨answer, d, -, h⟩ := bind_ok h
    exact ih h (Modifier.enter_sides ho answer)

theorem inTurn_returns {ss : List (Status R)}
    (h : ∀ s ∈ ss, ∀ n x c, ∃ r c', s.answer n x c = .ok r c') (o : Outcome) (c : Formula.Cache) :
    ∃ o' c', held.inTurn ss o c = .ok o' c' := by
  induction ss generalizing o c with
  | nil => exact ⟨o, c, rfl⟩
  | cons s ss ih =>
    obtain ⟨hs, h⟩ := List.forall_mem_cons.mp h
    obtain ⟨r, d, hr⟩ := hs (held.count s.id) o.context c
    obtain ⟨o', c', h⟩ := ih h (o.enter r) d
    exact ⟨o', c', by rw [inTurn, bind_of_ok hr, h]⟩

/-- Stacks of statuses that are unknown or have no hook do not count, and neither does how far a
count is below nothing. -/
theorem modify_congr (h : ∀ s, Registry.latest calls s.id = some s → s.onModify.isSome →
      max 0 (held.count s.id) = max 0 (other.count s.id)) (ctx : Context) :
    held.modify ctx (.after calls) = other.modify ctx (.after calls) := by
  have hturns : held.turns (.after calls) = other.turns (.after calls) := by
    refine turns_unique (turns_before held calls) (turns_before other calls) fun s => ?_
    rw [mem_turns_after, mem_turns_after]
    refine and_congr_right fun hs => and_congr_right fun hook => ?_
    have := h s hs hook
    omega
  rw [modify_eq, modify_eq, hturns]
  refine inTurn_congr (fun s hs => ?_) _
  obtain ⟨hl, hook, hc⟩ := mem_turns_after.mp hs
  have := h s hl hook
  omega

theorem modify_returns (h : ∀ s hook, Registry.latest calls s.id = some s →
      s.onModify = some hook → ∀ n x c, ∃ r c', hook n x c = .ok r c')
    (held : Stacks) (ctx : Context) (c : Formula.Cache) :
    ∃ o c', held.modify ctx (.after calls) c = .ok o c' := by
  rw [modify_eq]
  refine inTurn_returns (fun s hs => ?_) _ c
  obtain ⟨hl, hook, -⟩ := mem_turns_after.mp hs
  obtain ⟨f, hf⟩ := Option.isSome_iff_exists.mp hook
  rw [Status.answer, hf]
  exact h s f hl hf

/-- The hooks of the statuses that bear on an attack run by priority and then by the place of the
first definition, and nothing else of the stacks counts. -/
theorem modify_in_order (calls : List Registry.Call) (ctx : Context) :
    (∀ held : Stacks, ∃ ss : List (Status Number), ss.Pairwise (Before calls) ∧
      (∀ s, s ∈ ss ↔
        Registry.latest calls s.id = some s ∧ s.onModify.isSome ∧ 0 < held.count s.id) ∧
      held.modify ctx (.after calls) = held.inTurn ss ⟨ctx, []⟩) ∧
    (∀ held other : Stacks, held.entries.Perm other.entries →
      held.modify ctx (.after calls) = other.modify ctx (.after calls)) ∧
    (∀ held other : Stacks,
      (∀ s, Registry.latest calls s.id = some s → s.onModify.isSome →
        max 0 (held.count s.id) = max 0 (other.count s.id)) →
      held.modify ctx (.after calls) = other.modify ctx (.after calls)) ∧
    (∀ (held : Stacks) c o c', held.modify ctx (.after calls) c = .ok o c' →
      SameSides ctx o.context) ∧
    (∀ held : Stacks,
      (∀ s hook, Registry.latest calls s.id = some s → s.onModify = some hook →
        ∀ n x c, ∃ r c', hook n x c = .ok r c') →
      ∀ c, ∃ o c', held.modify ctx (.after calls) c = .ok o c') ∧
    ∀ draft id, (Registry.after calls).contains draft.status.id →
      (Registry.after (calls ++ [.define draft])).orderOf id =
        (Registry.after calls).orderOf id := by
  refine ⟨fun held => ⟨_, turns_before held calls, fun s => mem_turns_after, modify_eq held ctx _⟩,
    ?_, fun held other h => modify_congr h ctx, ?_, fun held h => modify_returns h held ctx,
    fun draft id h => Registry.orderOf_after_define h id⟩
  · intro held other hp
    refine modify_congr (fun s _ _ => ?_) ctx
    rw [count, count, Ledger.get?_of_perm hp]
  · intro held c o c' h
    rw [modify_eq] at h
    exact inTurn_sides h ⟨rfl, rfl, rfl⟩

def raising (id : String) (priority : Int) (f : Int → Int) : Status.Draft where
  status :=
    { id, name := id, priority
      onModify := some fun _ ctx => return some { damage := some (f ctx.damage), log := some id } }

def redefined : List Registry.Call :=
  [.define (raising "apt" 100 id), .reset, .define (raising "bold" 100 (· + 1)),
    .define (raising "apt" 100 (· * 2)), .define (raising "keen" 5 (· + 2)),
    .define (raising "bold" 100 (· + 3))]

def mixed : Stacks := .ofList [("apt", 1), ("ghost", 4), ("bold", 2), ("keen", 1)]

def turned : Stacks := .ofList [("keen", 1), ("bold", 2), ("ghost", 4), ("apt", 1)]

def sorted : Stacks := .ofList [("keen", 1), ("bold", 2), ("apt", 1)]

def blow : Context := ⟨.attack, "you", "ai", 10, 0⟩

theorem turns_sorted : sorted.turns (.after redefined) = sorted.bearing (.after redefined) :=
  List.mergeSort_of_pairwise (by decide +kernel)

theorem count_mixed {id : String} (h : id ≠ "ghost") : mixed.count id = sorted.count id := by
  have hp : (mixed.erase "ghost").entries.Perm sorted.entries := by decide +kernel
  rw [count, count, ← Ledger.get?_of_perm hp, Ledger.get?_erase_of_ne h]

theorem redefined_answers {id : String} {s : Status Number}
    (h : Registry.latest redefined id = some s) :
    ∃ f : Context → Modifier.Result, s.onModify = some fun _ ctx => return some (f ctx) := by
  have hall : ∀ s ∈ Registry.defined redefined,
      ∃ f : Context → Modifier.Result, s.onModify = some fun _ ctx => return some (f ctx) := by
    simp only [Registry.defined, redefined, List.foldl_cons, List.foldl_nil, Registry.Call.note,
      Status.Draft.finish, raising, List.nil_append, List.cons_append, List.forall_mem_cons]
    exact ⟨⟨_, rfl⟩, ⟨_, rfl⟩, ⟨_, rfl⟩, ⟨_, rfl⟩, List.forall_mem_nil _⟩
  exact hall s (List.mem_of_mem_filter (List.mem_of_getLast? h))

theorem modify_in_order_redefined :
    mixed.modify blow (.after redefined) = turned.modify blow (.after redefined) ∧
    mixed.modify blow (.after redefined) = sorted.modify blow (.after redefined) ∧
    (∃ o c', mixed.modify blow (.after redefined) {} = .ok o c' ∧ SameSides blow o.context ∧
      o.context.damage = 30 ∧ o.logs = ["keen", "bold", "apt"]) ∧
    ∀ id, (Registry.after (redefined ++ [.define (raising "apt" 1 (· + 1))])).orderOf id =
      (Registry.after redefined).orderOf id := by
  obtain ⟨-, hperm, hagree, hsides, hreturns, hplace⟩ := modify_in_order redefined blow
  have hsorted : mixed.modify blow (.after redefined) = sorted.modify blow (.after redefined) := by
    refine hagree _ _ fun s hs _ => ?_
    by_cases hid : s.id = "ghost"
    · have hnone : (Registry.latest redefined "ghost").isNone = true := by decide +kernel
      rw [← hid, hs] at hnone
      cases hnone
    · rw [count_mixed hid]
  have hrun : ((ended? (sorted.inTurn (sorted.bearing (.after redefined)) ⟨blow, []⟩ {})).any
      fun r => r.1.context.damage == 30 && r.1.logs == ["keen", "bold", "apt"]) = true := by
    decide +kernel
  rw [← turns_sorted, ← modify_eq, ← hsorted] at hrun
  refine ⟨hperm _ _ (by decide +kernel), hsorted, ?_, fun id => hplace _ id (by decide +kernel)⟩
  have hanswers : ∀ s hook, Registry.latest redefined s.id = some s → s.onModify = some hook →
      ∀ n x c, ∃ r c', hook n x c = .ok r c' := by
    intro s hook hs hh n x c
    obtain ⟨f, hf⟩ := redefined_answers hs
    obtain rfl := Option.some.inj (hh.symm.trans hf)
    exact ⟨_, _, rfl⟩
  obtain ⟨o, c', h⟩ := hreturns mixed hanswers {}
  rw [h] at hrun
  exact ⟨o, c', h, hsides _ _ _ _ h, by simpa [ended?] using hrun⟩

end Stacks

end Duel
