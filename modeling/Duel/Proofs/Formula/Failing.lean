import Duel.Formula.Cache
import Duel.Proofs.Work

namespace Duel.Formula

section Named

variable {α β : Type}

def Named (x : Outcome α) : Prop := ∀ name, x ≠ .error (.undefined name)

@[simp] theorem named_ok (a : α) : Named (.ok a : Outcome α) := nofun

@[simp] theorem named_pure (a : α) : Named (pure a : Outcome α) := nofun

@[simp] theorem named_error {e : Failure} :
    Named (.error e : Outcome α) ↔ ∀ name, e ≠ .undefined name := by
  simp [Named]

@[simp] theorem named_throw {e : Failure} :
    Named (throw e : Outcome α) ↔ ∀ name, e ≠ .undefined name :=
  named_error

@[simp] theorem named_bind {x : Outcome α} {f : α → Outcome β} :
    Named (x >>= f) ↔ Named x ∧ ∀ a, x = .ok a → Named (f a) := by
  cases x with
  | ok a => exact ⟨fun h => ⟨named_ok a, by rintro _ ⟨⟩; exact h⟩, fun h => h.2 a rfl⟩
  | error e =>
    exact ⟨fun h => ⟨named_error.mpr (named_error.mp h), nofun⟩,
      fun h => named_error.mpr (named_error.mp h.1)⟩

@[simp] theorem named_ite {c : Prop} [Decidable c] {x y : Outcome α} :
    Named (if c then x else y) ↔ (c → Named x) ∧ (¬c → Named y) := by
  split <;> simp [*]

@[simp] theorem named_map {x : Outcome α} {f : α → β} : Named (x.map f) ↔ Named x := by
  cases x <;> simp [Except.map]

@[simp] theorem named_functor {x : Outcome α} {f : α → β} : Named (f <$> x) ↔ Named x :=
  named_map

@[simp] theorem named_number (x : Except Double.Fault α) :
    Named (x.mapError Failure.ofNumber) := by
  cases x with
  | ok a => exact nofun
  | error e => cases e <;> exact nofun

theorem named_mapM {f : α → Outcome β} (h : ∀ a, Named (f a)) (as : List α) :
    Named (as.mapM f) := by
  induction as with
  | nil => exact named_pure _
  | cons a as ih => simp [h, ih]

theorem named_foldlM {f : β → α → Outcome β} (h : ∀ b a, Named (f b a)) (b : β) (as : List α) :
    Named (as.foldlM f b) := by
  induction as generalizing b with
  | nil => exact named_pure b
  | cons a as ih => simp [h, ih]

theorem named_anyM {f : α → Outcome Bool} (h : ∀ a, Named (f a)) (as : List α) :
    Named (as.anyM f) := by
  induction as with
  | nil => exact named_pure false
  | cons a as ih =>
    refine named_bind.mpr ⟨h a, fun found _ => ?_⟩
    cases found
    · exact ih
    · exact named_pure true

end Named

namespace Plane

@[simp] theorem named_quotient (z w : Point) : Named (quotient z w) := by
  simp [quotient]

@[simp] theorem named_size (z : Point) : Named (size z) := by
  simp [size]

@[simp] theorem named_wholePower (z : Point) (n : Int) : Named (wholePower z n) := by
  simp [wholePower]

@[simp] theorem named_polarPower (z w : Point) : Named (polarPower z w) := by
  unfold polarPower
  simp

@[simp] theorem named_power (z w : Point) : Named (power z w) := by
  unfold power
  extract_lets bounded
  have hbounded (r : Point) : Named (bounded r) := by
    simp [bounded]
  split <;> simp [hbounded]

end Plane

namespace Operation

@[simp] theorem named_mismatched {α : Type} : Named (mismatched : Outcome α) := nofun

@[simp] theorem named_fromNumber {α : Type} (r : Except Double.Fault α) : Named (fromNumber r) :=
  named_number r

variable (a b v : Value)

@[simp] theorem named_fits (n : Number) : Named (fits n) := by
  cases n <;> simp [fits]

@[simp] theorem named_real : Named (real v) := by
  unfold real
  split <;> simp

@[simp] theorem named_whole : Named (whole v) := by
  unfold whole
  split <;> simp

@[simp] theorem named_point : Named (point v) := by
  unfold point
  split <;> simp

theorem named_arith {exact : Int → Int → Outcome Value} {rounded : Float → Float → Outcome Value}
    {plane : Plane.Point → Plane.Point → Outcome Value} (hexact : ∀ m n, Named (exact m n))
    (hrounded : ∀ x y, Named (rounded x y)) (hplane : ∀ z w, Named (plane z w)) :
    Named (arith exact rounded plane a b) := by
  unfold arith
  split
  · exact hexact _ _
  · simp [hrounded]
  · split <;> simp [hplane]

@[simp] theorem named_add : Named (add a b) := by
  unfold add
  split
  · simp
  · exact named_arith a b (by simp) (by simp) (by simp)

@[simp] theorem named_sub : Named (sub a b) := named_arith a b (by simp) (by simp) (by simp)

@[simp] theorem named_mul : Named (mul a b) := named_arith a b (by simp) (by simp) (by simp)

@[simp] theorem named_quotient (m n : Int) : Named (quotient m n) := by
  simp [quotient]

@[simp] theorem named_div : Named (div a b) :=
  named_arith a b named_quotient (by simp) (by simp)

@[simp] theorem named_copies (length : Nat) (n : Int) {beyond : Failure}
    (h : ∀ name, beyond ≠ .undefined name) : Named (copies length n beyond) := by
  simp [copies, h]

@[simp] theorem named_timesText (s : String) : Named (timesText s v) := by
  simp [timesText]

@[simp] theorem named_timesItems (xs : List Value) : Named (timesItems xs v) := by
  simp [timesItems]

@[simp] theorem named_mod : Named (mod a b) := by
  unfold mod
  split
  · simp
  · simp
  · exact named_arith _ _ (by simp) (by simp) (by simp)

@[simp] theorem named_doublePower (x y : Float) : Named (doublePower x y) := by
  simp [doublePower]

@[simp] theorem named_pow : Named (pow a b) :=
  named_arith a b (by simp) (by simp) (by simp)

@[simp] theorem named_xor : Named (xor a b) := by
  unfold xor
  split <;> simp

@[simp] theorem named_neg : Named (neg v) := by
  unfold neg
  split
  · simp
  · split <;> simp

@[simp] theorem named_abs : Named (abs v) := by
  unfold abs
  split
  · simp
  · split <;> simp

@[simp] theorem named_rounding (f : Float → Except Double.Fault Int) : Named (rounding f v) := by
  unfold rounding
  split <;> simp

@[simp] theorem named_onReal (f : Float → Float) : Named (onReal f v) := by
  simp [onReal]

@[simp] theorem named_naturalLog (n : Number) : Named (naturalLog n) := by
  unfold naturalLog
  split
  · refine named_ite.mpr ⟨by simp, fun _ => ?_⟩
    split <;> simp
  · simp

@[simp] theorem named_logOf : Named (logOf v) := by
  unfold logOf
  split <;> simp

@[simp] theorem named_factorialOf : Named (factorialOf v) := by
  simp [factorialOf]

@[simp] theorem named_realPower (x y : Float) : Named (realPower x y) := by
  simp [realPower]

@[simp] theorem named_sides : Named (sides v) := by
  unfold sides
  extract_lets checked
  have hchecked (n : Int) : Named (checked n) := by
    simp [checked]
  split <;> simp [hchecked]

end Operation

namespace Store

variable (s : Store) (v w : Value)

@[simp] theorem named_wholeText (n : Int) : Named (wholeText n) := named_number _

theorem named_shown (depth : Nat) (around : List Value) :
    Named (s.shown depth around v) := by
  induction depth generalizing around v with
  | zero => simp [shown]
  | succ depth ih =>
    unfold shown
    extract_lets inside
    have hinside (w : Value) : Named (inside w) := ih w (v :: around)
    cases v with
    | list i => simp [named_mapM hinside]
    | table i =>
      simp [named_mapM, hinside]
    | _ => simp

@[simp] theorem named_display : Named (s.display v) := named_shown s v _ _

@[simp] theorem named_written : Named (s.written v) := by
  unfold written
  split <;> simp

section Same

variable {s} {same : Value → Value → Outcome Bool} (h : ∀ v w, Named (same v w))

include h

theorem named_sameItems (xs ys : List Value) : Named (sameItems same xs ys) := by
  induction xs generalizing ys with
  | nil => cases ys <;> simp [sameItems]
  | cons x xs ih =>
    cases ys with
    | nil => simp [sameItems]
    | cons y ys => simp [sameItems, h, ih]

theorem named_sameEntries (xs ys : List (String × Value)) : Named (sameEntries same ys xs) := by
  induction xs with
  | nil => simp [sameEntries]
  | cons x xs ih =>
    unfold sameEntries
    split <;> simp [h, ih]

theorem named_apart (xs ys : List Value) : Named (apart same xs ys) := by
  induction xs generalizing ys with
  | nil => simp [apart]
  | cons x xs ih =>
    cases ys with
    | nil => simp [apart]
    | cons y ys => simp [apart, h, ih]

end Same

theorem named_same (depth : Nat) : Named (s.same depth v w) := by
  induction depth generalizing v w with
  | zero => simp [same]
  | succ depth ih =>
    unfold same
    split
    case h_9 => split <;> simp
    all_goals simp [named_sameItems ih, named_sameEntries ih]

@[simp] theorem named_equal : Named (s.equal v w) := named_same s v w _

theorem named_orderTo (depth : Nat) : Named (s.orderTo depth v w) := by
  induction depth generalizing v w with
  | zero => simp [orderTo]
  | succ depth ih =>
    unfold orderTo
    split
    · simp
    · refine named_bind.mpr ⟨named_apart (named_same s · · depth) _ _, fun rest _ => ?_⟩
      split <;> simp [ih]
    · split <;> simp

@[simp] theorem named_order : Named (s.order v w) := named_orderTo s v w _

@[simp] theorem named_contains : Named (s.contains v w) := by
  unfold contains
  split
  · simp
  · refine named_anyM (fun w => ?_) _
    simp
  all_goals simp

end Store

namespace Directive

section Run

variable {α β : Type} {f : Filling}

@[simp] theorem named_run_bind {x : Fill α} {g : α → Fill β} :
    Named ((x >>= g).run f) ↔
      Named (x.run f) ∧ ∀ a f', x.run f = .ok (a, f') → Named ((g a).run f') := by
  rw [StateT.run_bind, named_bind, Prod.forall]

@[simp] theorem named_run_throw {e : Failure} :
    Named ((throw e : Fill α).run f) ↔ ∀ name, e ≠ .undefined name :=
  named_error

@[simp] theorem named_run_ite {c : Prop} [Decidable c] {x y : Fill α} :
    Named ((if c then x else y).run f) ↔ (c → Named (x.run f)) ∧ (¬c → Named (y.run f)) := by
  split <;> simp [*]

end Run

variable (s : Store) (v : Value) (d : Directive) (f : Filling)

@[simp] theorem named_take : Named (take.run f) := by
  unfold take
  refine named_run_bind.mpr ⟨by simp, fun filling f' _ => ?_⟩
  split <;> simp

@[simp] theorem named_accept (wanted : Char → Bool) : Named ((accept wanted).run f) := by
  unfold accept
  refine named_run_bind.mpr ⟨by simp, fun filling f' _ => ?_⟩
  split <;> simp

@[simp] theorem named_acceptAll (wanted : Char → Bool) : Named ((acceptAll wanted).run f) := by
  simp [acceptAll]

@[simp] theorem named_takeName : Named ((takeName s v).run f) := by
  unfold takeName
  refine named_run_bind.mpr ⟨by simp, fun opened f' _ => named_run_ite.mpr ⟨fun _ => ?_, by simp⟩⟩
  cases v with
  | list i =>
    refine named_run_bind.mpr ⟨by simp, fun filling f' _ => ?_⟩
    split <;> simp
  | table i =>
    refine named_run_bind.mpr ⟨by simp, fun filling f' _ => ?_⟩
    split
    · simp
    · dsimp only
      split <;> simp
  | _ => simp

@[simp] theorem named_takeSize (limit : Nat) (complaint : String) :
    Named ((takeSize limit complaint).run f) := by
  unfold takeSize
  refine named_run_bind.mpr ⟨by simp, fun starred f' _ => named_run_ite.mpr ⟨fun _ => ?_, by simp⟩⟩
  refine named_run_bind.mpr ⟨by simp, fun width f' _ => ?_⟩
  split <;> simp

@[simp] theorem named_read : Named ((read s v).run f) := by
  unfold read
  refine named_run_bind.mpr ⟨by simp, fun _ f _ => ?_⟩
  refine named_run_bind.mpr ⟨by simp, fun _ f _ => ?_⟩
  refine named_run_bind.mpr ⟨by simp, fun size f _ => ?_⟩
  extract_lets width marks finish
  refine named_run_bind.mpr ⟨by simp, fun point f _ => ?_⟩
  have hfinish (precision : Option Nat) (f : Filling) : Named ((finish precision).run f) := by
    refine named_run_bind.mpr ⟨by simp, fun _ f _ => ?_⟩
    refine named_run_bind.mpr ⟨by simp, fun kind f _ => ?_⟩
    cases kind <;> simp
  simp [hfinish]

@[simp] theorem named_guarded (sizes : List Nat) : Named (d.guarded sizes) := by
  simp [guarded]

@[simp] theorem named_ofText (cut : Bool) (t : String) : Named (d.ofText cut t) := by
  simp [ofText]

@[simp] theorem named_ofParts (negative : Bool) (base digits : String) :
    Named (d.ofParts negative base digits) := by
  simp [ofParts]

@[simp] theorem named_cutWhole : Named (cutWhole v) := by
  unfold cutWhole
  split <;> simp

@[simp] theorem named_ofWhole : Named (d.ofWhole v) := by
  unfold ofWhole
  extract_lets based places digits
  have hdigits (n : Int) : Named (digits n) := by
    dsimp only [digits]
    split <;> simp
  simp [hdigits]

@[simp] theorem named_ofReal : Named (d.ofReal v) := by
  simp [ofReal]

@[simp] theorem named_ofChar : Named (d.ofChar v) := by
  unfold ofChar
  split <;> simp

@[simp] theorem named_apply : Named (d.apply s v) := by
  unfold apply
  split <;> simp

@[simp] theorem named_fillFrom (fuel : Nat) (parts : List String) :
    Named ((fillFrom s v fuel parts).run f) := by
  induction fuel generalizing parts f with
  | zero => simp [fillFrom]
  | succ fuel ih =>
    simp [fillFrom, ih]

@[simp] theorem named_fill (template : String) : Named (fill s template v) := by
  simp [fill]

end Directive

namespace Work

variable {α β : Type}

def outcome (x : Work α) (s : Store) : Outcome (α × Store) :=
  match x s with
  | .ok a t => .ok (a, t)
  | .error e _ => .error e

variable {s : Store}

@[simp] theorem outcome_pure (a : α) : outcome (pure a) s = .ok (a, s) := rfl

@[simp] theorem outcome_throw (e : Failure) : outcome (throw e : Work α) s = .error e := rfl

@[simp] theorem outcome_get : outcome get s = .ok (s, s) := rfl

@[simp] theorem outcome_set (t : Store) : outcome (set t) s = .ok ((), t) := rfl

@[simp] theorem outcome_modify (f : Store → Store) : outcome (modify f) s = .ok ((), f s) := rfl

@[simp] theorem outcome_modifyGet (f : Store → α × Store) :
    outcome (modifyGet f) s = .ok (f s) :=
  rfl

@[simp] theorem outcome_bind (x : Work α) (f : α → Work β) :
    outcome (x >>= f) s = outcome x s >>= fun r => outcome (f r.1) r.2 := by
  change outcome (EStateM.bind x f) s = _
  unfold outcome EStateM.bind
  cases x s <;> rfl

@[simp] theorem outcome_map (x : Work α) (f : α → β) :
    outcome (f <$> x) s = (outcome x s).map fun r => (f r.1, r.2) := by
  change outcome (EStateM.map f x) s = _
  unfold outcome EStateM.map
  cases x s <;> rfl

@[simp] theorem outcome_ofOutcome (x : Outcome α) :
    outcome (Store.ofOutcome x) s = x.map (·, s) := by
  cases x <;> rfl

@[simp] theorem outcome_ite {c : Prop} [Decidable c] {x y : Work α} :
    outcome (if c then x else y) s = if c then outcome x s else outcome y s := by
  split <;> rfl

variable (a b v : Value)

@[simp] theorem named_settle {o : Outcome Value} (h : Named o) :
    Named (outcome (Store.settle o) s) := by
  unfold Store.settle
  split
  · simpa using h
  all_goals simp [Store.newMark]

@[simp] theorem named_newList (vs : List Value) : Named (outcome (Store.newList vs) s) := by
  simp [Store.newList]

@[simp] theorem named_work_add : Named (outcome (Work.add a b) s) := by
  unfold Work.add
  split <;> simp

@[simp] theorem named_work_mul : Named (outcome (Work.mul a b) s) := by
  unfold Work.mul
  split <;> simp

@[simp] theorem named_work_mod : Named (outcome (Work.mod a b) s) := by
  unfold Work.mod
  split <;> simp

@[simp] theorem named_rolls : Named (outcome (rolls a b) s) := by
  simp [rolls]

@[simp] theorem named_join : Named (outcome (join a b) s) := by
  unfold join
  split <;> simp [Store.append]

@[simp] theorem named_concat (vs : List Value) : Named (outcome (concat vs) s) := by
  simp [concat, named_mapM]

@[simp] theorem named_compareBy (accept : Option Ordering → Bool) :
    Named (outcome (compareBy accept a b) s) := by
  simp [compareBy]

@[simp] theorem named_best (beats : Option Ordering → Bool) (vs : List Value) :
    Named (outcome (best beats vs) s) := by
  cases vs with
  | nil => simp [best]
  | cons v vs => simp [best, named_foldlM]

@[simp] theorem named_extreme (beats : Option Ordering → Bool) (vs : List Value) :
    Named (outcome (extreme beats vs) s) := by
  unfold extreme
  rw [outcome_bind]
  refine named_bind.mpr ⟨by simp, fun r _ => ?_⟩
  extract_lets among
  have hamong (vs : List Value) (s : Store) : Named (outcome (among vs) s) := by
    simp [among]
  split <;> simp [hamong]

@[simp] theorem named_random : Named (outcome (random v) s) := by
  simp [random]

@[simp] theorem named_function (op : Unary) : Named (op.function v) := by
  cases op <;> simp [Unary.function]

@[simp] theorem named_unary (op : Unary) : Named (outcome (op.apply v) s) := by
  unfold Unary.apply
  split <;> simp

@[simp] theorem named_binary (op : Binary) : Named (outcome (op.apply a b) s) := by
  cases op <;> simp [Binary.apply]

@[simp] theorem named_plain (f : Function) (args : List Value) : Named (f.plain args) := by
  unfold Function.plain
  split <;> simp

@[simp] theorem named_call (f : Function) (args : List Value) :
    Named (outcome (f.call args) s) := by
  unfold Function.call
  split <;> simp

@[simp] theorem named_callWith : Named (outcome (Evaluation.callWith a b) s) := by
  unfold Evaluation.callWith
  split
  · split <;> simp
  all_goals simp

end Work

theorem named_asNumber (v : Value) : Named v.asNumber := by
  unfold Value.asNumber
  extract_lets finish
  have hfinish (x : Float) : Named (finish x) := by
    dsimp only [finish]
    split <;> simp
  split
  · split <;> simp [hfinish]
  · simp [hfinish]

namespace Evaluation

variable {names : List (String × Value)}

/-- A name that stands neither for a number at hand nor for a function. -/
def Missing (names : List (String × Value)) (name : String) : Prop :=
  names.lookup name = none ∧ Function.named.lookup name = none

theorem step_variable {n name : String} {stack : Stack} {s t : Store} :
    step names stack (.variable n) s = .error (.undefined name) t ↔
      n = name ∧ Missing names n ∧ s = t := by
  rw [Missing]
  cases hn : names.lookup n with
  | some v =>
    have hstep : step names stack (.variable n) = pure (v :: stack) := by
      simp only [step, hn]
    rw [hstep]
    exact ⟨nofun, fun h => absurd h.2.1.1 (Option.some_ne_none v)⟩
  | none =>
    cases hf : Function.named.lookup n with
    | some f =>
      have hstep : step names stack (.variable n) = pure (.function f :: stack) := by
        simp only [step, hn, hf]
      rw [hstep]
      exact ⟨nofun, fun h => absurd h.2.1.2 (Option.some_ne_none f)⟩
    | none =>
      have hstep : step names stack (.variable n) = throw (.undefined n) := by
        simp only [step, hn, hf]
      rw [hstep]
      constructor
      · intro h
        cases h
        exact ⟨rfl, ⟨rfl, rfl⟩, rfl⟩
      · rintro ⟨rfl, -, rfl⟩
        rfl

theorem named_step (names : List (String × Value)) {u : Token} (hu : ∀ name, u ≠ .variable name)
    (stack : Stack) (s : Store) : Named (Work.outcome (step names stack u) s) := by
  unfold step
  split
  · simp
  · simp
  · exact absurd rfl (hu _)
  all_goals simp

theorem undefined_step {u : Token} {stack : Stack} {s t : Store} {name : String} :
    step names stack u s = .error (.undefined name) t ↔
      u = .variable name ∧ Missing names name ∧ s = t := by
  by_cases hu : ∃ n, u = .variable n
  · obtain ⟨n, rfl⟩ := hu
    rw [step_variable, Token.variable.injEq]
    constructor
    · rintro ⟨rfl, h⟩
      exact ⟨rfl, h⟩
    · rintro ⟨rfl, h⟩
      exact ⟨rfl, h⟩
  · rw [not_exists] at hu
    refine ⟨fun h => ?_, fun h => absurd h.1 (hu name)⟩
    refine absurd ?_ (named_step names hu stack s name)
    rw [Work.outcome, h]

/-- A name is missing in a row of tokens just where the tokens before a variable of that name have
come to their end. -/
theorem undefined_foldlM {tokens : List Token} {stack : Stack} {s t : Store} {name : String} :
    tokens.foldlM (step names) stack s = .error (.undefined name) t ↔
      Missing names name ∧ ∃ before after, tokens = before ++ .variable name :: after ∧
        ∃ stack', before.foldlM (step names) stack s = .ok stack' t := by
  induction tokens generalizing stack s with
  | nil =>
    refine ⟨nofun, ?_⟩
    rintro ⟨-, before, after, h, -⟩
    exact absurd h.symm (List.append_ne_nil_of_right_ne_nil _ (List.cons_ne_nil _ _))
  | cons u tokens ih =>
    rw [List.foldlM_cons]
    constructor
    · intro h
      rcases bind_error h with hu | ⟨stack', s', hu, h⟩
      · obtain ⟨rfl, hm, rfl⟩ := undefined_step.mp hu
        exact ⟨hm, [], tokens, rfl, stack, rfl⟩
      · obtain ⟨hm, before, after, rfl, stack'', hb⟩ := ih.mp h
        refine ⟨hm, u :: before, after, rfl, stack'', ?_⟩
        rw [List.foldlM_cons, bind_of_ok hu]
        exact hb
    · rintro ⟨hm, before, after, h, stack', hb⟩
      cases before with
      | nil =>
        obtain ⟨rfl, rfl⟩ := List.cons.inj h
        cases hb
        exact bind_of_error (undefined_step.mpr ⟨rfl, hm, rfl⟩) _
      | cons u' before =>
        obtain ⟨rfl, rfl⟩ := List.cons.inj h
        rw [List.foldlM_cons] at hb
        obtain ⟨stack'', s'', hu, hb⟩ := bind_ok hb
        rw [bind_of_ok hu]
        exact ih.mpr ⟨hm, before, after, rfl, stack', hb⟩

end Evaluation

end Duel.Formula
