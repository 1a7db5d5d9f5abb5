import Duel.Proofs.Formula.Failing
import Duel.Proofs.Formula.Reading
import Duel.Proofs.Status.Entries

namespace Duel.Formula

namespace Cache

variable {source : String} {p : Program} {store : Store} {c c' : Cache}

/-- Every formula that is kept is what its text is read as. -/
def Sound (c : Cache) : Prop := ∀ e ∈ c.entries, Program.read e.1 = .ok e.2.1

theorem sound_empty : Sound {} := nofun

theorem fetch_eq (source : String) (c : Cache) :
    fetch source c =
      match c.entries.lookup source with
      | some entry => .ok entry { c with
          entries := (source, entry) :: c.entries.filter (·.1 != source)
          hits := c.hits + 1 }
      | none =>
        match Program.read source with
        | .error e => .error e { c with misses := c.misses + 1 }
        | .ok p => .ok (p, p.fresh) { c with
            entries := (source, p, p.fresh) :: c.entries.take (capacity - 1)
            misses := c.misses + 1 } := by
  have hget (f : Cache → Kept (Program × Store)) : (get >>= f) c = f c c := rfl
  rw [fetch, hget]
  cases c.entries.lookup source with
  | some entry => rfl
  | none =>
    cases Program.read source with
    | ok p => rfl
    | error e => rfl

theorem comes_fetch (source : String) (hc : c.Sound) :
    Comes (fetch source) c (fun e d => Program.read source = .ok e.1 ∧ d.Sound) Sound := by
  rw [Comes, fetch_eq]
  cases hl : c.entries.lookup source with
  | some entry =>
    obtain ⟨before, after, hentries, -⟩ := List.lookup_eq_some_iff.mp hl
    have hread : Program.read source = .ok entry.1 := hc (source, entry) (by simp [hentries])
    refine ⟨hread, fun e he => ?_⟩
    rcases List.mem_cons.mp he with rfl | he
    · exact hread
    · exact hc e (List.mem_filter.mp he).1
  | none =>
    cases hr : Program.read source with
    | error e => exact hc
    | ok p =>
      refine ⟨rfl, fun e he => ?_⟩
      rcases List.mem_cons.mp he with rfl | he
      · exact hr
      · exact hc e (List.mem_of_mem_take he)

theorem sound_keep (hc : c.Sound) : (keep source store c).Sound := by
  intro e he
  obtain ⟨old, hold, rfl⟩ := List.mem_map.mp he
  exact hc old hold

theorem value_eq (source : String) (scope : Scope) (c : Cache) :
    value (.text source) scope c =
      match fetch source c with
      | .ok (p, store) c =>
        match p.evaluate scope store with
        | .ok n store => .ok n (keep source store c)
        | .error e store => .error e (keep source store c)
      | .error e c => .error e c := by
  change EStateM.bind (fetch source) _ c = _
  unfold EStateM.bind
  cases fetch source c with
  | error e d => rfl
  | ok e d =>
    obtain ⟨p, store⟩ := e
    simp only
    cases p.evaluate scope store with
    | ok n t => rfl
    | error e t => rfl

theorem comes_value (hc : c.Sound) (source : Source) (scope : Scope) :
    Comes (value source scope) c (fun _ => Sound) Sound := by
  cases source with
  | number n => exact hc
  | text s =>
    have hf := comes_fetch s hc
    rw [Comes, value_eq]
    unfold Comes at hf
    cases h : fetch s c with
    | error e d =>
      rw [h] at hf
      exact hf
    | ok e d =>
      rw [h] at hf
      cases he : e.1.evaluate scope e.2 with
      | ok n store =>
        simp only [he]
        exact sound_keep hf.2
      | error _ store =>
        simp only [he]
        exact sound_keep hf.2

theorem comes_sourceOf (hc : c.Sound) (d : Document) :
    Comes (sourceOf d) c (fun _ => Sound) Sound := by
  cases d <;> exact hc

/-- What is done with formulas: each is checked or evaluated, be there a value or none. -/
inductive Use
  | check (formula : Document)
  | value (formula : Document) (scope : Scope)

def Use.work : Use → Kept Unit
  | check d => checkOf d
  | value d scope => do
    let _ ← valueOf d scope

/-- The formulas that are kept when some have been used. -/
def used (uses : List Use) : Cache := uses.foldl (fun c u => left (u.work c)) {}

theorem comes_work (u : Use) (hc : c.Sound) : Comes u.work c (fun _ => Sound) Sound := by
  cases u with
  | check d =>
    refine (comes_sourceOf hc d).bind fun source c hc => ?_
    cases source with
    | number n => exact hc
    | text s => exact (comes_fetch s hc).bind fun _ _ h => h.2
  | value d scope =>
    have hvalue : Comes (do return .number (← value (← sourceOf d) scope) : Kept Document) c
        (fun _ => Sound) Sound :=
      (comes_sourceOf hc d).bind fun source _ hc =>
        (comes_value hc source scope).bind fun _ _ hc => hc
    have hvalueOf : Comes (valueOf d scope) c (fun _ => Sound) Sound := by
      cases d with
      | truth b => exact hc
      | _ => exact hvalue
    exact hvalueOf.bind fun _ _ hc => hc

theorem sound_used (uses : List Use) : (used uses).Sound :=
  Comes.foldl_left (fun u _ hc => comes_work u hc) uses sound_empty

theorem fetch_of_read (hc : c.Sound) (hr : Program.read source = .ok p) :
    ∃ store c', fetch source c = .ok (p, store) c' := by
  have hfetch := comes_fetch source hc
  cases hf : fetch source c with
  | ok e d =>
    obtain ⟨q, store⟩ := e
    have hq := (hfetch.of_ok hf).1
    rw [hr] at hq
    cases hq
    exact ⟨store, d, rfl⟩
  | error e d =>
    rw [fetch_eq, hr] at hf
    split at hf <;> cases hf

theorem value_error {e : Failure} {scope : Scope} (hf : fetch source c = .ok (p, store) c') :
    (∃ d, value (.text source) scope c = .error e d) ↔
      ∃ t, p.evaluate scope store = .error e t := by
  rw [value_eq, hf]
  simp only
  cases he : p.evaluate scope store with
  | ok n t => simp
  | error e' t => simp

end Cache

section Scope

variable {numbers : List (String × Int)} {p : Program} {name : String} {s t : Store}

/-- The names of a formula, each with its whole number. -/
def scopeOf (numbers : List (String × Int)) : Scope :=
  numbers.map fun (name, n) => (name, Document.number (.whole n))

def valuesOf (numbers : List (String × Int)) : List (String × Value) :=
  numbers.map fun (name, n) => (name, Value.whole n)

theorem load_scopeOf (numbers : List (String × Int)) :
    ((scopeOf numbers).mapM fun (name, d) => do return (name, ← Store.load d) :
      Work (List (String × Value))) = pure (valuesOf numbers) := by
  induction numbers with
  | nil => rfl
  | cons e numbers ih =>
    have hload : Store.load (.number (.whole e.2)) = pure (.whole e.2) := rfl
    rw [scopeOf, List.map_cons, ← scopeOf, List.mapM_cons, ih]
    simp only [hload, pure_bind]
    rfl

theorem evaluate_eq (p : Program) (numbers : List (String × Int)) :
    p.evaluate (scopeOf numbers) =
      Evaluation.run (valuesOf numbers) p.tokens >>= fun v => Store.ofOutcome v.asNumber := by
  rw [Program.evaluate, load_scopeOf, pure_bind]

theorem undefined_evaluate :
    p.evaluate (scopeOf numbers) s = .error (.undefined name) t ↔
      Evaluation.Missing (valuesOf numbers) name ∧
        ∃ before after, p.tokens = before ++ .variable name :: after ∧
          ∃ stack, before.foldlM (Evaluation.step (valuesOf numbers)) [] s = .ok stack t := by
  rw [evaluate_eq, ← Evaluation.undefined_foldlM]
  constructor
  · intro h
    rcases bind_error h with h | ⟨v, u, -, h⟩
    · rcases bind_error h with h | ⟨stack, u, -, h⟩
      · exact h
      · match stack, h with
        | [_], h => cases h
        | [], h => cases h
        | _ :: _ :: _, h => cases h
    · refine absurd ?_ (named_asNumber v name)
      cases hv : v.asNumber with
      | ok n =>
        rw [hv] at h
        cases h
      | error e =>
        rw [hv] at h
        cases h
        rfl
  · exact fun h => bind_of_error (bind_of_error h _) _

end Scope

namespace Lint

variable {ctx : Modifier.Context} {count : Int} {name : String}

open Modifier.Formulas (numbers)

theorem missing_of_not_plain (h : isPlain name.toList = false) :
    Evaluation.Missing (valuesOf (numbers ctx count)) name := by
  have hplain : (∀ n ∈ symbols, isPlain n.toList = true) ∧
      ∀ e ∈ Function.named, isPlain e.1.toList = true := by decide +kernel
  have hne {n : String} (hn : isPlain n.toList = true) : ¬(name == n) = true := by
    intro heq
    rw [eq_of_beq heq, hn] at h
    cases h
  refine ⟨List.lookup_eq_none_iff.mpr fun e he => ?_,
    List.lookup_eq_none_iff.mpr fun e he => by simpa using hne (hplain.2 e he)⟩
  obtain ⟨n, hn, rfl⟩ := List.mem_map.mp he
  have hsymbol : ∀ n ∈ numbers ctx count, n.1 ∈ symbols := by
    simp [numbers, symbols]
  simpa using hne (hplain.1 n.1 (hsymbol n hn))

theorem not_missing_of_known (h : name ∈ functions ∨ name ∈ symbols) :
    ¬Evaluation.Missing (valuesOf (numbers ctx count)) name := by
  rintro ⟨hnumber, hfunction⟩
  rcases h with h | h
  · have hall : ∀ n ∈ functions, Function.named.lookup n ≠ none := by decide
    exact hall name h hfunction
  · simp only [symbols, List.mem_cons, List.not_mem_nil, or_false] at h
    rcases h with rfl | rfl | rfl <;> cases hnumber

theorem complaints_of_ofDocument {file place source : String} {c c' : Cache}
    (h : ofDocument file place (.text source) c = .ok [] c') :
    complaints source = [] ∧ ∃ e d, Cache.fetch source c = .ok e d := by
  obtain ⟨readable, d, hout, h⟩ := bind_ok h
  obtain ⟨hreport, -⟩ := pure_ok h
  obtain rfl := ok_of_report hreport
  refine ⟨List.map_eq_nil_iff.mp hreport, ?_⟩
  have hcheck : Cache.check (.text source) c = .ok () d := by
    unfold Kept.outcome at hout
    split at hout
    · cases hout
      assumption
    · cases hout
  obtain ⟨e, d', hf, -⟩ := bind_ok hcheck
  exact ⟨e, d', hf⟩

section Sample

def sample : Modifier.Context :=
  { stance := .attack, attacker := "ann", defender := "ben", damage := 1, block := 2 }

theorem not_seen :
    ∃ c, ofDocument "rot.yaml" "modify" (.text "baseDamage + stacks.stacks") (Cache.used []) =
      .ok [] c := by
  have hlint : (ended? (ofDocument "rot.yaml" "modify" (.text "baseDamage + stacks.stacks") {})).any
      (fun r => r.1.isEmpty) = true := by decide +kernel
  obtain ⟨complaints, c, h, hnone⟩ := ok_of_ended hlint
  obtain rfl : complaints = [] := List.isEmpty_iff.mp hnone
  exact ⟨c, h⟩

theorem not_evaluated :
    ∃ d, Cache.value (.text "baseDamage + stacks.stacks") (scopeOf (numbers sample 3))
      (Cache.used []) = .error (.undefined "stacks.stacks") d := by
  have hvalue : (broken? (Cache.value (.text "baseDamage + stacks.stacks")
      (scopeOf (numbers sample 3)) {})).any
      (fun r => r.1 == .undefined "stacks.stacks") = true := by decide +kernel
  obtain ⟨e, d, h, he⟩ := error_of_broken hvalue
  obtain rfl := eq_of_beq he
  exact ⟨d, h⟩

end Sample

/-- A formula of which the check has nothing to say, evaluated with whole numbers for the three
names that it may use, fails for want of a name just where a variable comes up that is no plain
name: one with a point, a quote or a letter beyond the plain ones. -/
theorem undefined_iff {file place source name : String} {earlier : List Cache.Use} {c : Cache}
    (hlint : ofDocument file place (.text source) (Cache.used earlier) = .ok [] c)
    (uses : List Cache.Use) (ctx : Modifier.Context) (count : Int) :
    (∃ d, Cache.value (.text source) (scopeOf (numbers ctx count)) (Cache.used uses) =
        .error (.undefined name) d) ↔
      ∃ p store d, Cache.fetch source (Cache.used uses) = .ok (p, store) d ∧
        ∃ before after, p.tokens = before ++ .variable name :: after ∧
          isPlain name.toList = false ∧
          ∃ stack t, before.foldlM
            (Evaluation.step (valuesOf (numbers ctx count))) [] store = .ok stack t := by
  obtain ⟨hcomplaints, e, e', hfetch⟩ := complaints_of_ofDocument hlint
  obtain ⟨q, old⟩ := e
  have hread := ((Cache.comes_fetch source (Cache.sound_used earlier)).of_ok hfetch).1
  obtain ⟨store, d', hd'⟩ := Cache.fetch_of_read (Cache.sound_used uses) hread
  rw [Cache.value_error hd']
  constructor
  · rintro ⟨t, ht⟩
    obtain ⟨hm, before, after, htokens, stack, hbefore⟩ := undefined_evaluate.mp ht
    refine ⟨q, store, d', hd', before, after, htokens, ?_, stack, t, hbefore⟩
    refine Bool.eq_false_iff.mpr fun hplain => ?_
    obtain ⟨call, hname⟩ := Program.names_of_read hread
      (htokens ▸ List.mem_append_right before List.mem_cons_self) hplain
    exact not_missing_of_known (known_of_complaints hcomplaints hname) hm
  · rintro ⟨p, store', d'', hp, before, after, htokens, hplain, stack, t, hbefore⟩
    rw [hd'] at hp
    cases hp
    exact ⟨t, undefined_evaluate.mpr
      ⟨missing_of_not_plain hplain, before, after, htokens, stack, hbefore⟩⟩

/-- The check takes the two halves of this variable for the names that they are. -/
theorem undefined_iff_stacks :
    ∃ c, ofDocument "rot.yaml" "modify" (.text "baseDamage + stacks.stacks") (Cache.used []) =
        .ok [] c ∧
      ∃ p store d, Cache.fetch "baseDamage + stacks.stacks" (Cache.used []) = .ok (p, store) d ∧
        ∃ before after, p.tokens = before ++ .variable "stacks.stacks" :: after ∧
          isPlain "stacks.stacks".toList = false ∧
          ∃ stack t, before.foldlM
            (Evaluation.step (valuesOf (numbers sample 3))) [] store = .ok stack t := by
  obtain ⟨c, hlint⟩ := not_seen
  obtain ⟨d, hvalue⟩ := not_evaluated
  exact ⟨c, hlint, (undefined_iff hlint [] sample 3).mp ⟨d, hvalue⟩⟩

/-- A formula without complaints may have a name in it that its evaluation lacks. -/
theorem not_always_defined :
    ¬ ∀ (file place source : String) (earlier uses : List Cache.Use) (c : Cache),
      ofDocument file place (.text source) (Cache.used earlier) = .ok [] c →
      ∀ (ctx : Modifier.Context) (count : Int) (name : String) (d : Cache),
        Cache.value (.text source) (scopeOf (numbers ctx count)) (Cache.used uses) ≠
          .error (.undefined name) d := by
  intro h
  obtain ⟨c, hlint⟩ := not_seen
  obtain ⟨d, hvalue⟩ := not_evaluated
  exact h _ _ _ [] [] c hlint sample 3 _ d hvalue

end Lint

end Duel.Formula
