import Duel.Proofs.Formula.Words
import Duel.Proofs.Work

namespace Duel.Formula

open Text (isWordChar isLetter isSpacing Apart Ending)

namespace Program

section Names

variable {s rest : List Char} {inQuotes first : Bool}

theorem variableName_append (inQuotes first : Bool) (s : List Char) :
    variableName inQuotes first s ++ s.drop (variableName inQuotes first s).length = s := by
  induction s generalizing inQuotes first with
  | nil => rfl
  | cons c r ih =>
    rw [variableName]
    split
    · exact congrArg (c :: ·) (ih _ _)
    · rfl

theorem variableName_starts (h : variableName false true s ≠ []) :
    ∃ c r, s = c :: r ∧ (isLetter c = true ∨ c = '"') := by
  cases s with
  | nil => exact absurd rfl h
  | cons c r =>
    refine ⟨c, r, rfl, Classical.byContradiction fun hc => h ?_⟩
    rw [not_or, Bool.not_eq_true] at hc
    simp [variableName, hc.1, hc.2]

/-- A name without quotes goes on as long as there are letters. Behind the first letter, digits and
underscores belong to it as well. -/
theorem variableName_ends (h : s = variableName false first s ++ rest)
    (hq : '"' ∉ variableName false first s) {c : Char} (hc : c ∈ rest.head?) :
    isLetter c = false ∧ (first = false ∨ variableName false first s ≠ [] →
      c ≠ '_' ∧ isDigit c = false) := by
  induction s generalizing first with
  | nil =>
    obtain rfl : rest = [] := by simpa [variableName] using h
    cases hc
  | cons d r ih =>
    rw [variableName] at h hq ⊢
    split at h
    · next hplain =>
      rw [if_pos hplain] at hq ⊢
      have hd : (d == '"') = false := beq_eq_false_iff_ne.mpr fun h => hq (h ▸ List.mem_cons_self)
      rw [hd] at h hq
      have hr := ih (List.tail_eq_of_cons_eq h) fun h => hq (List.mem_cons_of_mem _ h)
      exact ⟨hr.1, fun _ => hr.2 (.inl rfl)⟩
    · next hplain =>
      rw [if_neg hplain]
      obtain rfl : rest = d :: r := h.symm
      obtain rfl : c = d := (Option.some.inj hc).symm
      simp only [Bool.or_false, Bool.not_eq_true, Bool.or_eq_false_iff, Bool.and_eq_false_imp,
        Bool.not_eq_eq_eq_not, Bool.not_true, beq_eq_false_iff_ne] at hplain
      refine ⟨hplain.1.1, fun hf => ?_⟩
      obtain hf | hf := hf
      · exact ⟨(hplain.2 hf).1.1, (hplain.2 hf).2⟩
      · exact absurd rfl hf

end Names

/-- What one token does to a draft, with a case for each kind of token. -/
inductive Reads (source : String) (d : Draft) : Draft → Prop
  | operator {text : String} {priority : Int} {op : Binary} {d' : Draft}
    (mem : (text, priority, op) ∈ Token.operators) (starts : text.toList <+: d.rest)
    (read : readOperator d text priority op = .ok d') : Reads source d d'
  | number {v : Value} {n : Nat} (is : number? d.rest = some (.ok (v, n))) :
    Reads source d ((d.skip n).constant v)
  | text {quote : Char} {r body : List Char} {t : String} (isQuote : quote = '\'' ∨ quote = '"')
    (starts : d.rest = quote :: r) : Reads source d ((d.skip (body.length + 2)).constant (.text t))
  | opening {r : List Char} {d' : Draft} (starts : d.rest = '(' :: r)
    (read : readOpening source d = .ok d') : Reads source d d'
  | closing {r : List Char} {d' : Draft} (starts : d.rest = ')' :: r)
    (read : readClosing source d = .ok d') : Reads source d d'
  | comma {r : List Char} {d' : Draft} (starts : d.rest = ',' :: r)
    (read : readComma source d = .ok d') : Reads source d d'
  | constant {x : Float} {n : Nat} (is : constant? d.rest = some (x, n)) :
    Reads source d ((d.skip n).constant (.double x))
  | function {c : Char} {r : List Char} {t : Token} {n : Nat} {operands : Int}
    (starts : d.rest = c :: r) (letter : isLetter c = true) (pos : n ≠ 0)
    (isOperator : ∀ name, t ≠ .variable name) :
    Reads source d ((d.skip n).operator t 9 operands .argument)
  | name (takes : d.stage.takesOperand = true) (ne : variableName false true d.rest ≠ []) :
    Reads source d
      { d.skip (variableName false true d.rest).length with
        output := .variable (String.ofList (variableName false true d.rest)) :: d.output
        stage := .callable }
  | spacing {c : Char} {r : List Char} (starts : d.rest = c :: r) (is : isSpacing c = true) :
    Reads source d (d.skip 1)

variable {source : String} {d d' : Draft}

theorem reads_of_readText {quote : Char} {r : List Char} (hq : quote = '\'' ∨ quote = '"')
    (hr : d.rest = quote :: r) (h : readText source d quote r = .ok d') : Reads source d d' := by
  unfold readText at h
  split at h
  · cases h
  · obtain ⟨t, -, h⟩ := except_bind_ok h
    split at h
    · cases h
      exact .text hq hr
    · cases h

theorem word_ne_nil {s : List Char} (h : word s ≠ []) : ∃ c r, s = c :: r ∧ isLetter c = true := by
  unfold word at h
  split at h
  · next c r =>
    split at h
    · exact ⟨c, r, rfl, ‹_›⟩
    · exact absurd rfl h
  · exact absurd rfl h

theorem reads_of_function {t : Token} {operands : Int} (ht : ∀ name, t ≠ .variable name)
    (hne : word d.rest ≠ [])
    (h : (if d.stage.takesOperand = true then
        (.ok ((d.skip (String.ofList (word d.rest)).length).operator t 9 operands .argument) :
          Outcome Draft)
      else .error (.misspelt (d.skip (String.ofList (word d.rest)).length).position
        .unexpectedFunction source)) = .ok d') : Reads source d d' := by
  obtain ⟨c, r, hr, hc⟩ := word_ne_nil hne
  split at h
  · cases h
    exact .function hr hc (by simpa using hne) ht
  · cases h

theorem word_ne_nil_of_lookup {α : Type} {words : List (String × α)} {s : List Char} {a : α}
    (hwords : words.lookup "" = none) (h : words.lookup (String.ofList s) = some a) : s ≠ [] := by
  rintro rfl
  exact Option.some_ne_none a (h.symm.trans hwords)

theorem reads_of_readWord (h : readWord source d = .ok d') : Reads source d d' := by
  unfold readWord at h
  extract_lets w after asFunction at h
  split at h
  · next op hop =>
    exact reads_of_function (by simp) (word_ne_nil_of_lookup (by decide) hop) h
  · next op hop =>
    exact reads_of_function (by simp) (word_ne_nil_of_lookup (by decide) hop) h
  · split at h
    · split at h
      · next hs =>
        cases h
        cases hrest : d.rest with
        | nil =>
          rw [hrest] at hs
          exact absurd hs (by decide)
        | cons c r =>
          rw [hrest] at hs
          exact .spacing hrest hs
      · cases h
    · next hne =>
      extract_lets named at h
      split at h
      · cases h
        exact .name ‹_› hne
      · cases h

theorem reads_of_readToken (h : readToken source d = .ok d') : Reads source d d' := by
  unfold readToken at h
  split at h
  · next text priority op hfind =>
    exact .operator (List.mem_of_find?_eq_some hfind)
      (List.isPrefixOf_iff_prefix.mp (List.find?_some hfind :)) h
  · split at h
    · next result hnum =>
      obtain ⟨⟨v, n⟩, rfl, h⟩ := except_bind_ok h
      cases h
      exact .number hnum
    · split at h
      · exact reads_of_readText (.inl rfl) ‹_› h
      · exact reads_of_readText (.inr rfl) ‹_› h
      · exact .opening ‹_› h
      · exact .closing ‹_› h
      · exact .comma ‹_› h
      · split at h
        · split at h
          · cases h
            exact .constant ‹_›
          · cases h
        · exact reads_of_readWord h

section Starts

variable {s : List Char} {c : Char} {r : List Char} {n : Nat}

theorem scientific?_none (hd : isDigit c = false) (hp : c ≠ '.') (he : c ≠ 'e') (hE : c ≠ 'E') :
    scientific? (c :: r) = none := by
  simp only [scientific?, List.takeWhile_cons, List.dropWhile_cons, hd, Bool.false_eq_true,
    if_false]
  split
  · next e rest heq =>
    split at heq
    · next h => exact absurd (List.cons.inj h).1 hp
    · cases heq
      rw [if_neg (by simp [he, hE])]
  · rfl

theorem number?_none (hd : isDigit c = false) (hp : c ≠ '.') (he : c ≠ 'e') (hE : c ≠ 'E') :
    number? (c :: r) = none := by
  rw [number?, if_neg (by simpa using hE), scientific?_none hd hp he hE]
  simp [hd, hp]

theorem number?_starts {result : Outcome (Value × Nat)} (h : number? s = some result) :
    ∃ c r, s = c :: r ∧ (isWordChar c = true → isLetter c = true ∨ isDigit c = true) := by
  cases s with
  | nil => cases h
  | cons c r =>
    refine ⟨c, r, rfl, fun hw => Classical.byContradiction fun hc => ?_⟩
    rw [not_or, Bool.not_eq_true, Bool.not_eq_true] at hc
    have hne {a : Char} (ha : isWordChar a = true → isLetter a = true) : c ≠ a := by
      rintro rfl
      exact Bool.false_ne_true (hc.1.symm.trans (ha hw))
    rw [number?_none hc.2 (hne (by decide +kernel)) (hne (by decide +kernel))
      (hne (by decide +kernel))] at h
    cases h

theorem scientific?_length {before after : List Char} {power : Int}
    (h : scientific? s = some (before, after, power, n)) : n ≠ 0 := by
  have hdrop (s : List Char) : (s.dropWhile isDigit).length ≤ s.length :=
    (List.dropWhile_suffix isDigit).length_le
  unfold scientific? at h
  extract_lets digits rest at h
  have hrest : rest.length ≤ s.length := hdrop s
  clear_value digits rest
  split at h
  rename_i after' rest' hpoint
  have hrest' : rest'.length ≤ s.length := by
    split at hpoint
    · next r =>
      obtain rfl : r.dropWhile isDigit = rest' := congrArg Prod.snd hpoint
      have := hdrop r
      rw [List.length_cons] at hrest
      omega
    · cases hpoint
      exact hrest
  split at h
  · next e r =>
    split at h
    · split at h
      rename_i negative r' hsign
      have hr' : r'.length ≤ r.length := by
        split at hsign <;> cases hsign <;> simp
      extract_lets exponent at h
      by_cases hempty : exponent.isEmpty = true
      · rw [if_pos hempty] at h
        cases h
      · rw [if_neg hempty] at h
        cases h
        have := hdrop r'
        rw [List.length_cons] at hrest'
        omega
    · cases h
  · cases h

theorem number?_length {v : Value} (h : number? s = some (.ok (v, n))) : n ≠ 0 := by
  unfold number? at h
  split at h
  · cases h
  · split at h
    · cases h
    · split at h
      · next hsci =>
        split at h
        · cases h
        · cases h
          exact scientific?_length hsci
      · extract_lets run at h
        split at h
        · cases h
        · next hrun =>
          obtain ⟨w, -, hw⟩ := except_map_ok (Option.some.inj h)
          cases hw
          simpa using hrun

theorem constant?_starts {x : Float} (h : constant? s = some (x, n)) :
    n ≠ 0 ∧ ∃ c r, s = c :: r ∧ isLetter c = true := by
  have hall :
      (["E", "PI"].all fun n => !n.toList.isEmpty && n.toList.head?.all isLetter) = true := by
    decide +kernel
  obtain ⟨⟨name, y⟩, he, hs⟩ := List.exists_of_findSome?_eq_some h
  have hname := List.all_eq_true.mp hall name (List.mem_map_of_mem (f := Prod.fst) he)
  simp only [Bool.and_eq_true, Bool.not_eq_true', List.isEmpty_eq_false_iff,
    Option.all_eq_true] at hname
  obtain ⟨hne, hstart⟩ := hname
  dsimp only at hs
  rw [Option.ite_none_right_eq_some, Bool.and_eq_true, List.isPrefixOf_iff_prefix] at hs
  obtain ⟨⟨⟨t, ht⟩, -⟩, hx⟩ := hs
  cases hx
  refine ⟨by simpa using hne, ?_⟩
  obtain ⟨a, cs, hcs⟩ := List.ne_nil_iff_exists_cons.mp hne
  exact ⟨a, cs ++ t, by rw [← ht]; exact congrArg (· ++ t) hcs, hstart a (by rw [hcs]; rfl)⟩

theorem operator_starts {o : String × Int × Binary} (ho : o ∈ Token.operators) :
    o.1.toList ≠ [] ∧ (∀ c ∈ o.1.toList.head?, isWordChar c = true → isLetter c = true) ∧
      Apart o.1.toList := by
  have hall : (Token.operators.all fun o => !o.1.toList.isEmpty &&
      o.1.toList.head?.all (fun c => !isWordChar c || isLetter c) &&
      o.1.toList.getLast?.all fun c => !isWordChar c) = true := by decide +kernel
  have h := List.all_eq_true.mp hall o ho
  simp only [Bool.and_eq_true, Bool.not_eq_true', List.isEmpty_eq_false_iff, Option.all_eq_true,
    Bool.or_eq_true] at h
  obtain ⟨⟨hne, hstart⟩, hend⟩ := h
  exact ⟨hne, fun c hc hw => (hstart c hc).resolve_left (by simp [hw]), hend⟩

theorem Reads.starts (h : Reads source d d') :
    ∃ c r, d.rest = c :: r ∧ (isWordChar c = true → isLetter c = true ∨ isDigit c = true) := by
  cases h with
  | @operator text priority op _ mem starts read =>
    obtain ⟨hne, hstart, -⟩ := operator_starts mem
    obtain ⟨c, cs, hcs⟩ := List.ne_nil_iff_exists_cons.mp hne
    obtain ⟨t, ht⟩ := starts
    exact ⟨c, cs ++ t, by rw [← ht]; exact congrArg (· ++ t) hcs,
      fun hw => .inl (hstart c (by rw [hcs]; rfl) hw)⟩
  | number is => exact number?_starts is
  | @text quote r body t isQuote starts =>
    refine ⟨quote, r, starts, fun hw => absurd hw ?_⟩
    rcases isQuote with rfl | rfl <;> decide +kernel
  | opening starts => exact ⟨_, _, starts, fun hw => absurd hw (by decide +kernel)⟩
  | closing starts => exact ⟨_, _, starts, fun hw => absurd hw (by decide +kernel)⟩
  | comma starts => exact ⟨_, _, starts, fun hw => absurd hw (by decide +kernel)⟩
  | constant is =>
    obtain ⟨-, c, r, hr, hc⟩ := constant?_starts is
    exact ⟨c, r, hr, fun _ => .inl hc⟩
  | function starts letter => exact ⟨_, _, starts, fun _ => .inl letter⟩
  | name takes ne =>
    obtain ⟨c, r, hr, hc⟩ := variableName_starts ne
    refine ⟨c, r, hr, fun hw => .inl (hc.resolve_right ?_)⟩
    rintro rfl
    exact absurd hw (by decide +kernel)
  | spacing starts is =>
    refine ⟨_, _, starts, fun hw => ?_⟩
    exact absurd hw (Bool.eq_false_iff.mp (Text.not_word_of_spacing is))

end Starts

end Program

open Program

namespace Program.Draft

variable {d : Draft} {t u : Token}

def held (d : Draft) : List Token := d.output ++ d.waiting.map (·.1)

theorem mem_release (priority : Int) (waiting : List (Token × Int)) (output : List Token) :
    t ∈ (release priority waiting output).2 ++ (release priority waiting output).1.map (·.1) ↔
      t ∈ output ++ waiting.map (·.1) := by
  induction waiting generalizing output with
  | nil => rfl
  | cons w waiting ih =>
    rw [release]
    split
    · rw [ih]
      simp only [List.mem_append, List.mem_cons, List.map_cons]
      rw [or_assoc, or_left_comm]
    · rfl

theorem mem_held_operator {priority operands : Int} {stage : Stage} :
    u ∈ (d.operator t priority operands stage).held ↔ u = t ∨ u ∈ d.held := by
  have hrelease := mem_release (t := u) (priority + d.depth) d.waiting d.output
  simp only [List.mem_append] at hrelease
  simp only [held, operator, List.map_cons, List.mem_append, List.mem_cons]
  rw [or_left_comm, hrelease]

end Program.Draft

namespace Program

variable {source : String} {d d' : Draft}

/-- A token has been taken from the front of a draft. Where an operand comes next, the token ends
with what belongs to no word. -/
def Takes (d d' : Draft) : Prop :=
  ∃ taken, taken ≠ [] ∧ d.rest = taken ++ d'.rest ∧ (d'.stage.takesOperand = true → Apart taken)

theorem takes_of_drop {n : Nat} (hn : n ≠ 0) (hne : d.rest ≠ []) (hrest : d'.rest = d.rest.drop n)
    (hapart : d'.stage.takesOperand = true → Apart (d.rest.take n)) : Takes d d' := by
  refine ⟨d.rest.take n, ?_, ?_, hapart⟩
  · rw [ne_eq, List.take_eq_nil_iff, not_or]
    exact ⟨hn, hne⟩
  · rw [hrest, List.take_append_drop]

/-- A token that was no variable has been taken. -/
structure Passes (d d' : Draft) : Prop where
  takes : Takes d d'
  held : ∀ name, .variable name ∈ d'.held → .variable name ∈ d.held

theorem passes_one {c : Char} {r : List Char} (hr : d.rest = c :: r) (hc : isWordChar c = false)
    (hrest : d'.rest = d.rest.drop 1)
    (hheld : ∀ name, .variable name ∈ d'.held → .variable name ∈ d.held) : Passes d d' := by
  have hne : d.rest ≠ [] := by
    rw [hr]
    exact List.cons_ne_nil c r
  refine ⟨takes_of_drop (by decide) hne hrest fun _ => ?_, hheld⟩
  rw [hr]
  exact Text.apart_singleton hc

theorem passes_constant {n : Nat} (v : Value) (hn : n ≠ 0) (hne : d.rest ≠ []) :
    Passes d ((d.skip n).constant v) :=
  ⟨takes_of_drop hn hne rfl nofun, fun _ hname => (List.mem_cons.mp hname).resolve_left nofun⟩

theorem passes_opening {r : List Char} (hr : d.rest = '(' :: r)
    (h : readOpening source d = .ok d') : Passes d d' := by
  unfold readOpening at h
  extract_lets skipped opened called at h
  have hcalled : called.rest = d.rest.drop 1 ∧
      ∀ name, .variable name ∈ called.held → .variable name ∈ d.held := by
    dsimp only [called]
    split
    · exact ⟨rfl, fun name hname => (Draft.mem_held_operator.mp hname).resolve_left nofun⟩
    · exact ⟨rfl, fun _ hname => hname⟩
  split at h
  · cases h
  · cases h
    exact passes_one hr (by decide +kernel) hcalled.1 hcalled.2

theorem passes_closing {r : List Char} (hr : d.rest = ')' :: r)
    (h : readClosing source d = .ok d') : Passes d d' := by
  unfold readClosing at h
  extract_lets skipped at h
  split at h
  · cases h
    refine passes_one hr (by decide +kernel) rfl fun name hname => ?_
    exact (List.mem_cons.mp hname).resolve_left nofun
  · split at h
    · cases h
      exact passes_one hr (by decide +kernel) rfl fun name hname => hname
    · cases h

theorem passes_comma {r : List Char} (hr : d.rest = ',' :: r)
    (h : readComma source d = .ok d') : Passes d d' := by
  unfold readComma at h
  extract_lets skipped at h
  split at h
  · cases h
    refine passes_one hr (by decide +kernel) rfl fun name hname => ?_
    exact (Draft.mem_held_operator.mp hname).resolve_left nofun
  · cases h

theorem commentLength?_apart {s : List Char} {n : Nat} (h : commentLength? s = some n) :
    s.take n ≠ [] ∧ Apart (s.take n) := by
  induction s generalizing n with
  | nil => cases h
  | cons c r ih =>
    unfold commentLength? at h
    split at h
    · next heq =>
      cases h
      obtain ⟨rfl, rfl⟩ := List.cons.inj heq
      have hslash : Apart ['/'] := Text.apart_singleton (by decide +kernel)
      exact ⟨List.cons_ne_nil _ _,
        Text.apart_append ['*'] (List.cons_ne_nil _ _) hslash⟩
    · next heq =>
      obtain ⟨rfl, rfl⟩ := List.cons.inj heq
      obtain ⟨m, hm, rfl⟩ := Option.map_eq_some_iff.mp h
      obtain ⟨hne, hapart⟩ := ih hm
      exact ⟨List.cons_ne_nil _ _, Text.apart_append [c] hne hapart⟩
    · cases h

theorem passes_operator {text : String} {priority : Int} {op : Binary}
    (hop : (text, priority, op) ∈ Token.operators) (hstart : text.toList <+: d.rest)
    (h : readOperator d text priority op = .ok d') : Passes d d' := by
  obtain ⟨hne, -, hapart⟩ := operator_starts hop
  obtain ⟨r, hr⟩ := hstart
  have hrest : (d.skip text.length).rest = r := by
    change d.rest.drop text.length = r
    rw [← hr, ← String.length_toList, List.drop_left]
  have hpasses {d' : Draft} (hd : d'.rest = r)
      (hheld : ∀ name, .variable name ∈ d'.held → .variable name ∈ d.held) : Passes d d' :=
    ⟨⟨text.toList, hne, by rw [hd, hr], fun _ => hapart⟩, hheld⟩
  have hoperator {t : Token} {priority operands : Int} {stage : Stage}
      (ht : ∀ name, t ≠ .variable name) :
      Passes d ((d.skip text.length).operator t priority operands stage) :=
    hpasses hrest fun name hname =>
      (Draft.mem_held_operator.mp hname).resolve_left fun h => ht name h.symm
  unfold readOperator at h
  extract_lets skipped at h
  split at h
  · cases h
    exact hoperator nofun
  · split at h
    · cases h
      exact hpasses hrest fun _ hname => hname
    · split at h
      · cases h
        exact hoperator nofun
      · split at h
        · cases h
        · split at h
          · next n hn =>
            cases h
            rw [hrest] at hn
            obtain ⟨htaken, hcomment⟩ := commentLength?_apart hn
            refine ⟨⟨text.toList ++ r.take n, List.append_ne_nil_of_left_ne_nil hne _, ?_,
              fun _ => Text.apart_append _ htaken hcomment⟩, fun _ hname => hname⟩
            change d.rest = text.toList ++ r.take n ++ (d.skip text.length).rest.drop n
            rw [hrest, List.append_assoc, List.take_append_drop, hr]
          · cases h
        · cases h
          exact hoperator nofun

theorem Reads.passes (h : Reads source d d') :
    Passes d d' ∨ d.stage.takesOperand = true ∧ variableName false true d.rest ≠ [] ∧
      d' = { d.skip (variableName false true d.rest).length with
        output := .variable (String.ofList (variableName false true d.rest)) :: d.output
        stage := .callable } := by
  obtain ⟨c, r, hr, -⟩ := h.starts
  have hne : d.rest ≠ [] := by
    rw [hr]
    exact List.cons_ne_nil c r
  cases h with
  | @operator text priority op _ mem starts read => exact .inl (passes_operator mem starts read)
  | number is => exact .inl (passes_constant _ (number?_length is) hne)
  | text isQuote starts => exact .inl (passes_constant _ (by omega) hne)
  | opening starts read => exact .inl (passes_opening starts read)
  | closing starts read => exact .inl (passes_closing starts read)
  | comma starts read => exact .inl (passes_comma starts read)
  | constant is => exact .inl (passes_constant _ (constant?_starts is).1 hne)
  | function starts letter pos isOperator =>
    refine .inl ⟨takes_of_drop pos hne rfl nofun, fun name hname => ?_⟩
    exact (Draft.mem_held_operator.mp hname).resolve_left fun h => isOperator name h.symm
  | name takes ne => exact .inr ⟨takes, ne, rfl⟩
  | spacing starts is =>
    exact .inl (passes_one starts (Text.not_word_of_spacing is) rfl fun _ hname => hname)

def GoesOn (source : String) (d : Draft) : Prop :=
  d.rest = [] ∨ ∃ d', readToken source d = .ok d'

/-- What the check of a formula sees of a draft: no word has begun where an operand comes next, and
the plain variables are among its names. -/
structure Seen (source : String) (d : Draft) : Prop where
  rest : ∃ before, source.toList = before ++ d.rest ∧ (d.stage.takesOperand = true → Apart before)
  names : ∀ name, .variable name ∈ d.held → Lint.isPlain name.toList = true →
    ∃ call, (name, call) ∈ Lint.names source

theorem seen_start (source : String) : Seen source (Draft.start source) where
  rest := ⟨[], rfl, fun _ => nofun⟩
  names := nofun

theorem rest_of_takes (h : Seen source d) (ht : Takes d d') :
    ∃ before, source.toList = before ++ d'.rest ∧
      (d'.stage.takesOperand = true → Apart before) := by
  obtain ⟨before, hb, -⟩ := h.rest
  obtain ⟨taken, hne, hr, hapart⟩ := ht
  refine ⟨before ++ taken, ?_, fun hs => Text.apart_append _ hne (hapart hs)⟩
  rw [hb, hr, List.append_assoc]

theorem ending_of_variable (hplain : Lint.isPlain (variableName false true d.rest) = true)
    (hd : d'.rest = d.rest.drop (variableName false true d.rest).length)
    (hgo : GoesOn source d') : Ending d'.rest := by
  intro c hc
  have hquote : '"' ∉ variableName false true d.rest := fun h =>
    absurd (Lint.plain_of_mem hplain h) (by decide)
  have hends := variableName_ends (variableName_append false true d.rest).symm hquote (hd ▸ hc)
  have hdigit := hends.2 (.inr (Lint.ne_nil_of_plain hplain))
  rcases hgo with h | ⟨d'', h⟩
  · rw [h] at hc
    cases hc
  · obtain ⟨a, r, hr, hstart⟩ := (reads_of_readToken h).starts
    rw [hr] at hc
    obtain rfl : a = c := Option.some.inj hc
    refine Bool.eq_false_iff.mpr fun hw => ?_
    rcases hstart hw with hl | hl
    · exact Bool.false_ne_true (hends.1.symm.trans hl)
    · exact Bool.false_ne_true (hdigit.2.symm.trans hl)

theorem takes_of_readToken (h : readToken source d = .ok d') : Takes d d' := by
  rcases (reads_of_readToken h).passes with hp | ⟨-, hne, rfl⟩
  · exact hp.takes
  · exact ⟨_, hne, (variableName_append false true d.rest).symm,
      fun h => absurd h Bool.false_ne_true⟩

theorem seen_of_readToken (h : readToken source d = .ok d') (hs : Seen source d)
    (hgo : GoesOn source d') : Seen source d' := by
  refine ⟨rest_of_takes hs (takes_of_readToken h), fun n hn hplain => ?_⟩
  rcases (reads_of_readToken h).passes with hp | ⟨hoperand, hne, hd⟩
  · exact hs.names n (hp.held n hn) hplain
  · rw [hd] at hn
    rcases List.mem_cons.mp hn with heq | hn
    · obtain rfl := Token.variable.inj heq
      rw [String.toList_ofList] at hplain
      have hr : d'.rest = d.rest.drop (variableName false true d.rest).length :=
        congrArg Draft.rest hd
      obtain ⟨before, hb, hapart⟩ := hs.rest
      rw [← variableName_append false true d.rest, ← hr] at hb
      exact Lint.mem_names hb hplain (hapart hoperand) (ending_of_variable hplain hr hgo)
    · exact hs.names n hn hplain

theorem goesOn_of_readTokens {fuel : Nat} (hf : d.rest.length ≤ fuel)
    (h : readTokens source fuel d = .ok d') : GoesOn source d := by
  cases fuel with
  | zero => exact .inl (List.length_eq_zero_iff.mp (Nat.le_zero.mp hf))
  | succ fuel =>
    rw [readTokens] at h
    split at h
    · next hempty => exact .inl (List.isEmpty_iff.mp hempty)
    · obtain ⟨d'', hd, -⟩ := except_bind_ok h
      exact .inr ⟨d'', hd⟩

theorem seen_of_readTokens {fuel : Nat} (hf : d.rest.length ≤ fuel) (hs : Seen source d)
    (h : readTokens source fuel d = .ok d') : Seen source d' := by
  induction fuel generalizing d with
  | zero =>
    cases h
    exact hs
  | succ fuel ih =>
    rw [readTokens] at h
    split at h
    · cases h
      exact hs
    · obtain ⟨e, he, h⟩ := except_bind_ok h
      have hle : e.rest.length ≤ fuel := by
        obtain ⟨taken, hne, hr, -⟩ := takes_of_readToken he
        have hpos := List.length_pos_iff.mpr hne
        rw [hr, List.length_append] at hf
        omega
      exact ih hle (seen_of_readToken he hs (goesOn_of_readTokens hle h)) h

/-- The plain variables of a formula are names that its check sees. -/
theorem names_of_read {p : Program} (h : read source = .ok p) {name : String}
    (hname : .variable name ∈ p.tokens) (hplain : Lint.isPlain name.toList = true) :
    ∃ call, (name, call) ∈ Lint.names source := by
  obtain ⟨d, hd, h⟩ := except_bind_ok h
  have hs : Seen source d :=
    seen_of_readTokens (Nat.le_of_eq String.length_toList) (seen_start source) hd
  refine hs.names name ?_ hplain
  split at h
  · cases h
  · extract_lets tokens at h
    split at h
    · cases h
    · cases h
      have htokens : tokens = (d.waiting.foldl (fun out w => w.1 :: out) d.output).reverse := rfl
      change _ ∈ tokens at hname
      rw [htokens, List.foldl_flip_cons_eq_append, List.mem_reverse, List.mem_append,
        List.mem_reverse] at hname
      exact List.mem_append.mpr hname.symm

end Program

end Duel.Formula
