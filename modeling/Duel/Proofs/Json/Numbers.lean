import Duel.Json.Reader
import Duel.Json.Writer
import Duel.Proofs.Double.Shortest
import Duel.Proofs.Number
import Duel.Proofs.Text

namespace Duel.Json

structure Numeral where
  digits : List Char
  fraction : List Char := []
  /-- Whether the exponent is negative, and its digits. -/
  power : Option (Bool × List Char) := none

namespace Numeral

def powerText : Option (Bool × List Char) → List Char
  | none => []
  | some (negative, ds) => 'e' :: (if negative then '-' else '+') :: ds

def fractionText (ds : List Char) : List Char := if ds.isEmpty then [] else '.' :: ds

def text (n : Numeral) : List Char := n.digits ++ (fractionText n.fraction ++ powerText n.power)

structure WellFormed (n : Numeral) : Prop where
  digits : ∀ c ∈ n.digits, isDigit c
  leading : n.digits ≠ [] ∧ (n.digits.head? = some '0' → n.digits = ['0'])
  fraction : ∀ c ∈ n.fraction, isDigit c
  power : ∀ p ∈ n.power, p.2 ≠ [] ∧ ∀ c ∈ p.2, isDigit c

def isWhole (n : Numeral) : Bool := n.fraction.isEmpty && n.power.isNone

def coefficient (n : Numeral) : Nat := digitsValue (n.digits ++ n.fraction)

def powerValue : Option (Bool × List Char) → Int
  | none => 0
  | some (negative, ds) => if negative then -(digitsValue ds : Int) else digitsValue ds

def exponent (n : Numeral) : Int := powerValue n.power - n.fraction.length

def value (n : Numeral) : Rat := n.coefficient * 10 ^ n.exponent

end Numeral

/-- No number goes on with what follows. -/
def Ends (rest : List Char) : Prop :=
  ∀ c ∈ rest.head?, isDigit c = false ∧ c ≠ '.' ∧ c ≠ 'e' ∧ c ≠ 'E'

theorem ends_nil : Ends [] := fun _ h => by cases h

theorem ends_cons {c : Char} {rest : List Char}
    (h : isDigit c = false ∧ c ≠ '.' ∧ c ≠ 'e' ∧ c ≠ 'E') : Ends (c :: rest) := by
  intro d hd
  cases hd
  exact h

section Digits

theorem span_digits {ds rest : List Char} (hds : ∀ c ∈ ds, isDigit c)
    (hrest : ∀ c ∈ rest.head?, isDigit c = false) :
    (ds ++ rest).takeWhile isDigit = ds ∧ (ds ++ rest).dropWhile isDigit = rest := by
  have hstop : rest.takeWhile isDigit = [] ∧ rest.dropWhile isDigit = rest := by
    cases rest with
    | nil => exact ⟨rfl, rfl⟩
    | cons c rest =>
      have hc := hrest c rfl
      exact ⟨List.takeWhile_cons_of_neg (by simp [hc]), List.dropWhile_cons_of_neg (by simp [hc])⟩
  rw [List.takeWhile_append_of_pos hds, List.dropWhile_append_of_pos hds, hstop.1, hstop.2]
  exact ⟨List.append_nil ds, rfl⟩

theorem isDigit_eq (c : Char) : isDigit c = c.isDigit := by
  unfold isDigit Char.isDigit
  rfl

theorem digitsValue_eq (ds : List Char) : digitsValue ds = Nat.ofDigitChars 10 ds 0 := by
  rw [Nat.ofDigitChars_eq_foldl]
  unfold digitsValue
  refine congrArg (fun f => ds.foldl f 0) (funext fun n => funext fun c => ?_)
  change n * 10 + (c.toNat - 48) = 10 * n + (c.toNat - 48)
  rw [Nat.mul_comm]

theorem digitsValue_append (ds es : List Char) :
    digitsValue (ds ++ es) = digitsValue ds * 10 ^ es.length + digitsValue es := by
  rw [digitsValue_eq, digitsValue_eq, digitsValue_eq, Nat.ofDigitChars_append,
    Nat.ofDigitChars_eq_ofDigitChars_zero, Nat.mul_comm]

theorem digitsValue_zeros (n : Nat) : digitsValue (List.replicate n '0') = 0 := by
  rw [digitsValue_eq, Nat.ofDigitChars_replicate_zero, Nat.mul_zero]

theorem digitsValue_toDigits (n : Nat) : digitsValue (Nat.toDigits 10 n) = n := by
  rw [digitsValue_eq]
  exact Nat.ofDigitChars_toDigits (by decide) (by decide)

theorem isDigit_toDigits {n : Nat} {c : Char} (h : c ∈ Nat.toDigits 10 n) : isDigit c = true := by
  rw [isDigit_eq]
  exact Nat.isDigit_of_mem_toDigits (by decide) (by decide) h

end Digits

section Reading

def fractionOf (s : List Char) : List Char × List Char :=
  match s with
  | '.' :: r =>
    if (r.takeWhile isDigit).isEmpty then ([], s) else (r.takeWhile isDigit, r.dropWhile isDigit)
  | r => ([], r)

def powerOf (s : List Char) : Option (Int × List Char) :=
  match s with
  | 'e' :: r | 'E' :: r => exponent r
  | _ => none

theorem fractionOf_text {ds rest : List Char} (hds : ∀ c ∈ ds, isDigit c)
    (hrest : ∀ c ∈ rest.head?, isDigit c = false ∧ c ≠ '.') :
    fractionOf (Numeral.fractionText ds ++ rest) = (ds, rest) := by
  cases ds with
  | nil =>
    cases rest with
    | nil => rfl
    | cons c rest =>
      have hc := (hrest c rfl).2
      unfold fractionOf
      split
      next h =>
        injection h with h
        exact absurd h hc
      next => rfl
  | cons d ds =>
    obtain ⟨htake, hdrop⟩ := span_digits hds fun c hc => (hrest c hc).1
    change (if ((d :: ds ++ rest).takeWhile isDigit).isEmpty then _
      else ((d :: ds ++ rest).takeWhile isDigit, (d :: ds ++ rest).dropWhile isDigit)) = _
    rw [htake, hdrop]
    rfl

theorem exponent_text {ds rest : List Char} {negative : Bool} (hne : ds ≠ [])
    (hds : ∀ c ∈ ds, isDigit c) (hrest : ∀ c ∈ rest.head?, isDigit c = false) :
    exponent ((if negative then '-' else '+') :: ds ++ rest) =
      some (if negative then -(digitsValue ds : Int) else digitsValue ds, rest) := by
  obtain ⟨htake, hdrop⟩ := span_digits hds hrest
  obtain ⟨d, ds, rfl⟩ := List.exists_cons_of_ne_nil hne
  cases negative <;>
    simp only [exponent, List.cons_append, if_true, Bool.false_eq_true, if_false] <;>
    rw [← List.cons_append, htake, hdrop]

theorem powerOf_text {p : Option (Bool × List Char)} {rest : List Char}
    (hp : ∀ q ∈ p, q.2 ≠ [] ∧ ∀ c ∈ q.2, isDigit c) (hrest : Ends rest) :
    powerOf (Numeral.powerText p ++ rest) = p.map fun _ => (Numeral.powerValue p, rest) := by
  cases p with
  | none =>
    cases rest with
    | nil => rfl
    | cons c rest =>
      obtain ⟨-, -, he, hE⟩ := hrest c rfl
      unfold powerOf
      split
      next h =>
        injection h with h
        exact absurd h he
      next h =>
        injection h with h
        exact absurd h hE
      next => rfl
  | some q =>
    obtain ⟨hne, hds⟩ := hp q rfl
    exact exponent_text hne hds fun c hc => (hrest c hc).1

def assembled (dialect : Dialect) (negative : Bool) (digits fraction : List Char)
    (power : Option (Int × List Char)) (rest : List Char) : Except Fault (Number × List Char) :=
  let isWhole := fraction.isEmpty && power.isNone
  if (isWhole || dialect.countsDoubles) && Number.digitLimit < digits.length then .error .outsized
  else if isWhole then
    let n : Int := digitsValue digits
    .ok (.whole (if negative then -n else n), rest)
  else
    let (e, rest) := power.getD (0, rest)
    .ok (.double (Double.ofDecimal negative (digitsValue (digits ++ fraction))
      (e - fraction.length)), rest)

theorem magnitude_parts (dialect : Dialect) (negative : Bool) {ds rest : List Char}
    (hds : ∀ c ∈ ds, isDigit c) (hlead : ds ≠ [] ∧ (ds.head? = some '0' → ds = ['0']))
    (hrest : ∀ c ∈ rest.head?, isDigit c = false) :
    magnitude dialect negative (ds ++ rest) = assembled dialect negative ds (fractionOf rest).1
      (powerOf (fractionOf rest).2) (fractionOf rest).2 := by
  obtain ⟨htake, hdrop⟩ := span_digits hds hrest
  obtain ⟨d, more, rfl⟩ := List.exists_cons_of_ne_nil hlead.1
  unfold magnitude
  rw [htake, hdrop]
  by_cases hd : d = '0'
  · obtain ⟨rfl, rfl⟩ : d = '0' ∧ more = [] := List.cons_eq_cons.mp (hlead.2 (congrArg some hd))
    rfl
  · have hne : (d == '0') = false := beq_false_of_ne hd
    dsimp only
    rw [hne]
    rfl

variable {n : Numeral} {rest : List Char}

theorem Numeral.head_power (n : Numeral) (hrest : Ends rest) :
    ∀ c ∈ (powerText n.power ++ rest).head?, isDigit c = false ∧ c ≠ '.' := by
  intro c hc
  cases hp : n.power with
  | none =>
    rw [hp] at hc
    exact ⟨(hrest c hc).1, (hrest c hc).2.1⟩
  | some q =>
    rw [hp] at hc
    cases hc
    decide

theorem Numeral.head_fraction (n : Numeral) (hrest : Ends rest) :
    ∀ c ∈ (fractionText n.fraction ++ (powerText n.power ++ rest)).head?, isDigit c = false := by
  intro c hc
  unfold fractionText at hc
  split at hc
  · exact (n.head_power hrest c hc).1
  · cases hc
    decide

/-- A numeral is read to its end. -/
theorem magnitude_text (dialect : Dialect) (negative : Bool) (h : n.WellFormed)
    (hrest : Ends rest) :
    magnitude dialect negative (n.text ++ rest) =
      if (n.isWhole || dialect.countsDoubles) && Number.digitLimit < n.digits.length then
        .error .outsized
      else if n.isWhole then
        .ok (.whole (if negative then -(digitsValue n.digits : Int) else digitsValue n.digits),
          rest)
      else .ok (.double (Double.ofDecimal negative n.coefficient n.exponent), rest) := by
  have hsplit : n.text ++ rest =
      n.digits ++ (Numeral.fractionText n.fraction ++ (Numeral.powerText n.power ++ rest)) := by
    simp only [Numeral.text, List.append_assoc]
  rw [hsplit, magnitude_parts dialect negative h.digits h.leading (n.head_fraction hrest),
    fractionOf_text h.fraction (n.head_power hrest), powerOf_text h.power hrest]
  unfold assembled Numeral.isWhole Numeral.coefficient Numeral.exponent
  cases hp : n.power with
  | none => rfl
  | some q => cases n.fraction <;> rfl

theorem value_digit {d : Dialect} {fuel depth : Nat} {c : Char} {r : List Char}
    (hc : isDigit c = true) : value d (fuel + 1) depth (c :: r) =
      (magnitude d false (c :: r)).map fun (n, rest) => (.number n, rest) := by
  unfold value
  split
  case h_11 => rfl
  all_goals
    next h =>
      injection h with h
      rw [h] at hc
      cases hc

theorem value_minus {d : Dialect} {fuel depth : Nat} {c : Char} {r : List Char}
    (hc : isDigit c = true) : value d (fuel + 1) depth ('-' :: c :: r) =
      (magnitude d true (c :: r)).map fun (n, rest) => (.number n, rest) := by
  have hI : c ≠ 'I' := fun h => by
    rw [h] at hc
    cases hc
  rw [value]
  rintro r' h
  injection h with h
  exact hI h

end Reading

/-- What a text is read as, with any end behind it. -/
structure Reads (d : Dialect) (depth : Nat) (text : String) (result : Except Fault Document) :
    Prop where
  starts : ∃ c cs, text.toList = c :: cs ∧ isSpace c = false
  value_eq : ∀ rest, Ends rest → ∀ fuel, text.toList.length ≤ fuel →
    value d fuel depth (text.toList ++ rest) = result.map (·, rest)

theorem Reads.of_cons {d : Dialect} {depth : Nat} {text : String} {result : Except Fault Document}
    {c : Char} {cs : List Char} (ht : text.toList = c :: cs) (hc : isSpace c = false)
    (h : ∀ rest, Ends rest → ∀ fuel, cs.length ≤ fuel →
      value d (fuel + 1) depth (c :: (cs ++ rest)) = result.map (·, rest)) :
    Reads d depth text result := by
  refine ⟨⟨c, cs, ht, hc⟩, fun rest hrest fuel hfuel => ?_⟩
  rw [ht] at hfuel ⊢
  obtain ⟨fuel, rfl⟩ := Nat.exists_eq_succ_of_ne_zero (Nat.ne_zero_of_lt hfuel)
  exact h rest hrest fuel (Nat.le_of_succ_le_succ hfuel)

theorem isSpace_digit {c : Char} (h : isDigit c = true) : isSpace c = false := by
  refine Bool.eq_false_iff.mpr fun hs => ?_
  unfold isSpace at hs
  simp only [Bool.or_eq_true, beq_iff_eq] at hs
  obtain ((rfl | rfl) | rfl) | rfl := hs <;> cases h

def signText (negative : Bool) : List Char := if negative then ['-'] else []

variable {d : Dialect} {depth : Nat} {n : Numeral} {negative : Bool} {text : String}

theorem reads_numeral (h : n.WellFormed) (ht : text.toList = signText negative ++ n.text) :
    Reads d depth text (if (n.isWhole || d.countsDoubles) && Number.digitLimit < n.digits.length
      then .error .outsized
      else if n.isWhole then
        .ok (.number (.whole
          (if negative then -(digitsValue n.digits : Int) else digitsValue n.digits)))
      else .ok (.number (.double (Double.ofDecimal negative n.coefficient n.exponent)))) := by
  obtain ⟨c, more, hc⟩ := List.exists_cons_of_ne_nil h.leading.1
  have hdigit : isDigit c = true := h.digits c (hc ▸ List.mem_cons_self)
  have hn : n.text = c :: (more ++
      (Numeral.fractionText n.fraction ++ Numeral.powerText n.power)) := by
    rw [Numeral.text, hc, List.cons_append]
  have hmagnitude := fun rest => @magnitude_text n rest d negative h
  rw [hn] at ht hmagnitude
  cases negative with
  | false =>
    refine .of_cons ht (isSpace_digit hdigit) fun rest hrest fuel _ => ?_
    rw [value_digit hdigit, ← List.cons_append, hmagnitude rest hrest]
    split
    · rfl
    · split <;> rfl
  | true =>
    refine .of_cons (show text.toList = '-' :: (c :: _) from ht) rfl fun rest hrest fuel _ => ?_
    rw [List.cons_append, value_minus hdigit, ← List.cons_append, hmagnitude rest hrest]
    split
    · rfl
    · split <;> rfl

theorem leading_toDigits (k : Nat) :
    (Nat.toDigits 10 k).head? = some '0' → Nat.toDigits 10 k = ['0'] := by
  induction k using Nat.strongRecOn with
  | ind k ih =>
    by_cases hk : k < 10
    · rw [Nat.toDigits_of_lt_base hk]
      intro h
      rw [Option.some.inj h]
    · have hne : Nat.toDigits 10 (k / 10) ≠ [] := Nat.toDigits_ne_nil
      rw [Nat.toDigits_of_base_le (by decide) (by omega), List.head?_append_of_ne_nil _ hne]
      intro h
      have hzero := congrArg digitsValue (ih (k / 10) (by omega) h)
      rw [digitsValue_toDigits] at hzero
      change k / 10 = 0 at hzero
      omega

theorem wellFormed_toDigits (k : Nat) : (Numeral.mk (Nat.toDigits 10 k) [] none).WellFormed where
  digits _ h := isDigit_toDigits h
  leading := ⟨Nat.toDigits_ne_nil, leading_toDigits k⟩
  fraction _ h := by cases h
  power _ h := by cases h

theorem toList_toString (k : Nat) : (toString k).toList = Nat.toDigits 10 k := Nat.toList_repr

theorem toList_toString_int (k : Int) :
    (toString k).toList = signText (decide (k < 0)) ++ Nat.toDigits 10 k.natAbs := by
  cases k with
  | ofNat k => exact toList_toString k
  | negSucc k =>
    change ("-" ++ toString (k + 1)).toList = _
    rw [String.toList_append, toList_toString, decide_eq_true (Int.negSucc_lt_zero k)]
    rfl

def wholeAgain (k : Int) : Except Fault Document :=
  if Number.Short k then .ok (.number (.whole k)) else .error .outsized

theorem reads_whole (k : Int) : Reads d depth (toString k) (wholeAgain k) := by
  have hread : Reads d depth _ _ := reads_numeral (wellFormed_toDigits k.natAbs)
    (show (toString k).toList = signText (decide (k < 0)) ++ Numeral.text _ by
      rw [toList_toString_int, Numeral.text]
      exact congrArg _ (List.append_nil _).symm)
  have hshort : Number.digitLimit < (Nat.toDigits 10 k.natAbs).length ↔ ¬Number.Short k := by
    rw [← Nat.not_le, ← toList_toString, String.length_toList]
    exact not_congr (Number.length_toString_le_iff (show 0 < Number.digitLimit by decide))
  have hk : (if decide (k < 0) = true then -(k.natAbs : Int) else k.natAbs) = k := by
    simp only [decide_eq_true_eq]
    omega
  simp only [Numeral.isWhole, digitsValue_toDigits, hk, hshort] at hread
  unfold wholeAgain
  by_cases hs : Number.Short k
  · simpa [hs] using hread
  · simpa [hs] using hread

section Keeping

open Text (Kept)

theorem kept_digits {cs : List Char} (h : ∀ c ∈ cs, isDigit c) : Kept cs := by
  refine .of_plain fun c hc => ?_
  have hnine : c.toNat ≤ 57 := of_decide_eq_true (Bool.and_eq_true_iff.mp (h c hc)).2
  have hzero : 48 ≤ c.toNat := of_decide_eq_true (Bool.and_eq_true_iff.mp (h c hc)).1
  refine ⟨Bool.eq_false_iff.mpr fun hr => ?_, ?_⟩
  · have := (Text.isReserved_iff c).mp hr
    omega
  · rintro rfl
    exact absurd hzero (by decide)

theorem kept_signText (negative : Bool) : Kept (signText negative) := by
  cases negative <;> exact .of_all (by decide +kernel)

theorem Numeral.WellFormed.kept {n : Numeral} (h : n.WellFormed) : Kept n.text := by
  have hpower : Kept (Numeral.powerText n.power) := by
    cases hp : n.power with
    | none => exact .nil
    | some p =>
      obtain ⟨negative, ds⟩ := p
      have hds := kept_digits (h.power _ hp).2
      cases negative <;> exact .plain rfl (by decide) (.plain rfl (by decide) hds)
  have hfraction : Kept (Numeral.fractionText n.fraction) := by
    unfold Numeral.fractionText
    split
    · exact .nil
    · exact .plain rfl (by decide) (kept_digits h.fraction)
  exact (kept_digits h.digits).append (hfraction.append hpower)

theorem kept_whole (k : Int) : Kept (toString k).toList := by
  rw [toList_toString_int]
  exact (kept_signText _).append (kept_digits fun _ => isDigit_toDigits)

end Keeping

end Duel.Json
