import Duel.Proofs.Json.Numbers
import Duel.Proofs.Text

namespace Duel.Json

/-- What the characters of a text are read as before their halves are joined: some of the control
characters are written by number. -/
inductive Spells : Char → Nat ⊕ Char → Prop
  | itself (c : Char) : Spells c (.inr c)
  | byNumber {c : Char} (h : c.toNat < 32) : Spells c (.inl c.toNat)

theorem hex4?_control :
    ∀ n < 32, hex4? '0' '0' (hexDigit (n / 16)) (hexDigit (n % 16)) = some n := by
  decide

theorem units_escaped (c : Char) (rest : List Char) : ∃ u, Spells c u ∧
    units (escaped c ++ rest) = (units rest).map fun (us, r) => (u :: us, r) := by
  unfold escaped
  split
  case h_8 hquote hslash _ _ _ _ _ =>
    split
    next hc =>
      refine ⟨.inl c.toNat, .byNumber hc, ?_⟩
      change units ('\\' :: 'u' :: '0' :: '0' :: _ :: _ :: rest) = _
      rw [units, hex4?_control c.toNat hc]
    next hc =>
      refine ⟨.inr c, .itself c, ?_⟩
      change units (c :: rest) = _
      rw [units, if_neg hc]
      · exact hquote
      · rintro a b d e r rfl
        exact fun _ => hslash rfl
      · rintro e r rfl
        exact fun _ => hslash rfl
  all_goals exact ⟨.inr _, .itself _, rfl⟩

theorem single?_control {n : Nat} (h : n < 32) (halves : Bool) :
    single? halves n = some [Char.ofNat n] := by
  have hhalf : Text.isHalf n = false := by
    unfold Text.isHalf
    simp only [Bool.and_eq_false_iff, decide_eq_false_iff_not]
    omega
  have hplain : ∀ n < 32, Text.isReserved (Char.ofNat n) = false := by decide
  unfold single? Text.ofCode
  simp only [hhalf, Bool.false_and, Bool.false_eq_true, if_false, hplain n h]

theorem joinHalves?_spells {c : Char} {u : Nat ⊕ Char} (h : Spells c u) (halves : Bool)
    (us : List (Nat ⊕ Char)) :
    joinHalves? halves (u :: us) = (joinHalves? halves us).map (c :: ·) := by
  cases h with
  | itself => rfl
  | byNumber hc =>
    have hhigh : isHigh c.toNat = false := by
      unfold isHigh
      simp only [Bool.and_eq_false_iff, decide_eq_false_iff_not]
      omega
    have hsingle := single?_control hc halves
    rw [Char.ofNat_toNat] at hsingle
    have hjoin : (do return (← single? halves c.toNat) ++ (← joinHalves? halves us) : Option _) =
        (joinHalves? halves us).map (c :: ·) := by
      rw [hsingle]
      cases joinHalves? halves us <;> rfl
    rw [← hjoin]
    match us with
    | .inl lo :: us => rw [joinHalves?, hhigh, Bool.false_and, if_neg Bool.false_ne_true]
    | .inr k :: us => rfl
    | [] => rfl

theorem units_quoted (cs rest : List Char) (halves : Bool) :
    ∃ us, units (cs.flatMap escaped ++ '"' :: rest) = .ok (us, rest) ∧
      joinHalves? halves us = some cs := by
  induction cs with
  | nil => exact ⟨[], rfl, rfl⟩
  | cons c cs ih =>
    obtain ⟨us, hus, hjoin⟩ := ih
    obtain ⟨u, hu, hunits⟩ := units_escaped c (cs.flatMap escaped ++ '"' :: rest)
    refine ⟨u :: us, ?_, ?_⟩
    · rw [List.flatMap_cons, List.append_assoc, hunits, hus]
      rfl
    · rw [joinHalves?_spells hu, hjoin]
      rfl

variable {d : Dialect} {depth : Nat}

def quotedRest (s : String) (rest : List Char) : List Char :=
  (Text.whole s).toList.flatMap escaped ++ '"' :: rest

theorem toList_quoted (s : String) :
    (quoted s).toList = '"' :: ((Text.whole s).toList.flatMap escaped ++ ['"']) := by
  have hquote : "\"".toList = ['"'] := rfl
  simp only [quoted, String.toList_append, String.toList_ofList, hquote, List.cons_append,
    List.nil_append]

theorem string_quoted (s : String) (rest : List Char) :
    string d (quotedRest s rest) = .ok (Text.whole s, rest) := by
  obtain ⟨us, hus, hjoin⟩ := units_quoted (Text.whole s).toList rest d.halves
  unfold string quotedRest
  rw [hus]
  dsimp only [bind, Except.bind]
  rw [hjoin]
  exact congrArg (fun t => Except.ok (t, rest)) String.ofList_toList

theorem reads_quoted (s : String) : Reads d depth (quoted s) (.ok (.text (Text.whole s))) := by
  refine .of_cons (toList_quoted s) rfl fun rest _ fuel _ => ?_
  rw [List.append_assoc, List.cons_append, List.nil_append, value]
  change (string d (quotedRest s rest)).map _ = _
  rw [string_quoted]
  rfl

/-- A field with the text of its value, and what that is read as. -/
structure Entry where
  name : String
  text : String
  result : Except Fault Document

namespace Entry

def line (e : Entry) : String × String := (e.name, e.text)

def read (e : Entry) : Except Fault (Document × Document) :=
  e.result.map fun d => (.text (Text.whole e.name), d)

def chars (e : Entry) (behind : List Char) : List Char :=
  '"' :: quotedRest e.name (':' :: ' ' :: (e.text.toList ++ behind))

end Entry

variable {indent : List Char}

def behind (indent rest : List Char) : List Entry → List Char
  | [] => '\n' :: (indent ++ '\x7d' :: rest)
  | e :: es => ',' :: '\n' :: (indent ++ ' ' :: ' ' :: e.chars (behind indent rest es))

theorem ends_behind (rest : List Char) (es : List Entry) : Ends (behind indent rest es) := by
  cases es with
  | nil => exact ends_cons (by decide)
  | cons e es => exact ends_cons (by decide)

theorem skip_spaces {ws : List Char} (h : ∀ c ∈ ws, isSpace c) (s : List Char) :
    skip (ws ++ s) = skip s :=
  List.dropWhile_append_of_pos h

theorem skip_cons {c : Char} (h : isSpace c = false) (s : List Char) : skip (c :: s) = c :: s :=
  List.dropWhile_cons_of_neg (by simp [h])

theorem skip_entry (hi : ∀ c ∈ indent, isSpace c) (e : Entry) (s : List Char) :
    skip ('\n' :: (indent ++ ' ' :: ' ' :: e.chars s)) = e.chars s := by
  have hspace : ∀ c ∈ '\n' :: (indent ++ [' ', ' ']), isSpace c := by
    intro c hc
    simp only [List.mem_cons, List.mem_append, List.not_mem_nil, or_false] at hc
    obtain rfl | hc | rfl | rfl := hc
    · rfl
    · exact hi c hc
    · rfl
    · rfl
  have hskip := skip_spaces hspace (e.chars s)
  rw [List.cons_append, List.append_assoc] at hskip
  exact hskip.trans (skip_cons rfl _)

theorem skip_close (hi : ∀ c ∈ indent, isSpace c) (rest : List Char) :
    skip ('\n' :: (indent ++ '\x7d' :: rest)) = '\x7d' :: rest := by
  have hspace : ∀ c ∈ '\n' :: indent, isSpace c := by
    intro c hc
    obtain rfl | hc := List.mem_cons.mp hc
    · rfl
    · exact hi c hc
  exact (skip_spaces hspace _).trans (skip_cons rfl _)

theorem Reads.skip_text {text : String} {result : Except Fault Document}
    (h : Reads d depth text result) (s : List Char) :
    skip (' ' :: (text.toList ++ s)) = text.toList ++ s := by
  obtain ⟨c, cs, ht, hc⟩ := h.starts
  rw [ht]
  exact (skip_spaces (List.forall_mem_singleton.mpr rfl) _).trans (skip_cons hc _)

def fieldsOn (d : Dialect) (fuel depth : Nat) (seen : List (Document × Document))
    (s : List Char) : Except Fault (List (Document × Document) × List Char) :=
  match skip s with
  | ',' :: r => fields d fuel depth seen (skip r)
  | '\x7d' :: r => .ok (seen, r)
  | _ => .error .malformed

theorem fieldsOn_comma {fuel : Nat} {seen : List (Document × Document)} {s r : List Char}
    (h : skip s = ',' :: r) : fieldsOn d fuel depth seen s = fields d fuel depth seen (skip r) := by
  rw [fieldsOn, h]
  rfl

theorem fieldsOn_close {fuel : Nat} {seen : List (Document × Document)} {s r : List Char}
    (h : skip s = '\x7d' :: r) : fieldsOn d fuel depth seen s = .ok (seen, r) := by
  rw [fieldsOn, h]
  rfl

theorem fields_chars (hd : d.repeats = true) {e : Entry} (he : Reads d depth e.text e.result)
    {s : List Char} (hs : Ends s) {fuel : Nat} (hfuel : e.text.toList.length ≤ fuel)
    (seen : List (Document × Document)) :
    fields d (fuel + 1) depth seen (e.chars s) =
      e.read.bind fun f => fieldsOn d fuel depth (seen ++ [f]) s := by
  unfold Entry.chars Entry.read
  rw [fields, string_quoted]
  dsimp only [bind, Except.bind]
  rw [skip_cons rfl]
  change (value d fuel depth (skip (' ' :: (e.text.toList ++ s)))).bind _ = _
  rw [he.skip_text, he.value_eq s hs fuel hfuel]
  cases e.result with
  | error fault => rfl
  | ok x =>
    dsimp only [Except.map, Except.bind]
    rw [if_pos hd]
    rfl

theorem length_chars (e : Entry) (s : List Char) :
    e.text.toList.length + s.length + 3 ≤ (e.chars s).length := by
  unfold Entry.chars quotedRest
  simp only [List.length_cons, List.length_append]
  omega

theorem length_behind (indent rest : List Char) (es : List Entry) :
    rest.length ≤ (behind indent rest es).length := by
  induction es with
  | nil =>
    simp only [behind, List.length_cons, List.length_append]
    omega
  | cons e es ih =>
    have := length_chars e (behind indent rest es)
    simp only [behind, List.length_cons, List.length_append]
    omega

theorem fields_written (hd : d.repeats = true) (hi : ∀ c ∈ indent, isSpace c) (rest : List Char)
    {e : Entry} {es : List Entry} (hes : ∀ f ∈ e :: es, Reads d depth f.text f.result)
    {fuel : Nat} (hfuel : (e.chars (behind indent rest es)).length ≤ fuel + rest.length)
    (seen : List (Document × Document)) :
    fields d fuel depth seen (e.chars (behind indent rest es)) =
      ((e :: es).mapM Entry.read).map fun fs => (seen ++ fs, rest) := by
  induction es generalizing e fuel seen with
  | nil =>
    have hlength := length_chars e (behind indent rest [])
    have hrest := length_behind indent rest []
    obtain ⟨fuel, rfl⟩ : ∃ k, fuel = k + 1 := Nat.exists_eq_add_one_of_ne_zero (by omega)
    rw [fields_chars hd (hes e List.mem_cons_self) (ends_behind rest []) (by omega),
      List.mapM_cons]
    cases e.read with
    | error fault => rfl
    | ok x => exact fieldsOn_close (skip_close hi rest)
  | cons f es ih =>
    have hlength := length_chars e (behind indent rest (f :: es))
    have hrest := length_behind indent rest (f :: es)
    have hnext : (f.chars (behind indent rest es)).length + 2 ≤
        (behind indent rest (f :: es)).length := by
      simp only [behind, List.length_cons, List.length_append]
      omega
    obtain ⟨fuel, rfl⟩ : ∃ k, fuel = k + 1 := Nat.exists_eq_add_one_of_ne_zero (by omega)
    rw [fields_chars hd (hes e List.mem_cons_self) (ends_behind rest _) (by omega),
      List.mapM_cons]
    cases e.read with
    | error fault => rfl
    | ok x =>
      change fieldsOn d fuel depth (seen ++ [x]) (behind indent rest (f :: es)) = _
      rw [behind, fieldsOn_comma (skip_cons rfl _), skip_entry hi,
        ih (fun g hg => hes g (List.mem_cons_of_mem _ hg)) (by omega)]
      change _ = Except.map _ ((f :: es).mapM Entry.read >>= fun fs => pure (x :: fs))
      cases (f :: es).mapM Entry.read with
      | error fault => rfl
      | ok fs =>
        change Except.ok (seen ++ [x] ++ fs, rest) = Except.ok (seen ++ x :: fs, rest)
        rw [List.append_assoc, List.singleton_append]

def lineText (indent : String) (field : String × String) : String :=
  indent ++ "  " ++ quoted field.1 ++ ": " ++ field.2

theorem toList_line (indent : String) (e : Entry) (s : List Char) :
    (lineText indent e.line).toList ++ s = indent.toList ++ ' ' :: ' ' :: e.chars s := by
  have hspaces : "  ".toList = [' ', ' '] := rfl
  have hcolon : ": ".toList = [':', ' '] := rfl
  simp only [lineText, Entry.line, Entry.chars, quotedRest, toList_quoted, String.toList_append,
    hspaces, hcolon, List.append_assoc, List.cons_append, List.nil_append]

theorem toList_lines (indent : String) (e : Entry) (es : List Entry) (rest : List Char) :
    (",\n".intercalate ((e :: es).map fun e => lineText indent e.line)).toList ++
        ('\n' :: (indent.toList ++ '\x7d' :: rest)) =
      indent.toList ++ ' ' :: ' ' :: e.chars (behind indent.toList rest es) := by
  induction es generalizing e with
  | nil =>
    rw [List.map_cons, List.map_nil, String.intercalate_singleton, toList_line]
    rfl
  | cons f es ih =>
    have hcomma : ",\n".toList = [',', '\n'] := rfl
    have hlines := ih f
    rw [List.map_cons] at hlines
    rw [List.map_cons, List.map_cons, String.intercalate_cons_cons, String.toList_append,
      String.toList_append, List.append_assoc, List.append_assoc, hlines, toList_line, hcomma]
    rfl

theorem toList_braced (indent : String) (e : Entry) (es : List Entry) (rest : List Char) :
    (braced indent ((e :: es).map Entry.line)).toList ++ rest =
      '\x7b' :: '\n' ::
        (indent.toList ++ ' ' :: ' ' :: e.chars (behind indent.toList rest es)) := by
  have hopen : "\x7b\n".toList = ['\x7b', '\n'] := rfl
  have hbreak : "\n".toList = ['\n'] := rfl
  have hclose : "\x7d".toList = ['\x7d'] := rfl
  rw [← toList_lines, braced, if_neg (by simp)]
  dsimp only
  rw [List.map_map]
  change ("\x7b\n" ++ ",\n".intercalate ((e :: es).map fun e => lineText indent e.line) ++ "\n" ++
    indent ++ "\x7d").toList ++ rest = _
  simp only [String.toList_append, hopen, hbreak, hclose, List.append_assoc, List.cons_append,
    List.nil_append]

def tableOn (d : Dialect) (fuel depth : Nat) (s : List Char) :
    Except Fault (Document × List Char) :=
  match skip s, depth with
  | '\x7d' :: rest, _ => .ok (.table [], rest)
  | _, 0 => .error .tooDeep
  | r, depth + 1 => (fields d fuel depth [] r).map fun (fs, rest) => (.table fs, rest)

theorem value_table {fuel : Nat} {r t : List Char} (h : skip r = '"' :: t) :
    value d (fuel + 1) (depth + 1) ('\x7b' :: r) =
      (fields d fuel depth [] ('"' :: t)).map fun p => (.table p.1, p.2) := by
  change tableOn d fuel (depth + 1) r = _
  unfold tableOn
  rw [h]
  rfl

theorem reads_braced (hd : d.repeats = true) {indent : String} (hi : ∀ c ∈ indent.toList, isSpace c)
    {es : List Entry} (hes : ∀ e ∈ es, Reads d depth e.text e.result) :
    Reads d (depth + 1) (braced indent (es.map Entry.line))
      ((es.mapM Entry.read).map .table) := by
  cases es with
  | nil =>
    have hbraces : (braced indent ([].map Entry.line)).toList = ['\x7b', '\x7d'] := by
      rw [List.map_nil, braced, if_pos List.isEmpty_nil]
      rfl
    refine .of_cons hbraces rfl fun rest _ fuel _ => ?_
    change value d (fuel + 1) (depth + 1) ('\x7b' :: '\x7d' :: rest) = _
    rw [value]
    · rfl
    · exact skip_cons rfl _
  | cons e es =>
    have hlist := toList_braced indent e es
    refine ⟨⟨_, _, (List.append_nil _).symm.trans (hlist []), rfl⟩, fun rest _ fuel hfuel => ?_⟩
    have hlength := congrArg List.length (hlist rest)
    simp only [List.length_append, List.length_cons] at hlength
    have hchars := length_chars e (behind indent.toList rest es)
    have hrest := length_behind indent.toList rest es
    obtain ⟨fuel, rfl⟩ : ∃ k, fuel = k + 1 := Nat.exists_eq_add_one_of_ne_zero (by omega)
    rw [hlist rest, value_table (skip_entry hi e _), ← Entry.chars,
      fields_written hd hi rest hes (by omega)]
    cases (e :: es).mapM Entry.read <;> rfl

theorem readAs_of_reads {text : String} {result : Except Fault Document}
    (h : Reads d d.depth text result) : readAs d text = result := by
  obtain ⟨c, cs, ht, hc⟩ := h.starts
  have hskip : skip text.toList = text.toList := by
    rw [ht]
    exact skip_cons hc cs
  have hvalue := h.value_eq [] ends_nil (2 * text.toList.length + 2) (by omega)
  rw [List.append_nil] at hvalue
  unfold readAs
  dsimp only
  rw [hskip, hvalue]
  cases result <;> rfl

section Keeping

open Text (Kept)

theorem kept_escaped {c : Char} (hc : Text.isReserved c = false) : Kept (escaped c) := by
  have hcontrol : ∀ n < 32, (['\\', 'u', '0', '0', hexDigit (n / 16), hexDigit (n % 16)].all
      fun c => !Text.isReserved c && c != '\r') = true := by decide +kernel
  unfold escaped
  split
  case h_8 =>
    split
    next h => exact .of_all (hcontrol c.toNat h)
    next => exact .of_plain (by simpa using ⟨hc, ‹_›⟩)
  all_goals exact .of_all (by decide +kernel)

theorem escaped_of_reserved {c : Char} (hc : Text.isReserved c = true) : escaped c = [c] := by
  unfold escaped
  split
  case h_8 =>
    refine if_neg fun h => ?_
    have := (Text.isReserved_iff c).mp hc
    omega
  all_goals exact absurd hc (by decide)

theorem kept_ofCode {n : Nat} (h : Text.isHalf n = false) :
    Kept ((Text.ofCode n).flatMap escaped) := by
  unfold Text.ofCode
  rw [h, if_neg Bool.false_ne_true]
  dsimp only
  cases hc : Text.isReserved (Char.ofNat n) with
  | false =>
    rw [if_neg Bool.false_ne_true, List.flatMap_singleton]
    exact kept_escaped hc
  | true =>
    have hreturn : Char.ofNat n ≠ '\r' := fun he => by
      rw [he] at hc
      exact absurd hc (by decide)
    rw [if_pos rfl, List.flatMap_cons, List.flatMap_singleton, escaped_of_reserved hc,
      escaped_of_reserved (by decide)]
    exact .marked hreturn .nil

theorem kept_flatMap {α : Type} {xs : List α} {f : α → List Char} (h : ∀ x ∈ xs, Kept (f x)) :
    Kept (xs.flatMap f) := by
  induction xs with
  | nil => exact .nil
  | cons x xs ih =>
    obtain ⟨hx, h⟩ := List.forall_mem_cons.mp h
    exact hx.append (ih h)

theorem kept_quotedRest (s : String) {rest : List Char} (h : Kept rest) :
    Kept (quotedRest s rest) := by
  have hchars : Kept ((Text.whole s).toList.flatMap escaped) := by
    obtain ⟨hplain, hs⟩ | ⟨ns, hs, hns⟩ := Text.whole_cases s
    · rw [hs]
      exact kept_flatMap fun c hc => kept_escaped (by simpa using List.any_eq_false.mp hplain c hc)
    · rw [hs, Text.ofCodes, String.toList_ofList, List.flatMap_assoc]
      exact kept_flatMap fun n hn => kept_ofCode (hns n hn).1
  exact hchars.append (.plain rfl (by decide) h)

theorem kept_quoted (s : String) : Kept (quoted s).toList := by
  rw [toList_quoted]
  exact .plain rfl (by decide) (kept_quotedRest s .nil)

theorem kept_entry {indent : List Char} (hi : Kept indent) {e : Entry} (he : Kept e.text.toList)
    {rest : List Char} (h : Kept rest) :
    Kept ('\n' :: (indent ++ ' ' :: ' ' :: e.chars rest)) := by
  have hchars : Kept (e.chars rest) := .plain rfl (by decide)
    (kept_quotedRest _ (.plain rfl (by decide) (.plain rfl (by decide) (he.append h))))
  exact .plain rfl (by decide) (hi.append (.plain rfl (by decide) (.plain rfl (by decide) hchars)))

theorem kept_behind {indent : List Char} (hi : Kept indent) {es : List Entry}
    (hes : ∀ e ∈ es, Kept e.text.toList) : Kept (behind indent [] es) := by
  induction es with
  | nil => exact .plain rfl (by decide) (hi.append (.of_all (by decide +kernel)))
  | cons e es ih =>
    obtain ⟨he, hes⟩ := List.forall_mem_cons.mp hes
    exact .plain rfl (by decide) (kept_entry hi he (ih hes))

theorem kept_braced {indent : String} (hi : Kept indent.toList) {es : List Entry}
    (hes : ∀ e ∈ es, Kept e.text.toList) : Kept (braced indent (es.map Entry.line)).toList := by
  cases es with
  | nil =>
    rw [List.map_nil, braced, if_pos List.isEmpty_nil]
    exact .of_all (by decide +kernel)
  | cons e es =>
    obtain ⟨he, hes⟩ := List.forall_mem_cons.mp hes
    have hlist := toList_braced indent e es []
    rw [List.append_nil] at hlist
    rw [hlist]
    exact .plain rfl (by decide) (kept_entry hi he (kept_behind hi hes))

end Keeping

end Duel.Json
