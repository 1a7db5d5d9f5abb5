import Duel.Proofs.Json.Doubles
import Duel.Proofs.Json.Tables
import Duel.Proofs.Field
import Duel.Proofs.Ledger
import Duel.Proofs.Text
import Duel.Settings

namespace Duel.Settings

open Duel.Field
open Json (Entry Reads)

def wholeEntry (name : String) (n : Int) : Entry where
  name := name
  text := toString n
  result := Json.wholeAgain n

theorem wholeEntry_result (name : String) (n : Int) :
    (wholeEntry name n).result = Json.wholeAgain n := by
  unfold wholeEntry
  dsimp only

/-- The document that is left of a length of time. -/
def lengthDocument (x : Number) : Document :=
  if x.toDouble.isFinite then .number (.double x.toDouble) else .null

def lengthEntry (e : String × Number) : Entry where
  name := e.1
  text := Json.number (.double e.2.toDouble)
  result := .ok (lengthDocument e.2)

def lengthEntries (l : Ledger Number) : List Entry := l.entries.map lengthEntry

def entries (s : Settings Number) : List Entry := [
  wholeEntry "cue_default_duration_ms" s.cueLength,
  wholeEntry "cue_merge_window_ms" s.cueWindow,
  wholeEntry "cue_max_pending" s.cueRoom,
  { name := "cue_durations"
    text := Json.braced "  " ((lengthEntries s.cueLengths).map Entry.line)
    result := ((lengthEntries s.cueLengths).mapM Entry.read).map .table },
  wholeEntry "turn_end_delay_ms" s.turnEndDelay,
  { name := "rng_seed_mode"
    text := Json.quoted s.seedMode.name
    result := .ok (.text (Text.whole s.seedMode.name)) },
  wholeEntry "rng_seed" s.seed]

theorem writeFields_lengths (indent : String) (es : List (String × Number)) :
    Json.writeFields indent (es.map fun e => (e.1, view (Scalar.measured e.2))) =
      (es.map lengthEntry).map Entry.line := by
  induction es with
  | nil => rfl
  | cons e es ih => exact congrArg (_ :: ·) ih

theorem writeAt_lengths (indent : String) (l : Ledger Number) :
    Json.writeAt indent (view (l.map Scalar.measured)) =
      Json.braced indent ((lengthEntries l).map Entry.line) := by
  have hview : view (l.map Scalar.measured) =
      View.table (l.entries.map fun e => (e.1, view (Scalar.measured e.2))) :=
    congrArg View.table List.map_map
  rw [hview, Json.writeAt, writeFields_lengths]
  rfl

theorem write_eq (s : Settings Number) : s.write = Json.braced "" ((entries s).map Entry.line) := by
  have hindent : "" ++ "  " = "  " := rfl
  unfold write Json.write
  rw [show view s = View.record _ from rfl, Json.writeAt, hindent]
  refine congrArg (Json.braced "") ?_
  simp only [Json.writeFields, writeAt_lengths, entries, List.map_cons, List.map_nil]
  rfl

theorem spaces_of_blank {s : String} {n : Nat} (h : s.toList = List.replicate n ' ') :
    ∀ c ∈ s.toList, Json.isSpace c := by
  intro c hc
  rw [h] at hc
  rw [List.eq_of_mem_replicate hc]
  rfl

theorem reads_wholeEntry (name : String) (n : Int) {depth : Nat} :
    Reads dialect depth (wholeEntry name n).text (wholeEntry name n).result := by
  rw [wholeEntry_result]
  exact Json.reads_whole n

theorem reads_entries (s : Settings Number) {depth : Nat} :
    ∀ e ∈ entries s, Reads dialect (depth + 1) e.text e.result := by
  have hlengths : ∀ e ∈ lengthEntries s.cueLengths, Reads dialect depth e.text e.result := by
    intro e he
    obtain ⟨x, -, rfl⟩ := List.mem_map.mp he
    exact Json.reads_double _
  intro e he
  simp only [entries, List.mem_cons, List.not_mem_nil, or_false] at he
  obtain rfl | rfl | rfl | rfl | rfl | rfl | rfl := he
  · exact reads_wholeEntry _ _
  · exact reads_wholeEntry _ _
  · exact reads_wholeEntry _ _
  · exact Json.reads_braced rfl (spaces_of_blank (n := 2) rfl) hlengths
  · exact reads_wholeEntry _ _
  · exact Json.reads_quoted _
  · exact reads_wholeEntry _ _

def wholes (s : Settings Number) : List Int :=
  [s.cueLength, s.cueWindow, s.cueRoom, s.turnEndDelay, s.seed]

def lengthFields (l : Ledger Number) : List (Document × Document) :=
  l.entries.map fun e => (.text (Text.whole e.1), lengthDocument e.2)

def fields (s : Settings Number) : List (Document × Document) := [
  (.text "cue_default_duration_ms", .number (.whole s.cueLength)),
  (.text "cue_merge_window_ms", .number (.whole s.cueWindow)),
  (.text "cue_max_pending", .number (.whole s.cueRoom)),
  (.text "cue_durations", .table (lengthFields s.cueLengths)),
  (.text "turn_end_delay_ms", .number (.whole s.turnEndDelay)),
  (.text "rng_seed_mode", .text s.seedMode.name),
  (.text "rng_seed", .number (.whole s.seed))]

theorem mapM_lengthEntries (l : Ledger Number) :
    (lengthEntries l).mapM Entry.read = .ok (lengthFields l) := by
  unfold lengthEntries lengthFields
  induction l.entries with
  | nil => rfl
  | cons e es ih =>
    rw [List.map_cons, List.mapM_cons, ih]
    rfl

def ReadAs (es : List Entry) (ns : List Int) (fs : List (Document × Document)) : Prop :=
  es.mapM Entry.read =
    if ∀ n ∈ ns, Number.Short n then .ok fs else .error .outsized

namespace ReadAs

variable {es : List Entry} {ns : List Int} {fs : List (Document × Document)}

theorem nil : ReadAs [] [] [] := by
  unfold ReadAs
  rw [if_pos fun n h => absurd h List.not_mem_nil]
  rfl

theorem cons (h : ReadAs es ns fs) {name text : String} {result : Except Json.Fault Document}
    (hname : Text.whole name = name) {d : Document} (hd : result = .ok d) :
    ReadAs (⟨name, text, result⟩ :: es) ns ((.text name, d) :: fs) := by
  unfold ReadAs at h ⊢
  rw [List.mapM_cons, h, Entry.read, hd, hname]
  split <;> rfl

theorem cons_whole (h : ReadAs es ns fs) {name : String} (hname : Text.whole name = name)
    (n : Int) : ReadAs (wholeEntry name n :: es) (n :: ns)
      ((.text name, .number (.whole n)) :: fs) := by
  by_cases hn : Number.Short n
  · have hread : ReadAs (wholeEntry name n :: es) ns _ :=
      h.cons hname (show Json.wholeAgain n = .ok _ from if_pos hn)
    unfold ReadAs at hread ⊢
    simp only [List.forall_mem_cons, hn, true_and]
    exact hread
  · have hread : (wholeEntry name n).read = .error .outsized := by
      rw [Entry.read, wholeEntry_result, Json.wholeAgain, if_neg hn]
      rfl
    unfold ReadAs
    simp only [List.forall_mem_cons, hn, false_and, if_false, List.mapM_cons, hread]
    rfl

end ReadAs

theorem plain_seedMode (m : SeedMode) : m.name.toList.any Text.isReserved = false := by
  cases m <;> decide +kernel

theorem readAs_entries (s : Settings Number) : ReadAs (entries s) (wholes s) (fields s) := by
  refine .cons_whole (.cons_whole (.cons_whole (.cons (.cons_whole (.cons (.cons_whole .nil ?_ _)
    ?_ ?mode) ?_ _) ?_ ?lengths) ?_ _) ?_ _) ?_ _
  case mode => rw [Text.whole_of_plain (plain_seedMode _)]
  case lengths => rw [mapM_lengthEntries, Except.map]
  all_goals exact Text.whole_of_plain (by decide +kernel)

theorem readAs_write (s : Settings Number) : Json.readAs dialect s.write =
    if ∀ n ∈ wholes s, Number.Short n then .ok (.table (fields s)) else .error .outsized := by
  have hread : Json.readAs dialect s.write = ((entries s).mapM Entry.read).map .table := by
    refine Json.readAs_of_reads ?_
    rw [write_eq]
    exact Json.reads_braced rfl (spaces_of_blank (n := 0) rfl) (reads_entries s)
  rw [hread, readAs_entries s]
  split <;> rfl

def shortened (e : String × Number) : String × Number := (Text.whole e.1, .double e.2.toDouble)

theorem lengthInFile_lengthDocument (x y : Number) : lengthInFile (lengthDocument x) = .ok y ↔
    x.toDouble.isFinite = true ∧ y = .double x.toDouble := by
  unfold lengthDocument
  split
  next h => exact ⟨fun hx => ⟨h, by cases hx; rfl⟩, fun hx => by rw [hx.2]; rfl⟩
  next h => exact iff_of_false (fun hx => by cases hx) fun hx => h hx.1

theorem tableItems_lengthFields (es ts : List (String × Number)) :
    tableItems lengthInFile (es.map fun e => (.text (Text.whole e.1), lengthDocument e.2)) =
        .ok ts ↔
      (∀ e ∈ es, e.2.toDouble.isFinite = true) ∧ ts = es.map shortened := by
  induction es generalizing ts with
  | nil =>
    refine ⟨fun h => ?_, fun h => ?_⟩
    · cases h
      exact ⟨List.forall_mem_nil _, rfl⟩
    · rw [h.2]
      rfl
  | cons e es ih =>
    rw [List.forall_mem_cons, List.map_cons, List.map_cons]
    constructor
    · intro h
      obtain ⟨f, fs, hf, hfs, rfl⟩ := both_ok h
      obtain ⟨k, x, hk, hx, rfl⟩ := both_ok hf
      obtain ⟨hes, rfl⟩ := (ih fs).mp hfs
      obtain ⟨he, rfl⟩ := (lengthInFile_lengthDocument e.2 x).mp (within_ok.mp hx)
      cases hk
      exact ⟨⟨he, hes⟩, rfl⟩
    · rintro ⟨⟨he, hes⟩, rfl⟩
      rw [tableItems, (ih _).mpr ⟨hes, rfl⟩, (lengthInFile_lengthDocument e.2 _).mpr ⟨he, rfl⟩]
      rfl

theorem lastFields_fields (s : Settings Number) :
    lastFields (.table (fields s)) = .table (fields s) := rfl

theorem choice_seedMode (m : SeedMode) : choice SeedMode.named (.text m.name) = .ok m := by
  rw [choice, spelling, Text.hasHalf_of_plain (plain_seedMode m), if_neg Bool.false_ne_true]
  cases m <;> rfl

theorem ofLengths_fields (s : Settings Number) : ofLengths lengthInFile (.table (fields s)) =
    (within (.name "cue_durations")
      (ledgerOf lengthInFile (.table (lengthFields s.cueLengths)))).map
      fun lengths => { s with cueLengths := lengths } := by
  have hrun : ofLengths lengthInFile (.table (fields s)) =
      both (fun g a => g a) (both (fun g a => g a) (both (fun g a => g a) (both (fun g a => g a)
        (.ok (Settings.mk s.cueLength s.cueWindow s.cueRoom)) (within (.name "cue_durations")
          (ledgerOf lengthInFile (.table (lengthFields s.cueLengths))))) (.ok s.turnEndDelay))
        (within (.name "rng_seed_mode") (choice SeedMode.named (.text s.seedMode.name))))
        (.ok s.seed) := rfl
  rw [hrun, choice_seedMode]
  cases ledgerOf lengthInFile (.table (lengthFields s.cueLengths)) <;> rfl

theorem ledgerOf_lengthFields (l k : Ledger Number) :
    ledgerOf lengthInFile (.table (lengthFields l)) = .ok k ↔
      (∀ e ∈ l.entries, e.2.toDouble.isFinite = true) ∧ k = .ofList (l.entries.map shortened) := by
  change Except.map Ledger.ofList (tableItems lengthInFile _) = .ok k ↔ _
  constructor
  · intro h
    obtain ⟨ts, ht, rfl⟩ := except_map_ok h
    obtain ⟨hfinite, rfl⟩ := (tableItems_lengthFields _ _).mp ht
    exact ⟨hfinite, rfl⟩
  · rintro ⟨hfinite, rfl⟩
    rw [lengthFields, (tableItems_lengthFields _ _).mpr ⟨hfinite, rfl⟩]
    rfl

theorem read_write (s t : Settings Number) : read s.write = .ok t ↔
    (∀ n ∈ wholes s, Number.Short n) ∧ (∀ e ∈ s.cueLengths.entries, e.2.toDouble.isFinite = true) ∧
      t = { s with cueLengths := .ofList (s.cueLengths.entries.map shortened) } := by
  unfold read
  rw [readAs_write]
  by_cases hshort : ∀ n ∈ wholes s, Number.Short n
  · rw [if_pos hshort]
    dsimp only
    rw [lastFields_fields, Field.readAs, ofLengths_fields]
    cases hl : ledgerOf lengthInFile (.table (lengthFields s.cueLengths)) with
    | error issues =>
      refine iff_of_false (fun h => by cases h) fun h => ?_
      have hok := (ledgerOf_lengthFields _ _).mpr ⟨h.2.1, rfl⟩
      rw [hl] at hok
      cases hok
    | ok lengths =>
      obtain ⟨hfinite, rfl⟩ := (ledgerOf_lengthFields _ _).mp hl
      exact ⟨fun h => ⟨hshort, hfinite, by cases h; rfl⟩, fun h => by rw [h.2.2]; rfl⟩
  · rw [if_neg hshort]
    exact iff_of_false (fun h => by cases h) fun h => hshort h.1

open Text (Kept) in
theorem kept_write (s : Settings Number) : Kept s.write.toList := by
  have hlengths : ∀ e ∈ lengthEntries s.cueLengths, Kept e.text.toList := by
    intro e he
    obtain ⟨x, -, rfl⟩ := List.mem_map.mp he
    exact Json.kept_double _
  rw [write_eq]
  refine Json.kept_braced (.of_all (by decide +kernel)) fun e he => ?_
  simp only [entries, List.mem_cons, List.not_mem_nil, or_false] at he
  obtain rfl | rfl | rfl | rfl | rfl | rfl | rfl := he
  · exact Json.kept_whole _
  · exact Json.kept_whole _
  · exact Json.kept_whole _
  · exact Json.kept_braced (.of_all (by decide +kernel)) hlengths
  · exact Json.kept_whole _
  · exact Json.kept_quoted _
  · exact Json.kept_whole _

end Duel.Settings
