import Duel.Proofs.Content.Writing
import Duel.Proofs.Settings.Reading
import Duel.Settings.File

namespace Duel.Settings

open Duel.Field Content

def SameLength (x y : Number) : Prop := x.same y = true ∨ x.isNaN = true ∧ y.isNaN = true

/-- Settings that are equal, whatever the order of the lengths of cues. -/
structure Alike (s t : Settings Number) : Prop where
  fields : t = { s with cueLengths := t.cueLengths }
  lengths (key : String) : Option.Rel SameLength (s.cueLengths.get? key) (t.cueLengths.get? key)

theorem double_of_real {d : Document} {x : Number} (h : real d = .ok x) : ∃ y, x = .double y := by
  have hspelled : ∀ s, realSpelled s = .ok x → ∃ y, x = .double y := by
    intro s hs
    unfold realSpelled at hs
    split at hs
    · exact ⟨_, (Except.ok.inj hs).symm⟩
    · cases hs
  unfold real at h
  split at h
  · exact ⟨_, (Except.ok.inj h).symm⟩
  · split at h
    · exact ⟨_, (Except.ok.inj h).symm⟩
    · cases h
  · exact ⟨_, (Except.ok.inj h).symm⟩
  · unfold spelling at h
    split at h
    · cases h
    · exact hspelled _ h
  · unfold spellingOfBytes at h
    split at h
    · exact hspelled _ h
    · cases h
  · cases h

theorem double_of_tableItems {fields : List (Document × Document)} {es : List (String × Number)}
    (h : tableItems real fields = .ok es) : ∀ e ∈ es, ∃ x, e.2 = .double x := by
  induction fields generalizing es with
  | nil =>
    cases h
    exact List.forall_mem_nil _
  | cons f fields ih =>
    obtain ⟨_, es, hf, hes, rfl⟩ := both_ok h
    obtain ⟨_, x, -, hx, rfl⟩ := both_ok hf
    exact List.forall_mem_cons.mpr ⟨double_of_real (within_ok.mp hx), ih hes⟩

/-- The lengths of cues in settings that have been accepted are doubles, or the usual ones. -/
theorem lengths_of_accepted {d : Document} {s : Settings Number} (h : ofDocument d = .ok s) :
    (∀ e ∈ s.cueLengths.entries, ∃ x, e.2 = .double x) ∨ s.cueLengths = usual.cueLengths := by
  cases d with
  | table fields =>
    obtain ⟨_, _, hmode, -, rfl⟩ := both_ok h
    obtain ⟨_, _, hdelay, -, rfl⟩ := both_ok hmode
    obtain ⟨_, _, hlengths, -, rfl⟩ := both_ok hdelay
    obtain ⟨_, lengths, hroom, hl, rfl⟩ := both_ok hlengths
    obtain ⟨_, _, hwindow, -, rfl⟩ := both_ok hroom
    obtain ⟨_, _, hlength, -, rfl⟩ := both_ok hwindow
    obtain ⟨_, -, rfl⟩ := except_map_ok hlength
    have hl := within_ok.mp hl
    split at hl
    · obtain ⟨es, hes, rfl⟩ := except_map_ok hl
      unfold tableOf at hes
      split at hes
      · exact .inl fun e he => double_of_tableItems hes e (Ledger.mem_ofList he)
      · cases hes
    · cases hl
      exact .inr rfl
  | _ => cases h

theorem usual_doubles : ∀ e ∈ (usual : Settings Number).cueLengths.entries,
    Scalar.isFinite e.2 = true ∧ e.2.toDouble.isFinite = true ∧
      e.2.same (.double e.2.toDouble) = true := by
  decide +kernel

theorem length_of_accepted {d : Document} {s : Settings Number} (h : ofDocument d = .ok s)
    {e : String × Number} (he : e ∈ s.cueLengths.entries) :
    (e.2.toDouble.isFinite = true ↔ Scalar.isFinite e.2 = true) ∧
      (Scalar.isFinite e.2 = true → e.2.same (.double e.2.toDouble) = true) := by
  obtain hdouble | husual := lengths_of_accepted h
  · obtain ⟨x, hx⟩ := hdouble e he
    rw [hx]
    exact ⟨Iff.rfl, fun hfinite => Number.same_self (Double.isNaN_of_isFinite hfinite)⟩
  · rw [husual] at he
    obtain ⟨hfinite, hdouble, hsame⟩ := usual_doubles e he
    exact ⟨iff_of_true hdouble hfinite, fun _ => hsame⟩

variable {d : Document} {s t : Settings Number}

theorem alike_iff (h : ofDocument d = .ok s)
    (hfinite : ∀ e ∈ s.cueLengths.entries, Scalar.isFinite e.2 = true) :
    Alike s { s with cueLengths := .ofList (s.cueLengths.entries.map shortened) } ↔
      ∀ key ∈ s.cueLengths.names, Text.whole key = key := by
  constructor
  · intro halike _ hkey
    obtain ⟨⟨key, x⟩, he, rfl⟩ := List.mem_map.mp hkey
    have hrel := halike.lengths key
    rw [Ledger.get?_of_mem he] at hrel
    dsimp only at hrel
    cases hread : (Ledger.ofList (s.cueLengths.entries.map shortened)).get? key with
    | none =>
      rw [hread] at hrel
      cases hrel
    | some y =>
      -- Some key is read as this one, and what a key is read as is read as itself.
      obtain ⟨f, -, hf⟩ := List.mem_map.mp (Ledger.mem_ofList (Ledger.mem_of_get?_eq_some hread))
      have hkey : Text.whole f.1 = key := congrArg Prod.fst hf
      rw [← hkey, Text.whole_whole]
  · intro hkeys
    have hmap : Ledger.ofList (s.cueLengths.entries.map shortened) =
        s.cueLengths.map fun x => .double x.toDouble := by
      have hentries : s.cueLengths.entries.map shortened =
          (s.cueLengths.map fun x => Number.double x.toDouble).entries :=
        List.map_congr_left fun e he => Prod.ext (hkeys e.1 (List.mem_map_of_mem he)) rfl
      rw [hentries]
      exact Ledger.eq_of_entries (Ledger.entries_ofList (Ledger.distinct _))
    rw [hmap]
    refine ⟨rfl, fun key => ?_⟩
    dsimp only
    rw [Ledger.get?_map]
    cases hx : s.cueLengths.get? key with
    | none => exact .none
    | some x =>
      have he := Ledger.mem_of_get?_eq_some hx
      exact .some (.inl ((length_of_accepted h he).2 (hfinite _ he)))

theorem read_write_returns (h : ofDocument d = .ok s) : (∃ t, read s.write = .ok t) ↔
    (∀ n ∈ wholes s, Number.Short n) ∧
      ∀ e ∈ s.cueLengths.entries, Scalar.isFinite e.2 = true := by
  constructor
  · rintro ⟨t, ht⟩
    obtain ⟨hshort, hfinite, -⟩ := (read_write s t).mp ht
    exact ⟨hshort, fun e he => (length_of_accepted h he).1.mp (hfinite e he)⟩
  · rintro ⟨hshort, hfinite⟩
    exact ⟨_, (read_write s _).mpr
      ⟨hshort, fun e he => (length_of_accepted h he).1.mpr (hfinite e he), rfl⟩⟩

theorem read_write_alike (h : ofDocument d = .ok s) (ht : read s.write = .ok t) :
    Alike s t ↔ ∀ key ∈ s.cueLengths.names, Text.whole key = key := by
  obtain ⟨-, hfinite, rfl⟩ := (read_write s t).mp ht
  exact alike_iff h fun e he => (length_of_accepted h he).1.mp (hfinite e he)

variable {path : String} {f g k : Folder}

/-- Loading from a file that is there reads its text, and changes nothing. -/
theorem loadAt_eq {text : String} (h : f.textAt? path = .ok (some text)) :
    loadAt path f = Folder.ofExcept ((read text).mapError .invalid) f := by
  unfold loadAt
  rw [get_bind, h]
  rfl

theorem loadAt_ok {text : String} (h : f.textAt? path = .ok (some text)) :
    loadAt path f = .ok t k ↔ read text = .ok t ∧ k = f := by
  rw [loadAt_eq h]
  cases read text with
  | error e => exact iff_of_false (fun hl => by cases hl) fun hr => by cases hr.1
  | ok r =>
    constructor
    · intro hl
      obtain ⟨rfl, rfl⟩ := pure_ok hl
      exact ⟨rfl, rfl⟩
    · rintro ⟨hr, rfl⟩
      cases hr
      rfl

theorem textAt?_saveAt (hf : f.Tidy) (hpath : Path.Leads path) (h : saveAt path s f = .ok () g) :
    g.textAt? path = .ok (some s.write) := by
  have htext := Folder.textAt?_write hf hpath h
  rwa [Text.unifyBreaks_of_kept (kept_write s)] at htext

def withTurn (x : Float) : Settings Number :=
  { (usual : Settings Number) with cueLengths := .ofList [("turn", .double x)] }

theorem accepted_withTurn (x : Float) : ofDocument (.table [(.text "cue_durations",
    .table [(.text "turn", .number (.double x))])]) = .ok (withTurn x) := rfl

def home : Folder := { label := "home" }

theorem tidy_home : home.Tidy := fun _ h => absurd h List.not_mem_nil

theorem parts_settings : Path.parts "settings.json" = ["settings.json"] := by decide +kernel

theorem leads_settings : Path.Leads "settings.json" where
  plain := by decide +kernel
  inside := by decide +kernel
  down := by decide +kernel

theorem check_home {path : String} (h : path ∈ ["", "settings.json"]) :
    Folder.check path home = .ok () home := by
  refine Folder.check_ok.mpr ⟨rfl, Folder.wrong?_of_plain ?_ ?_ ?_⟩
  · revert path
    decide +kernel
  · revert path
    decide +kernel
  · rw [Path.bytes_eq]
    revert path
    decide +kernel

theorem home_writable : ∃ k, Folder.write "settings.json" "" home = .ok () k := by
  have hname : Folder.lastName "settings.json" = "settings.json" := by
    rw [Folder.lastName, leads_settings.plain.found, parts_settings]
    rfl
  have hmake : Folder.make "" home = .ok [] home := by
    have hplain : Path.Plain "" := by decide +kernel
    rw [Folder.make, bind_of_ok (check_home (by decide)), hplain.found]
    rfl
  refine ⟨_, (Folder.write_ok leads_settings.inside).mpr ⟨[], home, ?_,
    check_home (by decide), ?_, ?_, rfl, Text.hasHalf_of_plain rfl, rfl⟩⟩
  · rw [parts_settings]
    exact hmake
  · rw [hname]
    decide
  · rw [hname, Path.isLong, Path.bytes_eq]
    decide +kernel

/-- Settings that have been accepted can be saved wherever a file can be written. They can be
loaded from there again exactly if all lengths of cues are finite and no whole number is too long.
They are then alike exactly if no key has a half in it. -/
theorem loadAt_saveAt (hs : ofDocument d = .ok s) (hf : f.Tidy) (hpath : Path.Leads path)
    (hwrite : Folder.write path "" f = .ok () k) : ∃ g, saveAt path s f = .ok () g ∧
      ((∃ t h, loadAt path g = .ok t h) ↔ (∀ n ∈ wholes s, Number.Short n) ∧
        ∀ e ∈ s.cueLengths.entries, Scalar.isFinite e.2 = true) ∧
      ∀ t h, loadAt path g = .ok t h →
        h = g ∧ (Alike s t ↔ ∀ key ∈ s.cueLengths.names, Text.whole key = key) := by
  obtain ⟨g, hg⟩ := Folder.write_other hwrite (Text.hasHalf_of_kept (kept_write s))
  have htext := textAt?_saveAt hf hpath hg
  refine ⟨g, hg, ?_, fun t h hload => ?_⟩
  · rw [← read_write_returns hs]
    constructor
    · rintro ⟨t, _, hload⟩
      exact ⟨t, ((loadAt_ok htext).mp hload).1⟩
    · rintro ⟨t, hread⟩
      exact ⟨t, g, (loadAt_ok htext).mpr ⟨hread, rfl⟩⟩
  · obtain ⟨hread, rfl⟩ := (loadAt_ok htext).mp hload
    exact ⟨rfl, read_write_alike hs hread⟩

theorem loadAt_saveAt_brief : ∃ g t, saveAt "settings.json" (withTurn 900) home = .ok () g ∧
    loadAt "settings.json" g = .ok t g ∧ Alike (withTurn 900) t := by
  obtain ⟨k, hk⟩ := home_writable
  obtain ⟨g, hg, hloads, halike⟩ :=
    loadAt_saveAt (accepted_withTurn 900) tidy_home leads_settings hk
  have hshort : ∀ n ∈ wholes (withTurn 900), Number.Short n := by decide +kernel
  obtain ⟨t, h, hload⟩ := hloads.mpr ⟨hshort, by decide +kernel⟩
  obtain ⟨rfl, hiff⟩ := halike t h hload
  refine ⟨h, t, hg, hload, hiff.mpr ?_⟩
  exact List.forall_mem_singleton.mpr (Text.whole_of_plain (by decide +kernel))

/-- Settings with a length of time without an end are saved, and cannot be loaded any more. -/
theorem not_restored : ¬∀ d s, ofDocument d = .ok s → ∀ path f g,
    saveAt path s f = .ok () g → ∃ t h, loadAt path g = .ok t h ∧ Alike s t := by
  intro hall
  obtain ⟨k, hk⟩ := home_writable
  have haccepted := accepted_withTurn Double.infinity
  obtain ⟨g, hg⟩ := Folder.write_other hk (Text.hasHalf_of_kept (kept_write (withTurn _)))
  obtain ⟨t, h, hload, -⟩ := hall _ _ haccepted _ _ _ hg
  have hread := ((loadAt_ok (textAt?_saveAt tidy_home leads_settings hg)).mp hload).1
  have hfinite := ((read_write_returns haccepted).mp ⟨t, hread⟩).2 _ List.mem_cons_self
  exact absurd hfinite (by decide +kernel)

end Duel.Settings
