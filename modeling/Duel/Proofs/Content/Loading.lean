import Duel.Command.Run
import Duel.Proofs.Content.Checking
import Duel.Proofs.Text

namespace Duel.Content

variable {f : Folder} {hs : List (String × Hero)}

theorem check_of_validation (h : (Command.runValidation f).code = 0) : check f = ([], none) := by
  unfold Command.runValidation at h
  match hc : check f with
  | (complaints, some cause) => simp [hc, Command.Report.ofCrash] at h
  | ([], none) => rfl
  | (c :: complaints, none) => simp [hc] at h

theorem reads_of_validation (h : (Command.runValidation f).code = 0) :
    (∃ known, loadStatuses (f.enter "statuses") = .ok known ∧ ∀ e ∈ known.values, e.Definable) ∧
    ∃ hs, readHeroes (f.enter "heroes") = .ok hs := by
  have hc := check_of_validation h
  unfold check at hc
  split at hc
  next t hx => exact Check.checkFolder_reads hx (Prod.mk.inj hc).1
  next => cases (Prod.mk.inj hc).2

def enterHero (known : Ledger Hero) (x : String × Hero) : Except Fault (Ledger Hero) := do
  if known.has x.2.id then throw (.repeatedHero x.2.id x.1)
  return known.put x.2.id x.2

theorem enterHero_of_new {known : Ledger Hero} {x : String × Hero} (h : x.2.id ∉ known.names) :
    enterHero known x = .ok (known.put x.2.id x.2) := by
  rw [← Ledger.has_iff] at h
  simp [enterHero, h, pure, Except.pure]

theorem enterHero_of_known {known : Ledger Hero} {x : String × Hero} (h : x.2.id ∈ known.names) :
    enterHero known x = .error (.repeatedHero x.2.id x.1) := by
  rw [← Ledger.has_iff] at h
  simp only [enterHero, h, if_true]
  rfl

theorem addHero_of_read {file : String} {d : Document} {first all : List (String × Hero)}
    (h : readHero file first d = .ok all) :
    ∃ hero, all = first ++ [(file, hero)] ∧
      ∀ known, addHero file known d = enterHero known (file, hero) := by
  obtain ⟨hero, hr, h⟩ := except_bind_ok h
  cases h
  refine ⟨hero, rfl, fun known => ?_⟩
  rw [addHero, hr]
  rfl

theorem addHeroes_of_read {paths : List (String × String)} {first all : List (String × Hero)}
    (h : paths.foldlM (fun hs (path, text) => do
      readHero (f.call path) hs (← readFile path text)) first = .ok all) :
    ∃ more, all = first ++ more ∧ ∀ known,
      paths.foldlM (fun known (path, text) => do
        addHero (f.call path) known (← readFile path text)) known =
      more.foldlM enterHero known := by
  induction paths generalizing first with
  | nil =>
    cases h
    exact ⟨[], (List.append_nil _).symm, fun known => rfl⟩
  | cons x paths ih =>
    obtain ⟨path, text⟩ := x
    obtain ⟨next, hnext, h⟩ := except_bind_ok h
    obtain ⟨d, hd, hnext⟩ := except_bind_ok hnext
    obtain ⟨hero, rfl, hadd⟩ := addHero_of_read hnext
    obtain ⟨more, rfl, hmore⟩ := ih h
    refine ⟨(f.call path, hero) :: more, List.append_assoc .., fun known => ?_⟩
    have hfirst : (do addHero (f.call path) known (← readFile path text)) =
        enterHero known (f.call path, hero) := by
      rw [hd]
      exact hadd known
    rw [List.foldlM_cons, List.foldlM_cons]
    exact (congrArg (· >>= _) hfirst).trans (bind_congr hmore)

theorem loadHeroes_eq (h : readHeroes f = .ok hs) : loadHeroes f = hs.foldlM enterHero .empty := by
  obtain ⟨more, rfl, hmore⟩ := addHeroes_of_read h
  exact hmore .empty

theorem names_append_cons {known : Ledger Hero} {x : String × Hero} (h : x.2.id ∉ known.names)
    (ids : List String) :
    (known.put x.2.id x.2).names ++ ids = known.names ++ x.2.id :: ids := by
  rw [Ledger.names_put, if_neg h, List.append_assoc, List.singleton_append]

theorem enterHeroes_ok (known : Ledger Hero) (h : (known.names ++ hs.map (·.2.id)).Nodup) :
    ∃ heroes, hs.foldlM enterHero known = .ok heroes ∧
      heroes.values = known.values ++ hs.map (·.2) := by
  induction hs generalizing known with
  | nil => exact ⟨known, rfl, by simp⟩
  | cons x hs ih =>
    have hnew : x.2.id ∉ known.names := by
      intro hm
      exact (List.nodup_append.mp h).2.2 _ hm _ List.mem_cons_self rfl
    rw [List.map_cons, ← names_append_cons hnew] at h
    obtain ⟨heroes, hok, hvalues⟩ := ih _ h
    refine ⟨heroes, ?_, ?_⟩
    · rw [List.foldlM_cons, enterHero_of_new hnew]
      exact hok
    · rw [hvalues, Ledger.values, Ledger.entries_put_of_not_mem hnew]
      simp [Ledger.values]

theorem enterHeroes_error (known : Ledger Hero)
    (h : ¬(known.names ++ hs.map (·.2.id)).Nodup) :
    ∃ before file hero later, hs = before ++ (file, hero) :: later ∧
      hero.id ∈ known.names ++ before.map (·.2.id) ∧
      hs.foldlM enterHero known = .error (.repeatedHero hero.id file) := by
  induction hs generalizing known with
  | nil => exact absurd (by simpa [Ledger.names] using known.distinct) h
  | cons x hs ih =>
    by_cases hm : x.2.id ∈ known.names
    · refine ⟨[], x.1, x.2, hs, rfl, by simpa using hm, ?_⟩
      rw [List.foldlM_cons, enterHero_of_known hm]
      rfl
    · rw [List.map_cons, ← names_append_cons hm] at h
      obtain ⟨before, file, hero, later, rfl, hmem, herr⟩ := ih _ h
      rw [names_append_cons hm] at hmem
      refine ⟨x :: before, file, hero, later, rfl, hmem, ?_⟩
      rw [List.foldlM_cons, enterHero_of_new hm]
      exact herr

/-- What validation lets through can be loaded but for heroes with the same id, on which it is
silent. -/
theorem validated_loads (h : (Command.runValidation f).code = 0) :
    ∃ statuses hs, loadStatuses (f.enter "statuses") = .ok statuses ∧
      readHeroes (f.enter "heroes") = .ok hs ∧
      (∀ reg : Registry Number, ∃ ss, (reg.loadPack (f.enter "statuses")).1 = .ok ss ∧
        ss.map (·.id) = statuses.values.map (·.id)) ∧
      ((hs.map (·.2.id)).Nodup → ∃ heroes, load f = .ok ⟨statuses, heroes⟩ ∧
        heroes.values = hs.map (·.2)) ∧
      (¬(hs.map (·.2.id)).Nodup → ∃ before file hero later,
        hs = before ++ (file, hero) :: later ∧ hero.id ∈ before.map (·.2.id) ∧
        load f = .error (.repeatedHero hero.id file)) := by
  obtain ⟨⟨statuses, hstatuses, hdef⟩, hs, hheroes⟩ := reads_of_validation h
  have hload : load f = (hs.foldlM enterHero .empty).map (Content.mk statuses) := by
    rw [load, hstatuses, ← loadHeroes_eq hheroes]
    rfl
  refine ⟨statuses, hs, hstatuses, hheroes, fun reg => ?_, fun hn => ?_, fun hn => ?_⟩
  · rw [Registry.loadPack, hstatuses]
    exact Registry.enterAll_ok hdef reg
  · obtain ⟨heroes, hok, hvalues⟩ := enterHeroes_ok .empty hn
    exact ⟨heroes, by rw [hload, hok]; rfl, hvalues⟩
  · obtain ⟨before, file, hero, later, heq, hmem, herr⟩ := enterHeroes_error .empty hn
    exact ⟨before, file, hero, later, heq, hmem, by rw [hload, herr]; rfl⟩

def monk : String := "\x7b\"id\": \"monk\", \"name\": \"Monk\"\x7d"

def haste : String := "\x7b\"id\": \"haste\", \"name\": \"Haste\", \"maxStacks\": 2\x7d"

def twins : Folder where
  label := "content"
  files := .ofList
    [("statuses/haste.json", haste), ("heroes/a.json", monk), ("heroes/b.json", monk)]

-- Lower case is looked up in long tables, so this is evaluated once.
theorem suffixOf_json {path : String} (h : Path.suffix ((Path.parts path).getLastD "") = ".json") :
    Path.suffixOf path = ".json" := by
  have hlower : Text.lower ".json" = ".json" := by decide +kernel
  rw [Path.suffixOf, h, hlower]

theorem readFile_json {path : String} (h : Path.suffixOf path = ".json") (text : String) :
    readFile path text = (Json.read text).mapError .json := by
  rw [readFile, h]
  rfl

theorem readHeroes_json (h : ∀ x ∈ f.list Folder.contentSuffixes, Path.suffixOf x.1 = ".json") :
    readHeroes f = (f.list Folder.contentSuffixes).foldlM (fun hs (path, text) => do
      readHero (f.call path) hs (← (Json.read text).mapError .json)) [] := by
  unfold readHeroes
  generalize f.list Folder.contentSuffixes = paths at h
  generalize ([] : List (String × Hero)) = first
  induction paths generalizing first with
  | nil => rw [List.foldlM_nil, List.foldlM_nil]
  | cons x paths ih =>
    obtain ⟨hx, h⟩ := List.forall_mem_cons.mp h
    simp only [List.foldlM_cons, readFile_json hx, ih h]

theorem codes_of {s : String} {ns : List Nat} (h : Text.codesOf s.toList = ns)
    (h' : s.toList.map Char.toNat = ns) : Text.codes s = ns :=
  (Text.codes_cases s).elim (·.trans h) (·.trans h')

theorem suffixOf_a : Path.suffixOf "a.json" = ".json" := suffixOf_json (by decide +kernel)

theorem suffixOf_b : Path.suffixOf "b.json" = ".json" := suffixOf_json (by decide +kernel)

theorem suffixOf_haste : Path.suffixOf "haste.json" = ".json" := suffixOf_json (by decide +kernel)

theorem list_heroes : (twins.enter "heroes").list Folder.contentSuffixes =
    [("a.json", monk), ("b.json", monk)] := by
  have hfiles : (twins.enter "heroes").files.entries = [("a.json", monk), ("b.json", monk)] := by
    decide +kernel
  have ha : Path.parts "a.json" = ["a.json"] := by decide +kernel
  have hb : Path.parts "b.json" = ["b.json"] := by decide +kernel
  have hca : Text.codes "a.json" = [97, 46, 106, 115, 111, 110] :=
    codes_of (by decide +kernel) (by decide +kernel)
  have hcb : Text.codes "b.json" = [98, 46, 106, 115, 111, 110] :=
    codes_of (by decide +kernel) (by decide +kernel)
  simp only [Folder.list, hfiles, List.filter_cons, List.filter_nil, suffixOf_a, suffixOf_b,
    Folder.contentSuffixes, List.contains_cons, beq_self_eq_true, Bool.true_or, if_true]
  apply List.mergeSort_of_pairwise
  refine List.pairwise_pair.mpr ?_
  rw [ha, hb, List.map_cons, List.map_cons, hca, hcb]
  decide +kernel

theorem list_statuses : (twins.enter "statuses").list Folder.contentSuffixes =
    [("haste.json", haste)] := by
  have hfiles : (twins.enter "statuses").files.entries = [("haste.json", haste)] := by
    decide +kernel
  simp only [Folder.list, hfiles, List.filter_cons, List.filter_nil, suffixOf_haste,
    Folder.contentSuffixes, List.contains_cons, beq_self_eq_true, Bool.true_or, if_true]
  exact List.mergeSort_of_pairwise (List.pairwise_singleton _ _)

theorem twins_checked : ∃ v : Check, v.complaints = [] ∧ v.granted.entries = [] ∧
    Check.checkFolder twins {} = Check.checkGrants v := by
  have hrun : ((ended? (Check.checkFiles twins {})).any fun r =>
      r.2.complaints.isEmpty && r.2.granted.entries.isEmpty) = true := by
    simp only [Check.checkFiles, list_statuses, list_heroes, List.forIn_cons, List.forIn_nil,
      documents, readFile_json suffixOf_haste, readFile_json suffixOf_a, readFile_json suffixOf_b]
    decide +kernel
  obtain ⟨_, v, hv, hok⟩ := ok_of_ended hrun
  simp only [Bool.and_eq_true, List.isEmpty_iff] at hok
  exact ⟨v, hok.1, hok.2, by rw [Check.checkFolder_eq, bind_of_ok hv]⟩

theorem twins_valid : (Command.runValidation twins).code = 0 := by
  obtain ⟨v, hc, hg, hv⟩ := twins_checked
  have hu : v.unknown = [] := by simp [Check.unknown, hg]
  have hgrants : Check.checkGrants v = .ok ⟨⟩ v := by
    rw [Check.checkGrants, get_bind, hu]
    rfl
  rw [Command.runValidation, check, hv, hgrants]
  simp [hc]

theorem twins_heroes : ∃ hs, readHeroes (twins.enter "heroes") = .ok hs ∧
    hs.map (fun x => (x.1, x.2.id)) =
      [("content/heroes/a.json", "monk"), ("content/heroes/b.json", "monk")] := by
  have hread : (match readHeroes (twins.enter "heroes") with
      | .ok hs => hs.map (fun x => (x.1, x.2.id)) ==
        [("content/heroes/a.json", "monk"), ("content/heroes/b.json", "monk")]
      | .error _ => false) = true := by
    have hjson : ∀ x ∈ (twins.enter "heroes").list Folder.contentSuffixes,
        Path.suffixOf x.1 = ".json" := by
      rw [list_heroes]
      simp [suffixOf_a, suffixOf_b]
    rw [readHeroes_json hjson, list_heroes]
    decide +kernel
  generalize readHeroes (twins.enter "heroes") = read at hread
  cases read with
  | error fault => cases hread
  | ok hs => exact ⟨hs, rfl, eq_of_beq hread⟩

theorem ids_of_files {xs : List (String × String)} (h : hs.map (fun x => (x.1, x.2.id)) = xs) :
    hs.map (·.2.id) = xs.map Prod.snd := by
  rw [← h, List.map_map]
  rfl

theorem validated_loads_twins : (Command.runValidation twins).code = 0 ∧
    (∃ statuses ss, loadStatuses (twins.enter "statuses") = .ok statuses ∧
      (Registry.empty.loadPack (twins.enter "statuses")).1 = .ok ss ∧
      ss.map (·.id) = statuses.values.map (·.id)) ∧
    load twins = .error (.repeatedHero "monk" "content/heroes/b.json") := by
  obtain ⟨statuses, hs, hl, hr, hpack, -, hrepeated⟩ := validated_loads twins_valid
  obtain ⟨hs', hr', hfiles⟩ := twins_heroes
  obtain rfl := Except.ok.inj (hr'.symm.trans hr)
  have hn : ¬(hs'.map (·.2.id)).Nodup := by
    rw [ids_of_files hfiles]
    decide
  obtain ⟨before, file, hero, later, rfl, hmem, hload⟩ := hrepeated hn
  obtain ⟨ss, hss, hids⟩ := hpack .empty
  refine ⟨twins_valid, ⟨statuses, ss, hl, hss, hids⟩, ?_⟩
  rw [hload]
  match before with
  | [] => simp at hmem
  | [x] =>
    simp only [List.cons_append, List.nil_append, List.map_cons, List.cons.injEq,
      Prod.mk.injEq] at hfiles
    rw [hfiles.2.1.1, hfiles.2.1.2]
  | x :: y :: before => simp at hfiles

/-- A folder that validation lets through, and that cannot be loaded. -/
theorem not_loaded : ¬∀ f : Folder, (Command.runValidation f).code = 0 →
    (∃ ss, (Registry.empty.loadPack (f.enter "statuses")).1 = .ok ss) ∧
    ∃ content, load f = .ok content := by
  intro h
  obtain ⟨-, content, hload⟩ := h twins twins_valid
  obtain ⟨hs, hr, hfiles⟩ := twins_heroes
  have hn : ¬((Ledger.empty : Ledger Hero).names ++ hs.map (·.2.id)).Nodup := by
    rw [ids_of_files hfiles]
    decide
  obtain ⟨-, file, hero, -, -, -, herr⟩ := enterHeroes_error .empty hn
  obtain ⟨statuses, -, hheroes⟩ := except_bind_ok hload
  obtain ⟨heroes, hheroes, -⟩ := except_bind_ok hheroes
  rw [loadHeroes_eq hr, herr] at hheroes
  cases hheroes

end Duel.Content
