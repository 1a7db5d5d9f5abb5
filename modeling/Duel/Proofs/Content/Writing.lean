import Duel.Content.Folder
import Duel.Proofs.Ledger
import Duel.Proofs.Text
import Duel.Proofs.Work

namespace Duel.Content

namespace Path

structure IsPart (s : String) : Prop where
  ne_empty : s ≠ ""
  ne_here : s ≠ "."
  whole : '/' ∉ s.toList

theorem mem_splitOn {a c : Char} {l cs : List Char} (h : l ∈ cs.splitOn a) (hc : c ∈ l) :
    c ≠ a ∧ c ∈ cs := by
  induction cs generalizing l with
  | nil =>
    rw [List.splitOn_nil, List.mem_singleton] at h
    subst h
    cases hc
  | cons b cs ih =>
    rw [List.splitOn_cons_eq_if_modifyHead] at h
    split at h
    · obtain rfl | h := List.mem_cons.mp h
      · cases hc
      · exact ⟨(ih h hc).1, List.mem_cons_of_mem _ (ih h hc).2⟩
    next hb =>
      obtain ⟨k, ks, hk⟩ := List.exists_cons_of_ne_nil (List.splitOn_ne_nil a cs)
      rw [hk, List.modifyHead_cons] at h
      obtain rfl | h := List.mem_cons.mp h
      · obtain rfl | hc := List.mem_cons.mp hc
        · exact ⟨fun he => hb (beq_iff_eq.mpr he), List.mem_cons_self⟩
        · have hin := ih (hk ▸ List.mem_cons_self) hc
          exact ⟨hin.1, List.mem_cons_of_mem _ hin.2⟩
      · have hin := ih (hk ▸ List.mem_cons_of_mem _ h) hc
        exact ⟨hin.1, List.mem_cons_of_mem _ hin.2⟩

theorem mem_of_mem_parts {path s : String} (h : s ∈ parts path) {c : Char} (hc : c ∈ s.toList) :
    c ≠ '/' ∧ c ∈ path.toList := by
  obtain ⟨h, -⟩ := List.mem_filter.mp h
  obtain ⟨l, hl, rfl⟩ := List.mem_map.mp h
  rw [String.toList_ofList] at hc
  exact mem_splitOn hl hc

theorem isPart_of_mem {path s : String} (h : s ∈ parts path) : IsPart s where
  ne_empty := by simpa using (Bool.and_eq_true_iff.mp (List.mem_filter.mp h).2).1
  ne_here := by simpa using (Bool.and_eq_true_iff.mp (List.mem_filter.mp h).2).2
  whole hc := (mem_of_mem_parts h hc).1 rfl

theorem parts_ofParts {ps : List String} (h : ∀ s ∈ ps, IsPart s) : parts (ofParts ps) = ps := by
  have hfilter : ps.filter (fun s => s != "" && s != ".") = ps := by
    refine List.filter_eq_self.mpr fun s hs => ?_
    simp [(h s hs).ne_empty, (h s hs).ne_here]
  by_cases hne : ps = []
  · rw [hne]
    rfl
  · have hstroke : "/".toList = ['/'] := rfl
    have hlist : (String.ofList ∘ String.toList) = id := funext fun s => String.ofList_toList
    unfold parts ofParts
    rw [String.toList_intercalate, hstroke, List.splitOn_intercalate, List.map_map, hlist,
      List.map_id, hfilter]
    · intro l hl
      obtain ⟨s, hs, rfl⟩ := List.mem_map.mp hl
      exact (h s hs).whole
    · simpa using hne

theorem ofParts_inj {ps qs : List String} (hp : ∀ s ∈ ps, IsPart s) (hq : ∀ s ∈ qs, IsPart s)
    (h : ofParts ps = ofParts qs) : ps = qs := by
  rw [← parts_ofParts hp, h, parts_ofParts hq]

/-- A path is made of characters that have no halves. -/
def Plain (path : String) : Prop := path.toList.any Text.isReserved = false

instance (path : String) : Decidable (Plain path) := inferInstanceAs (Decidable (_ = _))

theorem Plain.found {path : String} (h : Plain path) : Path.found path = path := by
  rw [Path.found, Text.hasHalf_of_plain h, if_neg Bool.false_ne_true]

theorem bytes_eq (path : String) : bytes path = (Text.codesOf path.toList).flatMap fun n =>
    if Text.isHalf n then [UInt8.ofNat n] else (Char.ofNat n).toString.toUTF8.toList := by
  rw [bytes, Text.codes_eq]

theorem Plain.ofParts {path : String} (h : Plain path) {ps : List String}
    (hps : ∀ s ∈ ps, s ∈ parts path) : Plain (ofParts ps) := by
  have hpart : ∀ s ∈ ps, ∀ c ∈ s.toList, ¬Text.isReserved c = true := fun s hs c hc =>
    List.any_eq_false.mp h c (mem_of_mem_parts (hps s hs) hc).2
  refine List.any_eq_false.mpr fun c hc => ?_
  unfold Path.ofParts at hc
  clear h hps
  induction ps with
  | nil => cases hc
  | cons s ps ih =>
    obtain ⟨hs, hps⟩ := List.forall_mem_cons.mp hpart
    cases ps with
    | nil =>
      rw [String.intercalate_singleton] at hc
      exact hs c hc
    | cons r ps =>
      rw [String.intercalate_cons_cons, String.toList_append, String.toList_append] at hc
      obtain hc | hc := List.mem_append.mp hc
      · obtain hc | hc := List.mem_append.mp hc
        · exact hs c hc
        · rw [List.mem_singleton.mp hc]
          decide
      · exact ih hps hc

end Path

open Duel.Content.Path (IsPart parts ofParts)

namespace Folder

/-- Each file is kept by a path without parts that say nothing. -/
def Tidy (f : Folder) : Prop := ∀ name ∈ f.files.names, ofParts (parts name) = name

theorem inner?_eq_some {name path inner : String} : inner? name path = some inner ↔
    ∃ next rest, parts path = name :: next :: rest ∧ inner = ofParts (next :: rest) := by
  unfold inner?
  split
  next top next rest hparts =>
    rw [hparts]
    by_cases htop : top = name
    · subst htop
      simp only [beq_self_eq_true, if_true, Option.some.injEq, List.cons.injEq, true_and]
      constructor
      · rintro rfl
        exact ⟨next, rest, ⟨rfl, rfl⟩, rfl⟩
      · rintro ⟨_, _, ⟨rfl, rfl⟩, rfl⟩
        rfl
    · simp [htop]
  next hnone =>
    refine iff_of_false (fun h => by cases h) ?_
    rintro ⟨next, rest, hparts, -⟩
    exact hnone name next rest hparts

theorem inner?_eq_some_of_tidy {name path : String} (hpath : ofParts (parts path) = path)
    {ps : List String} (hps : ∀ s ∈ name :: ps, IsPart s) (hne : ps ≠ []) :
    inner? name path = some (ofParts ps) ↔ path = ofParts (name :: ps) := by
  rw [inner?_eq_some]
  constructor
  · rintro ⟨next, rest, hparts, hinner⟩
    have hmem : ∀ s ∈ next :: rest, IsPart s := fun s hs =>
      Path.isPart_of_mem (show s ∈ parts path from hparts ▸ List.mem_cons_of_mem _ hs)
    rw [← hpath, hparts, Path.ofParts_inj (List.forall_mem_cons.mp hps).2 hmem hinner]
  · rintro rfl
    obtain ⟨next, rest, rfl⟩ := List.exists_cons_of_ne_nil hne
    exact ⟨next, rest, Path.parts_ofParts hps, rfl⟩

theorem inner?_inj {name p q inner : String} (hp : ofParts (parts p) = p)
    (hq : ofParts (parts q) = q) (h : inner? name p = some inner)
    (h' : inner? name q = some inner) : p = q := by
  obtain ⟨next, rest, hparts, rfl⟩ := inner?_eq_some.mp h
  have hps : ∀ s ∈ name :: next :: rest, IsPart s := fun s hs =>
    Path.isPart_of_mem (show s ∈ parts p from hparts ▸ hs)
  have hne : next :: rest ≠ [] := List.cons_ne_nil _ _
  rw [(inner?_eq_some_of_tidy hp hps hne).mp h, (inner?_eq_some_of_tidy hq hps hne).mp h']

def innerFiles (f : Folder) (name : String) : List (String × String) :=
  f.files.entries.filterMap fun (path, text) => (inner? name path).map fun path => (path, text)

theorem mem_innerFiles {f : Folder} {name inner text : String} :
    (inner, text) ∈ f.innerFiles name ↔
      ∃ path, (path, text) ∈ f.files.entries ∧ inner? name path = some inner := by
  unfold innerFiles
  rw [List.mem_filterMap]
  constructor
  · rintro ⟨⟨path, text⟩, hmem, h⟩
    obtain ⟨_, hinner, he⟩ := Option.map_eq_some_iff.mp h
    cases he
    exact ⟨path, hmem, hinner⟩
  · rintro ⟨path, hmem, hinner⟩
    exact ⟨(path, text), hmem, Option.map_eq_some_iff.mpr ⟨inner, hinner, rfl⟩⟩

variable {f g : Folder} {name : String} {ps : List String}

theorem entries_enter (hf : f.Tidy) (name : String) :
    (f.enter name).files.entries = f.innerFiles name := by
  refine Ledger.entries_ofList (List.pairwise_map.mpr (List.pairwise_filterMap.mpr ?_))
  refine (List.pairwise_map.mp f.files.distinct).imp_of_mem ?_
  rintro ⟨p, _⟩ ⟨q, _⟩ hp hq hpq e he d hd hsame
  obtain ⟨_, hinner, rfl⟩ := Option.map_eq_some_iff.mp he
  obtain ⟨_, hinner', rfl⟩ := Option.map_eq_some_iff.mp hd
  obtain rfl := hsame
  exact hpq (inner?_inj (hf p (List.mem_map_of_mem hp)) (hf q (List.mem_map_of_mem hq)) hinner
    hinner')

theorem tidy_enter (hf : f.Tidy) (name : String) : (f.enter name).Tidy := by
  intro inner hinner
  obtain ⟨⟨_, text⟩, he, rfl⟩ := List.mem_map.mp hinner
  rw [entries_enter hf] at he
  obtain ⟨path, -, hpath⟩ := mem_innerFiles.mp he
  obtain ⟨next, rest, hparts, rfl⟩ := inner?_eq_some.mp hpath
  rw [Path.parts_ofParts fun s hs =>
    Path.isPart_of_mem (show s ∈ parts path from hparts ▸ List.mem_cons_of_mem _ hs)]

theorem get?_enter (hf : f.Tidy) (hps : ∀ s ∈ name :: ps, IsPart s) (hne : ps ≠ []) :
    (f.enter name).files.get? (ofParts ps) = f.files.get? (ofParts (name :: ps)) := by
  refine Option.ext fun text => ?_
  rw [← Ledger.mem_iff_get?, ← Ledger.mem_iff_get?, entries_enter hf, mem_innerFiles]
  constructor
  · rintro ⟨path, hmem, hinner⟩
    rw [← (inner?_eq_some_of_tidy (hf path (List.mem_map_of_mem hmem)) hps hne).mp hinner]
    exact hmem
  · intro hmem
    exact ⟨_, hmem, (inner?_eq_some_of_tidy (hf _ (List.mem_map_of_mem hmem)) hps hne).mpr rfl⟩

/-- There is a folder wherever a path to a file leads through. -/
theorem holds_of_has {qs : List String} (hps : ∀ s ∈ ps ++ qs, IsPart s) (hne : qs ≠ [])
    (h : f.files.has (ofParts (ps ++ qs)) = true) : f.holds ps = true := by
  obtain ⟨⟨_, text⟩, hmem, hname⟩ := List.any_eq_true.mp h
  obtain rfl := eq_of_beq hname
  refine Bool.or_eq_true_iff.mpr (.inr (List.any_eq_true.mpr ⟨_, hmem, ?_⟩))
  dsimp only
  rw [Path.parts_ofParts hps, List.dropLast_append_of_ne_nil hne, List.isPrefixOf_iff_prefix]
  exact List.prefix_append _ _

theorem walk_file {path text : String} (hf : f.Tidy) (hne : ps ≠ [])
    (hps : ∀ s ∈ ps, IsPart s ∧ s ≠ ".." ∧ Path.isLong s = false)
    (hfree : ∀ qs, qs ≠ [] → qs ≠ ps → qs <+: ps → f.files.get? (ofParts qs) = none)
    (hfile : f.files.get? (ofParts ps) = some text) (above : List Folder) :
    walk path above f ps = .ok (.file text) := by
  induction ps generalizing f above with
  | nil => exact absurd rfl hne
  | cons part rest ih =>
    obtain ⟨⟨hpart, hup, hshort⟩, hrest⟩ := List.forall_mem_cons.mp hps
    have hparts : ∀ s ∈ part :: rest, IsPart s := fun s hs => (hps s hs).1
    rw [walk.eq_def]
    dsimp only
    rw [if_neg (by simpa using hup), hshort, if_neg Bool.false_ne_true]
    -- The last part is the file; any other is a folder, in which the rest is followed.
    by_cases hlast : rest = []
    · subst hlast
      rw [ofParts, String.intercalate_singleton] at hfile
      rw [hfile]
      rfl
    · have hnone := hfree [part] (List.cons_ne_nil _ _) (by simpa using Ne.symm hlast)
        (List.prefix_append [part] rest)
      rw [ofParts, String.intercalate_singleton] at hnone
      have hhas : f.files.has (ofParts ([part] ++ rest)) = true := by
        rw [Ledger.has_eq, List.singleton_append, hfile]
        rfl
      rw [hnone, holds_of_has hparts hlast hhas]
      refine ih (tidy_enter hf part) hlast hrest (fun qs hqs hother hinit => ?_) ?_ _
      · rw [get?_enter hf ?_ hqs]
        · exact hfree _ (List.cons_ne_nil _ _) (by simpa using hother)
            ((List.prefix_cons_inj part).mpr hinit)
        · exact List.forall_mem_cons.mpr ⟨hpart, fun s hs => (hrest s (hinit.subset hs)).1⟩
      · rw [get?_enter hf hparts hlast]
        exact hfile

variable {path : String} {p : Progress} {part : String} {rest here : List String}

/-- What has been made differs in no file. -/
structure SameFiles (f g : Folder) : Prop where
  label : g.label = f.label
  files : g.files = f.files

theorem add_ok {q : Progress} (h : add p name f = .ok q g) :
    q.here = p.here ++ [name] ∧ SameFiles f g := by
  obtain ⟨_, _, hm, h⟩ := bind_ok h
  obtain rfl := modify_ok hm
  obtain ⟨rfl, rfl⟩ := pure_ok h
  exact ⟨rfl, rfl, rfl⟩

theorem makeFrom_cons (h : makeFrom path p (part :: rest) f = .ok here g) :
    part = ".." ∧ makeFrom path { p with here := p.here.dropLast, isNew := false } rest f =
      .ok here g ∨
    part ≠ ".." ∧ Path.isLong part = false ∧ ∃ (q : Progress) (m : Folder),
      q.here = p.here ++ [part] ∧ SameFiles f m ∧ makeFrom path q rest m = .ok here g ∧
      (p.isNew = false → f.files.has (ofParts (p.here ++ [part])) = false) ∧
      (p.isNew = false → q.isNew = true → f.holds (p.here ++ [part]) = false) := by
  rw [makeFrom] at h
  split at h
  next hup => exact .inl ⟨eq_of_beq hup, h⟩
  next hup =>
    refine .inr ⟨fun he => hup (beq_iff_eq.mpr he), ?_⟩
    split at h
    next => cases h
    next hlong =>
      refine ⟨Bool.eq_false_iff.mpr hlong, ?_⟩
      split at h
      next hnew =>
        obtain ⟨q, m, hadd, h⟩ := bind_ok h
        obtain ⟨hq, hm⟩ := add_ok hadd
        exact ⟨q, m, hq, hm, h, fun hold => absurd hnew (by simp [hold]),
          fun hold => absurd hnew (by simp [hold])⟩
      next hold =>
        obtain ⟨_, _, hget, h⟩ := bind_ok h
        obtain ⟨rfl, rfl⟩ := get_ok hget
        dsimp only at h
        split at h
        next => split at h <;> cases h
        next hfree =>
          have hfree := Bool.eq_false_iff.mpr hfree
          split at h
          next hholds =>
            exact ⟨_, _, rfl, ⟨rfl, rfl⟩, h, fun _ => hfree, fun _ hnew => absurd hnew hold⟩
          next hholds =>
            split at h
            next => cases h
            next =>
              obtain ⟨q, m, hadd, h⟩ := bind_ok h
              obtain ⟨hq, hm⟩ := add_ok hadd
              exact ⟨q, m, hq, hm, h, fun _ => hfree, fun _ _ => Bool.eq_false_iff.mpr hholds⟩

theorem SameFiles.trans {k : Folder} (h : SameFiles f g) (h' : SameFiles g k) : SameFiles f k :=
  ⟨h'.label.trans h.label, h'.files.trans h.files⟩

theorem makeFrom_keeps (h : makeFrom path p rest f = .ok here g)
    (hp : ∀ s ∈ p.here ++ rest, IsPart s) : (∀ s ∈ here, IsPart s) ∧ SameFiles f g := by
  induction rest generalizing p f with
  | nil =>
    obtain ⟨rfl, rfl⟩ := pure_ok h
    exact ⟨by simpa using hp, rfl, rfl⟩
  | cons part rest ih =>
    obtain ⟨hhere, hpart, hrest⟩ := by simpa [or_imp, forall_and] using hp
    obtain ⟨-, h⟩ | ⟨-, -, q, m, hq, hm, h, -⟩ := makeFrom_cons h
    · refine ih h fun s hs => ?_
      obtain hs | hs := List.mem_append.mp hs
      · exact hhere s (List.dropLast_subset _ hs)
      · exact hrest s hs
    · obtain ⟨hparts, hsame⟩ := ih h (by simpa [hq, or_imp, forall_and] using ⟨hhere, hpart, hrest⟩)
      exact ⟨hparts, hm.trans hsame⟩

theorem makeFrom_down (h : makeFrom path p rest f = .ok here g)
    (hp : ∀ s ∈ p.here ++ rest, IsPart s) (hdown : ".." ∉ rest)
    (hnew : p.isNew = true → ∀ qs, qs ≠ [] → (∀ s ∈ qs, IsPart s) →
      f.files.has (ofParts (p.here ++ qs)) = false) :
    here = p.here ++ rest ∧ (∀ s ∈ rest, Path.isLong s = false) ∧
      ∀ qs, qs ≠ [] → qs <+: rest → f.files.has (ofParts (p.here ++ qs)) = false := by
  induction rest generalizing p f with
  | nil =>
    obtain ⟨rfl, rfl⟩ := pure_ok h
    exact ⟨(List.append_nil _).symm, List.forall_mem_nil _, fun qs hne hqs =>
      absurd (List.prefix_nil.mp hqs) hne⟩
  | cons part rest ih =>
    obtain ⟨hhere, hpart, hrest⟩ := by simpa [or_imp, forall_and] using hp
    obtain ⟨rfl, -⟩ | ⟨-, hshort, q, m, hq, hm, h, hfree, hheld⟩ := makeFrom_cons h
    · exact absurd List.mem_cons_self hdown
    -- Below a folder that was just made there are no files; this goes on down the path.
    have hempty : q.isNew = true → ∀ qs, qs ≠ [] → (∀ s ∈ qs, IsPart s) →
        m.files.has (ofParts (q.here ++ qs)) = false := by
      intro hqnew qs hne hqs
      rw [hm.files, hq, List.append_assoc]
      cases hold : p.isNew with
      | true => exact hnew hold _ (List.cons_ne_nil _ _) (List.forall_mem_cons.mpr ⟨hpart, hqs⟩)
      | false =>
        refine Bool.eq_false_iff.mpr fun hhas => ?_
        rw [← List.append_assoc] at hhas
        have hholds := holds_of_has (by
          simpa [or_imp, forall_and] using ⟨hhere, hpart, hqs⟩) hne hhas
        rw [hheld hold hqnew] at hholds
        cases hholds
    obtain ⟨rfl, hlong, hclear⟩ := ih h (by
      simpa [hq, or_imp, forall_and] using ⟨hhere, hpart, hrest⟩)
      (fun hm => hdown (List.mem_cons_of_mem _ hm)) hempty
    refine ⟨by rw [hq, List.append_assoc]; rfl, List.forall_mem_cons.mpr ⟨hshort, hlong⟩,
      fun qs hne hqs => ?_⟩
    obtain ⟨s, qs, rfl⟩ := List.exists_cons_of_ne_nil hne
    obtain ⟨rfl, hinit⟩ := List.cons_prefix_cons.mp hqs
    by_cases hlast : qs = []
    · subst hlast
      cases hold : p.isNew with
      | true => exact hnew hold [s] hne (by simpa using hpart)
      | false => exact hfree hold
    · have hclear := hclear qs hlast hinit
      rwa [hm.files, hq, List.append_assoc] at hclear

theorem wrong?_of_plain {path : String} (h : Path.Plain path) (hend : '\x00' ∉ path.toList)
    (hshort : (Path.bytes path).length < Path.pathLimit) : wrong? path = none := by
  have hbytes : Path.hasBytes path = true := by
    rw [Path.hasBytes, Text.hasHalf_of_plain h]
    rfl
  have hcontains : path.contains '\x00' = false := by simpa using hend
  rw [wrong?, hbytes, hcontains, if_neg (Nat.not_le.mpr hshort)]
  rfl

theorem check_ok {u : Unit} : check path f = .ok u g ↔
    g = f ∧ wrong? (ofParts (f.label :: parts path)) = none := by
  unfold check
  rw [get_bind]
  cases wrong? (ofParts (f.label :: parts path)) with
  | some fault => exact iff_of_false (fun h => by cases h) fun h => by cases h.2
  | none => exact ⟨fun h => ⟨(pure_ok h).2.symm, rfl⟩, fun h => by rw [h.1]; rfl⟩

def lastName (path : String) : String := (parts (Path.found path)).getLastD ".."

theorem write_ok {text : String} (hin : path.startsWith "/" = false) :
    write path text f = .ok () g ↔ ∃ here m,
      make (ofParts (parts path).dropLast) f = .ok here m ∧ check path m = .ok () m ∧
      lastName path ≠ ".." ∧ Path.isLong (lastName path) = false ∧
      m.holds (here ++ [lastName path]) = false ∧ Text.hasHalf text = false ∧
      g = { m with
        files := m.files.put (ofParts (here ++ [lastName path])) (Text.unifyBreaks text) } := by
  unfold write
  rw [hin]
  rw [if_neg Bool.false_ne_true]
  constructor
  · intro h
    obtain ⟨here, m, hmake, hrest⟩ := bind_ok h
    obtain ⟨_, k, hcheck, hput⟩ := bind_ok hrest
    obtain ⟨rfl, -⟩ := check_ok.mp hcheck
    dsimp only at hput
    split at hput
    next => cases hput
    next hup =>
      split at hput
      next => cases hput
      next hlong =>
        rw [get_bind] at hput
        split at hput
        next => cases hput
        next hheld =>
          split at hput
          next => cases hput
          next hhalf =>
            exact ⟨here, k, hmake, hcheck, fun he => hup (beq_iff_eq.mpr he),
              Bool.eq_false_iff.mpr hlong, Bool.eq_false_iff.mpr hheld,
              Bool.eq_false_iff.mpr hhalf, modify_ok hput⟩
  · rintro ⟨here, m, hmake, hcheck, hup, hlong, hheld, hhalf, rfl⟩
    unfold lastName at hup hlong hheld
    rw [bind_of_ok hmake, bind_of_ok hcheck]
    dsimp only
    rw [if_neg (by simpa using hup), hlong, if_neg Bool.false_ne_true, get_bind, hheld,
      if_neg Bool.false_ne_true, hhalf, if_neg Bool.false_ne_true]
    rfl

theorem make_ok (h : make path f = .ok here g) :
    makeFrom path {} (parts (Path.found path)) f = .ok here g := by
  obtain ⟨_, m, hcheck, hmake⟩ := bind_ok h
  obtain ⟨rfl, -⟩ := check_ok.mp hcheck
  exact hmake

theorem isPart_lastName (path : String) : IsPart (lastName path) := by
  unfold lastName
  rw [List.getLastD_eq_getLast?]
  cases hlast : (parts (Path.found path)).getLast? with
  | none => exact ⟨by decide, by decide, by decide⟩
  | some s => exact Path.isPart_of_mem (List.mem_of_getLast? hlast)

theorem tidy_write {text : String} (hf : f.Tidy) (h : write path text f = .ok () g) : g.Tidy := by
  cases hin : path.startsWith "/" with
  | true =>
    rw [write, hin, if_pos rfl] at h
    obtain ⟨-, rfl⟩ := pure_ok h
    exact hf
  | false =>
    obtain ⟨here, m, hmake, -, -, -, -, -, rfl⟩ := (write_ok hin).mp h
    obtain ⟨hhere, hsame⟩ := makeFrom_keeps (make_ok hmake) fun s hs =>
      Path.isPart_of_mem (by simpa using hs)
    have htarget : ∀ s ∈ here ++ [lastName path], IsPart s := by
      simpa [or_imp, forall_and] using ⟨hhere, isPart_lastName path⟩
    intro name hname
    rw [Ledger.names_put, hsame.files] at hname
    split at hname
    · exact hf name hname
    · obtain hname | hname := List.mem_append.mp hname
      · exact hf name hname
      · rw [List.mem_singleton.mp hname, Path.parts_ofParts htarget]

theorem write_other {text other : String} (h : write path text f = .ok () g)
    (hother : Text.hasHalf other = false) : ∃ k, write path other f = .ok () k := by
  cases hin : path.startsWith "/" with
  | true =>
    rw [write, hin, if_pos rfl]
    exact ⟨f, rfl⟩
  | false =>
    obtain ⟨here, m, hmake, hcheck, hup, hlong, hheld, -⟩ := (write_ok hin).mp h
    exact ⟨_, (write_ok hin).mpr ⟨here, m, hmake, hcheck, hup, hlong, hheld, hother, rfl⟩⟩

end Folder

/-- A path that leads down to a file, by names without halves. -/
structure Path.Leads (path : String) : Prop where
  plain : Path.Plain path
  inside : path.startsWith "/" = false
  down : ".." ∉ parts path

namespace Folder

variable {f g : Folder} {path text : String}

theorem files_write (hpath : Path.Leads path) (h : write path text f = .ok () g) :
    parts path ≠ [] ∧ (∀ s ∈ parts path, Path.isLong s = false) ∧
      wrong? (ofParts (g.label :: parts path)) = none ∧
      g.files = f.files.put (ofParts (parts path)) (Text.unifyBreaks text) ∧
      ∀ ps, ps ≠ [] → ps <+: (parts path).dropLast → f.files.has (ofParts ps) = false := by
  obtain ⟨here, m, hmake, hcheck, hup, hlong, -, -, rfl⟩ := (write_ok hpath.inside).mp h
  have hbefore : ∀ s ∈ (parts path).dropLast, s ∈ parts path := fun _ hs =>
    List.dropLast_subset _ hs
  have hway : ∀ s ∈ (parts path).dropLast, IsPart s := fun s hs =>
    Path.isPart_of_mem (hbefore s hs)
  have hmake := make_ok hmake
  rw [(hpath.plain.ofParts hbefore).found, Path.parts_ofParts hway] at hmake
  have hsame := (makeFrom_keeps hmake hway).2
  obtain ⟨rfl, hshort, hfree⟩ := makeFrom_down hmake hway (fun hs => hpath.down (hbefore _ hs))
    fun hnew => by cases hnew
  unfold lastName at *
  rw [hpath.plain.found] at hup hlong ⊢
  have hne : parts path ≠ [] := fun hnil => hup (by rw [hnil]; rfl)
  have hname : (parts path).getLastD ".." = (parts path).getLast hne := by
    rw [List.getLastD_eq_getLast?, List.getLast?_eq_some_getLast hne, Option.getD_some]
  have htarget := List.dropLast_concat_getLast hne
  rw [hname] at hlong ⊢
  refine ⟨hne, fun s hs => ?_, (check_ok.mp hcheck).2, ?_, hfree⟩
  · rw [← htarget] at hs
    obtain hs | hs := List.mem_append.mp hs
    · exact hshort s hs
    · rw [List.mem_singleton.mp hs]
      exact hlong
  · change m.files.put (ofParts ((parts path).dropLast ++ _)) _ = _
    rw [htarget, hsame.files]

theorem textAt?_write (hf : f.Tidy) (hpath : Path.Leads path) (h : write path text f = .ok () g) :
    g.textAt? path = .ok (some (Text.unifyBreaks text)) := by
  obtain ⟨hne, hshort, hwrong, hfiles, hfree⟩ := files_write hpath h
  have hparts : ∀ s ∈ parts path, IsPart s := fun s hs => Path.isPart_of_mem hs
  have hwalk : walk path [] g (parts path) = .ok (.file (Text.unifyBreaks text)) := by
    refine walk_file (tidy_write hf h) hne (fun s hs => ?_) (fun qs hqs hother hinit => ?_) ?_ []
    · exact ⟨hparts s hs, fun hup => hpath.down (hup ▸ hs), hshort s hs⟩
    · rw [← List.dropLast_concat_getLast hne, List.prefix_concat_iff,
        List.dropLast_concat_getLast hne] at hinit
      have hclear := hfree qs hqs (hinit.resolve_left hother)
      have hname : ofParts qs ≠ ofParts (parts path) := fun he => hother (Path.ofParts_inj
        (fun s hs => hparts s (List.dropLast_subset _ ((hinit.resolve_left hother).subset hs)))
        hparts he)
      rw [Ledger.has_eq] at hclear
      rw [hfiles, Ledger.get?_put_of_ne hname]
      simpa using hclear
    · rw [hfiles, Ledger.get?_put_self]
  unfold textAt? find
  dsimp only
  rw [hwrong, hpath.inside, hpath.plain.found]
  dsimp only
  rw [if_neg Bool.false_ne_true, hwalk]

end Folder

end Duel.Content
