import Duel.Content.Bundled
import Duel.Proofs.Content.Loading

namespace Duel

namespace Ledger

variable {α : Type}

theorem putEntry_of_mem {name : String} {value : α} {es : List (String × α)}
    (hd : (es.map Prod.fst).Nodup) (h : (name, value) ∈ es) : putEntry name value es = es := by
  induction es with
  | nil => cases h
  | cons e es ih =>
    obtain ⟨hn, hd⟩ := List.nodup_cons.mp hd
    obtain rfl | h := List.mem_cons.mp h
    · exact if_pos rfl
    · have hne : e.1 ≠ name := fun he => hn (he ▸ List.mem_map_of_mem (f := Prod.fst) h)
      rw [putEntry, if_neg hne, ih hd h]

theorem put_eq_self_iff {l : Ledger α} {name : String} {value : α} :
    l.put name value = l ↔ l.get? name = some value := by
  constructor
  · intro h
    rw [← h, get?_put_self]
  · intro h
    obtain ⟨es, hd⟩ := l
    simp only [put, putEntry_of_mem hd (mem_of_get?_eq_some h)]

end Ledger

namespace Registry

variable {reg : Registry Number} {ss : List (Status Number)} {s : Status Number} {id : String}

theorem define_eq_self_iff : reg.define s = reg ↔ reg.get? s.id = some s := by
  refine Iff.trans ?_ Ledger.put_eq_self_iff
  rw [← Tables.statuses_define]
  constructor
  · intro h
    exact congrArg (·.statuses) h
  · intro h
    obtain ⟨t, ht⟩ := reg
    have hsame := (ht.define s).eq_of_statuses ht h
    simp only [define, hsame]

theorem get?_defineAll_of_not_mem (h : id ∉ ss.map (·.id)) (reg : Registry Number) :
    (reg.defineAll ss).get? id = reg.get? id := by
  induction ss generalizing reg with
  | nil => rfl
  | cons s ss ih =>
    rw [List.map_cons, List.mem_cons, not_or] at h
    exact (ih h.2 (reg.define s)).trans (Tables.get?_define_of_ne h.1 _)

theorem get?_defineAll (hn : (ss.map (·.id)).Nodup) (hs : s ∈ ss) (reg : Registry Number) :
    (reg.defineAll ss).get? s.id = some s := by
  induction ss generalizing reg with
  | nil => cases hs
  | cons r ss ih =>
    obtain ⟨hr, hn⟩ := List.nodup_cons.mp hn
    obtain rfl | hs := List.mem_cons.mp hs
    · exact (get?_defineAll_of_not_mem hr (reg.define s)).trans (Tables.get?_define_self _ _)
    · exact ih hn hs (reg.define r)

theorem defineAll_eq_self_iff (hn : (ss.map (·.id)).Nodup) :
    reg.defineAll ss = reg ↔ ∀ s ∈ ss, reg.get? s.id = some s := by
  constructor
  · intro h s hs
    rw [← h]
    exact get?_defineAll hn hs reg
  · clear hn
    intro h
    induction ss with
    | nil => rfl
    | cons s ss ih =>
      obtain ⟨hs, h⟩ := List.forall_mem_cons.mp h
      change (reg.define s).defineAll ss = reg
      rw [define_eq_self_iff.mpr hs]
      exact ih h

theorem enterAll_append {es : List Status.Entry} (h : ∀ e ∈ es, ∃ s, e.Defines s) :
    ∃ ss, ss.map (·.id) = es.map (·.id) ∧ ∀ (reg : Registry Number) rest,
      reg.enterAll (es ++ rest) =
        (((reg.defineAll ss).enterAll rest).1.map (ss ++ ·),
          ((reg.defineAll ss).enterAll rest).2) := by
  induction es with
  | nil =>
    refine ⟨[], rfl, fun reg rest => Prod.ext ?_ rfl⟩
    change (reg.enterAll rest).1 = (reg.enterAll rest).1.map id
    cases (reg.enterAll rest).1 <;> rfl
  | cons e es ih =>
    obtain ⟨⟨s, hid, hs⟩, h⟩ := List.forall_mem_cons.mp h
    obtain ⟨ss, hids, hss⟩ := ih h
    refine ⟨s :: ss, by rw [List.map_cons, List.map_cons, hid, hids], fun reg rest => ?_⟩
    rw [List.cons_append, enterAll, hs reg]
    change (((reg.define s).enterAll (es ++ rest)).1.map _, _) = _
    rw [hss (reg.define s) rest]
    change (((((reg.define s).defineAll ss).enterAll rest).1.map _).map _, _) =
      ((((reg.define s).defineAll ss).enterAll rest).1.map _, _)
    cases (((reg.define s).defineAll ss).enterAll rest).1 <;> rfl

end Registry

namespace Content

variable {f : Folder} {known later : Ledger Status.Entry}

/-- The entries of a pack obey their rules, and each has the name of its id. -/
structure Proper (known : Ledger Status.Entry) : Prop where
  rules : ∀ e ∈ known.values, e.rules = []
  named : ∀ x ∈ known.entries, x.2.id = x.1

theorem foldlM_proper {α : Type} {g : Ledger Status.Entry → α → Except Fault (Ledger Status.Entry)}
    (hg : ∀ known a later, Proper known → g known a = .ok later → Proper later) {as : List α}
    (h : Proper known) (ha : as.foldlM g known = .ok later) : Proper later := by
  induction as generalizing known with
  | nil =>
    cases ha
    exact h
  | cons a as ih =>
    rw [List.foldlM_cons] at ha
    obtain ⟨next, hn, ha⟩ := except_bind_ok ha
    exact ih (hg known a next h hn) ha

theorem addStatus_proper {file : String} {d : Document} (h : Proper known)
    (ha : addStatus file known d = .ok later) : Proper later := by
  obtain ⟨e, he, ha⟩ := except_bind_ok ha
  cases hk : known.has e.id with
  | true =>
    rw [hk] at ha
    cases ha
  | false =>
    rw [hk] at ha
    cases ha
    refine ⟨fun x hx => ?_, fun x hx => ?_⟩
    · obtain rfl | hx := Ledger.mem_values_put hx
      · exact Status.Entry.rules_of_read (mapError_ok he)
      · exact h.rules x hx
    · obtain rfl | hx := Ledger.mem_put hx
      · rfl
      · exact h.named x hx

theorem loadStatuses_proper (h : loadStatuses f = .ok known) : Proper known := by
  refine foldlM_proper (fun known x later hk hx => ?_)
    ⟨by simp [Ledger.values, Ledger.empty], by simp [Ledger.empty]⟩ h
  obtain ⟨ds, -, hx⟩ := except_bind_ok hx
  exact foldlM_proper (fun _ _ _ hk => addStatus_proper hk) hk hx

theorem Proper.ids (h : Proper known) : known.values.map (·.id) = known.names := by
  rw [Ledger.values, Ledger.names, List.map_map]
  exact List.map_congr_left h.named

theorem Proper.distinct (h : Proper known) : (known.values.map (·.id)).Nodup :=
  h.ids ▸ known.distinct

theorem loadPack_of_readable (h : loadStatuses f = .ok known)
    (hf : ∀ e ∈ known.values, e.formulas = .ok ()) (reg : Registry Number) :
    ∃ ss, reg.loadPack f = (.ok ss, reg.defineAll ss) ∧
      ss.map (·.id) = known.values.map (·.id) ∧
      ∀ s ∈ ss, (reg.defineAll ss).get? s.id = some s := by
  have hp := loadStatuses_proper h
  obtain ⟨ss, hss, hall⟩ := Registry.enterAll_append fun e he =>
    Status.Entry.defines (hp.rules e he) (hf e he)
  have hall := hall reg []
  rw [List.append_nil] at hall
  refine ⟨ss, ?_, hss, fun s hs => Registry.get?_defineAll (hss ▸ hp.distinct) hs reg⟩
  rw [Registry.loadPack, h]
  change reg.enterAll known.values = _
  rw [hall]
  simp [Registry.enterAll, Except.map]

theorem loadPack_of_unreadable (h : loadStatuses f = .ok known) {before later : List Status.Entry}
    {e : Status.Entry} {cause : Formula.Failure} (hk : known.values = before ++ e :: later)
    (hf : ∀ x ∈ before, x.formulas = .ok ()) (he : e.formulas = .error cause)
    (reg : Registry Number) :
    ∃ ss, reg.loadPack f = (.error (.formula cause), reg.defineAll ss) ∧
      ss.map (·.id) = before.map (·.id) ∧
      (reg.defineAll ss = reg ↔ ∀ s ∈ ss, reg.get? s.id = some s) := by
  have hp := loadStatuses_proper h
  have hids := hp.distinct
  rw [hk, List.map_append] at hids
  have hr (x : Status.Entry) (hx : x ∈ before) : x.rules = [] :=
    hp.rules x (hk ▸ List.mem_append_left _ hx)
  obtain ⟨ss, hss, hall⟩ := Registry.enterAll_append fun x hx =>
    Status.Entry.defines (hr x hx) (hf x hx)
  -- The entry that cannot be read is the first that is not defined, and the last that is tried.
  refine ⟨ss, ?_, hss, Registry.defineAll_eq_self_iff (hss ▸ (List.nodup_append.mp hids).1)⟩
  rw [Registry.loadPack, h]
  change reg.enterAll known.values = _
  rw [hk, hall reg, Registry.enterAll, Status.Entry.enterEntry_of_unreadable he]
  rfl

/-- A pack that cannot be read, or in which an id comes twice, leaves a registry as it is. Any
other is defined up to the first status with a formula that cannot be read, and so all of it if
there is none. What has been defined by then stays, so the registry is as before only if that was
known to it already. -/
theorem loadPack_keeps_iff (f : Folder) (reg : Registry Number) :
    (∀ fault, loadStatuses f = .error fault → reg.loadPack f = (.error fault, reg)) ∧
    ∀ pack, loadStatuses f = .ok pack →
      ((∀ e ∈ pack.values, e.formulas = .ok ()) → ∃ ss,
        reg.loadPack f = (.ok ss, reg.defineAll ss) ∧
        ss.map (·.id) = pack.values.map (·.id) ∧
        ∀ s ∈ ss, (reg.defineAll ss).get? s.id = some s) ∧
      ∀ before e later cause, pack.values = before ++ e :: later →
        (∀ x ∈ before, x.formulas = .ok ()) → e.formulas = .error cause → ∃ ss,
          reg.loadPack f = (.error (.formula cause), reg.defineAll ss) ∧
          ss.map (·.id) = before.map (·.id) ∧
          (reg.defineAll ss = reg ↔ ∀ s ∈ ss, reg.get? s.id = some s) :=
  ⟨fun _ h => by rw [Registry.loadPack, h],
    fun _ h => ⟨fun hf => loadPack_of_readable h hf reg,
      fun _ _ _ _ hp hf he => loadPack_of_unreadable h hp hf he reg⟩⟩

def crookedText : String :=
  "[" ++ haste ++ ", \x7b\"id\": \"bend\", \"name\": \"Bend\", \"activation\": \"passive\", " ++
    "\"modify\": \x7b\"baseDamage\": \"(2\"\x7d\x7d]"

def crooked : Folder where
  label := "pack"
  files := .ofList [("pack.json", crookedText)]

theorem suffixOf_pack : Path.suffixOf "pack.json" = ".json" := suffixOf_json (by decide +kernel)

theorem list_crooked : crooked.list Folder.contentSuffixes = [("pack.json", crookedText)] := by
  have hfiles : crooked.files.entries = [("pack.json", crookedText)] := rfl
  simp only [Folder.list, hfiles, List.filter_cons, List.filter_nil, suffixOf_pack,
    Folder.contentSuffixes, List.contains_cons, beq_self_eq_true, Bool.true_or, if_true]
  exact List.mergeSort_of_pairwise (List.pairwise_singleton _ _)

theorem hasHalf_eq : Text.hasHalf = fun s =>
    s.toList.any Text.isReserved && (Text.codes s).any Text.isHalf := by
  funext s
  simp only [Text.hasHalf, String.any, String.contains_bool_eq]

theorem crooked_read : ∃ pack, loadStatuses crooked = .ok pack ∧
    pack.values.map (fun e => (e.id, e.formulas.toBool)) = [("haste", true), ("bend", false)] := by
  have hread : (match loadStatuses crooked with
      | .ok pack => pack.values.map (fun e => (e.id, e.formulas.toBool)) ==
        [("haste", true), ("bend", false)]
      | .error _ => false) = true := by
    simp only [loadStatuses, list_crooked, documents, readFile_json suffixOf_pack, List.foldlM_cons,
      List.foldlM_nil]
    -- What the kernel cannot compute with is out of sight behind these names.
    delta addStatus Status.Entry.read Status.Entry.ofDocument Status.Entry.form Field.choice
      Field.spelling
    simp only [hasHalf_eq]
    decide +kernel
  generalize loadStatuses crooked = read at hread
  cases read with
  | error fault => cases hread
  | ok pack => exact ⟨pack, rfl, eq_of_beq hread⟩

theorem crooked_entries : ∃ pack hasty bent cause, loadStatuses crooked = .ok pack ∧
    pack.values = [hasty, bent] ∧ hasty.id = "haste" ∧ hasty.formulas = .ok () ∧
    bent.formulas = .error cause := by
  obtain ⟨pack, h, hp⟩ := crooked_read
  match hv : pack.values with
  | [] => simp [hv] at hp
  | [hasty] => simp [hv] at hp
  | hasty :: bent :: x :: rest => simp [hv] at hp
  | [hasty, bent] =>
    simp only [hv, List.map_cons, List.map_nil, List.cons.injEq, Prod.mk.injEq, and_true] at hp
    obtain ⟨⟨hid, hok⟩, -, hbad⟩ := hp
    cases hb : bent.formulas with
    | ok => simp [hb, Except.toBool] at hbad
    | error cause =>
      cases hh : hasty.formulas with
      | ok => exact ⟨pack, hasty, bent, cause, h, hv, hid, hh, hb⟩
      | error => simp [hh, Except.toBool] at hok

theorem loadPack_keeps_iff_crooked : ∃ s cause, s.id = "haste" ∧
    Registry.empty.loadPack crooked = (.error (.formula cause), Registry.empty.define s) ∧
    Registry.empty.define s ≠ Registry.empty := by
  obtain ⟨pack, hasty, bent, cause, h, hp, hid, hok, hbad⟩ := crooked_entries
  obtain ⟨ss, hload, hids, hkeeps⟩ := ((loadPack_keeps_iff crooked .empty).2 pack h).2 [hasty] bent
    [] cause hp (by simpa using hok) hbad
  match ss with
  | [] => simp at hids
  | _ :: _ :: _ => simp at hids
  | [s] =>
    refine ⟨s, cause, ?_, hload, fun hsame => ?_⟩
    · rw [← hid]
      exact (List.cons.inj hids).1
    · cases hkeeps.mp hsame s List.mem_cons_self

/-- A pack that is refused, and of which a status is defined. -/
theorem not_withdrawn : ¬∀ (f : Folder) (reg : Registry Number) fault,
    (reg.loadPack f).1 = .error fault → (reg.loadPack f).2 = reg := by
  intro hall
  obtain ⟨pack, hasty, bent, cause, h, hp, -, hok, hbad⟩ := crooked_entries
  have hk : pack.values = [hasty] ++ [bent] := hp
  obtain ⟨ss, hload, hids, hkeeps⟩ := loadPack_of_unreadable h hk (by simpa using hok) hbad .empty
  have hsame := hall crooked .empty (.formula cause) (by rw [hload])
  rw [hload] at hsame
  match ss with
  | [] => simp at hids
  | s :: _ => cases hkeeps.mp hsame s List.mem_cons_self

end Content

end Duel
