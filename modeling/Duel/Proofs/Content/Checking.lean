import Duel.Content.Check
import Duel.Proofs.Status.Entries

namespace Duel.Content

def readHero (file : String) (hs : List (String × Hero)) (d : Document) :
    Except Fault (List (String × Hero)) := do
  let h ← (Hero.read d).mapError .invalid
  return hs ++ [(file, h)]

/-- The heroes of a folder, each with its file, also where an id comes twice. -/
def readHeroes (f : Folder) : Except Fault (List (String × Hero)) :=
  (f.list Folder.contentSuffixes).foldlM (fun hs (path, text) => do
    readHero (f.call path) hs (← readFile path text)) []

namespace Check

variable {α β κ : Type} {R : Check → κ → Prop} {s t : Check} {f : Folder} {file : String}
  {d : Document}

theorem ofExcept_ok {x : Except Fault α} {a : α} (h : ofExcept x s = .ok a t) :
    x = .ok a ∧ s = t := by
  cases x with
  | error fault => cases h
  | ok b =>
    cases h
    exact ⟨rfl, rfl⟩

/-- Where a step of a check ends, with `a` as it has to, and nothing is wrong then, nothing was
wrong before it; and what `R` relates to the check can be loaded on as `g` says. -/
def Covers (R : Check → κ → Prop) (a : α) (x : Step α) (g : κ → Except Fault κ) : Prop :=
  ∀ s b t, x s = .ok b t → b = a ∧ (t.complaints = [] →
    s.complaints = [] ∧ ∀ k, R s k → ∃ k', g k = .ok k' ∧ R t k')

namespace Covers

theorem yield {x : Step PUnit} {g : κ → Except Fault κ} (h : Covers R ⟨⟩ x g) :
    Covers R (.yield ⟨⟩) (x >>= fun _ => pure (ForInStep.yield PUnit.unit)) g := by
  intro s b t hx
  obtain ⟨_, u, hu, hb⟩ := bind_ok hx
  obtain ⟨rfl, rfl⟩ := pure_ok hb
  exact ⟨rfl, (h s _ _ hu).2⟩

theorem forIn {y : β → Step (ForInStep PUnit)} {g : κ → β → Except Fault κ}
    (h : ∀ b, Covers R (.yield ⟨⟩) (y b) (g · b)) (bs : List β) :
    Covers R ⟨⟩ (ForIn.forIn bs ⟨⟩ fun b _ => y b) (bs.foldlM g) := by
  induction bs with
  | nil =>
    intro s b t hx
    obtain ⟨-, rfl⟩ := pure_ok hx
    exact ⟨rfl, fun ht => ⟨ht, fun k hk => ⟨k, rfl, hk⟩⟩⟩
  | cons b bs ih =>
    intro s _ t hx
    refine ⟨rfl, fun ht => ?_⟩
    rw [List.forIn_cons] at hx
    obtain ⟨next, u, hb, hx⟩ := bind_ok hx
    obtain ⟨rfl, hfirst⟩ := h b s next u hb
    obtain ⟨hu, hrest⟩ := (ih u _ t hx).2 ht
    obtain ⟨hs, hfirst⟩ := hfirst hu
    refine ⟨hs, fun k hk => ?_⟩
    obtain ⟨l, hl, hlu⟩ := hfirst k hk
    obtain ⟨k', hk', hkt⟩ := hrest l hlu
    exact ⟨k', (congrArg (· >>= bs.foldlM g) hl).trans hk', hkt⟩

theorem ofExcept {e : Except Fault β} {a : α} {x : β → Step α} {g : β → κ → Except Fault κ}
    (h : ∀ b, Covers R a (x b) (g b)) :
    Covers R a (Check.ofExcept e >>= x) fun k => e >>= fun b => g b k := by
  intro s b t hx
  obtain ⟨c, u, he, hx⟩ := bind_ok hx
  obtain ⟨rfl, rfl⟩ := ofExcept_ok he
  exact h c s b t hx

theorem complain {c : Complaint} {g : κ → Except Fault κ} : Covers R ⟨⟩ (complain c) g := by
  intro s _ t hx
  refine ⟨rfl, fun ht => ?_⟩
  cases hx
  simp at ht

end Covers

theorem complainAll (lines : List String) (s : Check) :
    (lines.forM fun line => complain (.formula line)) s =
      .ok ⟨⟩ { s with complaints := s.complaints ++ lines.map .formula } := by
  induction lines generalizing s with
  | nil => simp [List.forM, pure, EStateM.pure]
  | cons line lines ih =>
    have hfirst : complain (.formula line) s =
        .ok ⟨⟩ { s with complaints := s.complaints ++ [.formula line] } := rfl
    change (complain (.formula line) >>= fun _ =>
      lines.forM fun line => complain (.formula line)) s = _
    rw [bind_of_ok hfirst, ih]
    simp

theorem checkFormula_eq (file id field : String) (source : Option Formula.Source) (s : Check) :
    checkFormula file id field source s =
      .ok ⟨⟩ { s with
        complaints := s.complaints ++ (Formula.complaints file id field source).map .formula } := by
  match source with
  | some (.text text) => exact complainAll _ s
  | some (.number n) => simp [checkFormula, Formula.complaints, pure, EStateM.pure]
  | none => simp [checkFormula, Formula.complaints, pure, EStateM.pure]

def repeats (s : Check) (file id : String) : List Complaint :=
  match s.files.get? id with
  | some earlier => [.repeated file id earlier]
  | none => []

theorem checkFormulas_eq (file : String) (e : Status.Entry) (s : Check) :
    (match e.modify with
      | some m => do
        checkFormula file e.id "baseDamage" m.damage
        checkFormula file e.id "baseBlock" m.block
      | none => pure ()) s =
      .ok ⟨⟩ { s with complaints := s.complaints ++ (e.complaints file).map .formula } := by
  unfold Status.Entry.complaints
  cases e.modify with
  | none => simp [pure, EStateM.pure]
  | some m => simp [bind_of_ok (checkFormula_eq ..), checkFormula_eq]

theorem checkStatus_eq {e : Status.Entry} (h : Status.Entry.read d = .ok e) (s : Check) :
    checkStatus file d s = .ok ⟨⟩ { s with
      complaints := s.complaints ++ repeats s file e.id ++ (e.complaints file).map .formula
      files := s.files.put e.id file } := by
  unfold checkStatus repeats
  simp only [h]
  rw [get_bind]
  cases s.files.get? e.id with
  | none =>
    dsimp only
    rw [modify_bind, List.append_nil]
    exact checkFormulas_eq file e _
  | some earlier =>
    have hc : complain (.repeated file e.id earlier) s =
        .ok ⟨⟩ { s with complaints := s.complaints ++ [.repeated file e.id earlier] } := rfl
    dsimp only
    rw [bind_of_ok hc, modify_bind]
    exact checkFormulas_eq file e _

def Known (s : Check) (known : Ledger Status.Entry) : Prop :=
  known.names = s.files.names ∧ ∀ e ∈ known.values, e.Definable

theorem addStatus_of_new {e : Status.Entry} {known : Ledger Status.Entry}
    (h : Status.Entry.read d = .ok e) (hnew : known.has e.id = false) :
    addStatus file known d = .ok (known.put e.id e) := by
  have hfirst : (Status.Entry.read d).mapError Fault.invalid = .ok e := by
    rw [h]
    rfl
  simp [addStatus, hfirst, hnew, bind, Except.bind, pure, Except.pure]

theorem checkStatus_covers : Covers Known ⟨⟩ (checkStatus file d) (addStatus file · d) := by
  cases hr : Status.Entry.read d with
  | error cause =>
    rw [checkStatus, hr]
    exact Covers.complain
  | ok e =>
    intro s _ t hx
    refine ⟨rfl, fun ht => ?_⟩
    rw [checkStatus_eq hr] at hx
    cases hx
    simp only [List.append_eq_nil_iff, List.map_eq_nil_iff] at ht
    obtain ⟨⟨hs, hrep⟩, hform⟩ := ht
    refine ⟨hs, fun known ⟨hnames, hdef⟩ => ⟨known.put e.id e, ?_, ?_, ?_⟩⟩
    · have hnew : known.has e.id = false := by
        unfold repeats at hrep
        cases hg : s.files.get? e.id with
        | none =>
          rw [← Bool.not_eq_true, Ledger.has_iff, hnames, ← Ledger.has_iff, Ledger.has_eq, hg]
          simp
        | some earlier => simp [hg] at hrep
      exact addStatus_of_new hr hnew
    · rw [Ledger.names_put, Ledger.names_put, hnames]
    · intro a ha
      obtain rfl | ha := Ledger.mem_values_put ha
      · exact Status.Entry.definable (Status.Entry.rules_of_read hr)
          (Status.Entry.check_of_complaints hform)
      · exact hdef a ha

theorem checkHero_covers : Covers (fun _ _ => True) ⟨⟩ (checkHero file d) (readHero file · d) := by
  cases hr : Hero.read d with
  | error cause =>
    rw [checkHero, hr]
    exact Covers.complain
  | ok h =>
    intro s _ t hx
    rw [checkHero, hr] at hx
    rw [modify_ok hx]
    have hread : ∀ hs, readHero file hs d = .ok (hs ++ [(file, h)]) := by
      intro hs
      rw [readHero, hr]
      rfl
    exact ⟨rfl, fun ht => ⟨ht, fun hs _ => ⟨_, hread hs, trivial⟩⟩⟩

def checkFiles (f : Folder) : Step PUnit := do
  for (path, text) in (f.enter "statuses").list Folder.contentSuffixes do
    for d in ← ofExcept (documents path text) do
      checkStatus ((f.enter "statuses").call path) d
  for (path, text) in (f.enter "heroes").list Folder.contentSuffixes do
    checkHero ((f.enter "heroes").call path) (← ofExcept (readFile path text))

theorem checkFolder_eq (f : Folder) : checkFolder f = checkFiles f >>= fun _ => checkGrants := by
  simp only [checkFolder, checkFiles, bind_assoc, pure_bind]

theorem clean_of_checkGrants (h : checkGrants s = .ok ⟨⟩ t) (ht : t.complaints = []) :
    s.complaints = [] := by
  rw [checkGrants, get_bind] at h
  obtain ⟨_, u, hu, h⟩ := bind_ok h
  obtain ⟨-, rfl⟩ := pure_ok h
  have hloop := Covers.forIn (R := fun _ (_ : PUnit) => True) (g := fun k _ => .ok k)
    (fun _ => .yield .complain) _ _ _ _ hu
  exact (hloop.2 ht).1

theorem checkFolder_reads (h : checkFolder f {} = .ok ⟨⟩ t) (ht : t.complaints = []) :
    (∃ known, loadStatuses (f.enter "statuses") = .ok known ∧
      ∀ e ∈ known.values, e.Definable) ∧
    ∃ hs, readHeroes (f.enter "heroes") = .ok hs := by
  rw [checkFolder_eq] at h
  obtain ⟨_, v, hfiles, h⟩ := bind_ok h
  have hv' := clean_of_checkGrants h ht
  obtain ⟨_, u, hu, hfiles⟩ := bind_ok hfiles
  obtain ⟨_, w, hv, hfiles⟩ := bind_ok hfiles
  obtain ⟨-, rfl⟩ := pure_ok hfiles
  have hheroes := Covers.forIn (fun _ => .ofExcept fun _ => .yield checkHero_covers) _ _ _ _ hv
  obtain ⟨hu', hheroes⟩ := hheroes.2 hv'
  have hstatuses := Covers.forIn (fun _ => .ofExcept fun ds =>
    .yield (.forIn (fun _ => .yield checkStatus_covers) ds)) _ _ _ _ hu
  obtain ⟨-, hstatuses⟩ := hstatuses.2 hu'
  obtain ⟨hs, hheroes, -⟩ := hheroes [] trivial
  obtain ⟨known, hknown, -, hdef⟩ := hstatuses .empty ⟨rfl, by simp [Ledger.values, Ledger.empty]⟩
  exact ⟨⟨known, hknown, hdef⟩, hs, hheroes⟩

end Check

end Duel.Content
