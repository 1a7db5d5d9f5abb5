import Duel.Content.Load
import Duel.Formula.Lint
import Duel.Proofs.Field
import Duel.Proofs.Status.Definitions

namespace Duel

open Duel.Field

namespace Formula

theorem ok_of_report {file place source : String} {readable : Outcome Unit}
    (h : Lint.report file place source readable = []) : readable = .ok () := by
  cases readable with
  | ok u => rfl
  | error e => simp [Lint.report] at h

def complaints (file id field : String) : Option Source → List String
  | some (.text s) =>
    Lint.report file (id ++ ".modify." ++ field) s ((Program.read s).map fun _ => ())
  | _ => []

theorem check_of_complaints {file id field : String} {source : Option Source}
    (h : complaints file id field source = []) : source.forM (·.check) = .ok () := by
  match source with
  | none => rfl
  | some (.number n) => rfl
  | some (.text s) => exact ok_of_report h

end Formula

namespace Status.Entry

variable {e : Entry} {d : Document}

theorem rules_of_read (h : read d = .ok e) : e.rules = [] :=
  rules_of_record (mapError_ok h)

def complaints (file : String) (e : Entry) : List String :=
  match e.modify with
  | some m =>
    Formula.complaints file e.id "baseDamage" m.damage ++
      Formula.complaints file e.id "baseBlock" m.block
  | none => []

theorem check_of_complaints {file : String} (h : e.complaints file = []) :
    e.modify.forM (·.check) = .ok () := by
  unfold complaints at h
  cases hm : e.modify with
  | none => rfl
  | some m =>
    simp only [hm, List.append_eq_nil_iff] at h
    change m.check = _
    rw [Modifier.Formulas.check, Formula.check_of_complaints h.1]
    exact Formula.check_of_complaints h.2

theorem config_of_rules (h : e.rules = []) {id : String} (hb : e.behavior = some id) :
    ∃ b, Behavior.ofConfig id e.configDocument = .ok b := by
  simp only [rules, hb, behaviorRules, List.append_eq_nil_iff] at h
  cases hc : Behavior.ofConfig id e.configDocument with
  | ok b => exact ⟨b, rfl⟩
  | error fault => simp [hc] at h

/-- What the formulas of an entry come to when they are read. -/
def formulas (e : Entry) : Except Formula.Failure Unit := e.modify.forM (·.check)

/-- The status that an entry comes to, whatever registry it is defined in. -/
def Defines (e : Entry) (s : Status Number) : Prop :=
  s.id = e.id ∧ ∀ reg : Registry Number, reg.enterEntry e = (.ok s, reg.define s)

def Definable (e : Entry) : Prop :=
  ∀ reg : Registry Number, ∃ s next, reg.enterEntry e = (.ok s, next) ∧ s.id = e.id

theorem defines (hr : e.rules = []) (hf : e.formulas = .ok ()) : ∃ s, e.Defines s := by
  have hd : ∃ draft, e.draft = .ok draft ∧ draft.status.id = e.id ∧ draft.behavior = e.behavior ∧
      draft.config = if e.behavior.isSome then e.configDocument else .null := by
    rw [draft, show e.modify.forM (·.check) = .ok () from hf]
    exact ⟨_, rfl, rfl, rfl, rfl⟩
  obtain ⟨draft, hd, hid, hb, hconfig⟩ := hd
  have hf : ∃ s, draft.finish = .ok s := by
    rw [Draft.finish, hb, hconfig]
    cases hbe : e.behavior with
    | none => exact ⟨_, rfl⟩
    | some id =>
      obtain ⟨b, hcfg⟩ := config_of_rules hr hbe
      exact ⟨{ draft.status with behavior := some b }, by simp [hcfg, Except.map]⟩
  obtain ⟨s, hs⟩ := hf
  refine ⟨s, (Registry.id_of_finish hs).trans hid, fun reg => ?_⟩
  rw [Registry.enterEntry, hd]
  dsimp only
  rw [Registry.enter_eq, hs]
  rfl

theorem definable (hr : e.rules = []) (hc : e.modify.forM (·.check) = .ok ()) : e.Definable := by
  intro reg
  obtain ⟨s, hid, hs⟩ := defines hr hc
  exact ⟨s, _, hs reg, hid⟩

theorem enterEntry_of_unreadable {cause : Formula.Failure} (h : e.formulas = .error cause)
    (reg : Registry Number) : reg.enterEntry e = (.error (.formula cause), reg) := by
  rw [Registry.enterEntry, draft, show e.modify.forM (·.check) = .error cause from h]
  rfl

end Status.Entry

namespace Registry

theorem enterAll_ok {es : List Status.Entry} (h : ∀ e ∈ es, e.Definable)
    (reg : Registry Number) :
    ∃ ss, (reg.enterAll es).1 = .ok ss ∧ ss.map (·.id) = es.map (·.id) := by
  induction es generalizing reg with
  | nil => exact ⟨[], rfl, rfl⟩
  | cons e es ih =>
    obtain ⟨he, h⟩ := List.forall_mem_cons.mp h
    obtain ⟨s, next, hs, hid⟩ := he reg
    obtain ⟨ss, hss, hids⟩ := ih h next
    refine ⟨s :: ss, ?_, by rw [List.map_cons, List.map_cons, hid, hids]⟩
    rw [enterAll, hs]
    change (next.enterAll es).1.map _ = _
    rw [hss]
    rfl

end Registry

end Duel
