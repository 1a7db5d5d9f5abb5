import Duel.Field
import Duel.Proofs.Work

namespace Duel.Field

variable {α β γ : Type}

theorem both_ok {f : α → β → γ} {x : Checked α} {y : Checked β} {z : γ}
    (h : both f x y = .ok z) : ∃ a b, x = .ok a ∧ y = .ok b ∧ z = f a b := by
  cases x <;> cases y <;> cases h
  exact ⟨_, _, rfl, rfl, rfl⟩

theorem within_ok {place : Place} {x : Checked α} {a : α} : within place x = .ok a ↔ x = .ok a := by
  cases x with
  | ok b => exact Iff.rfl
  | error issues => exact iff_of_false (fun h => by cases h) fun h => by cases h

section Form

variable {fields : List (Document × Document)}

theorem run_map_ok {f : α → β} {x : Form α} {b : β} (h : (f <$> x).run fields = .ok b) :
    ∃ a, x.run fields = .ok a ∧ b = f a := by
  change (x.run fields).map f = .ok b at h
  cases hx : x.run fields with
  | error issues =>
    rw [hx] at h
    cases h
  | ok a =>
    rw [hx] at h
    cases h
    exact ⟨a, rfl, rfl⟩

theorem run_seq_ok {f : Form (α → β)} {x : Form α} {b : β} (h : (f <*> x).run fields = .ok b) :
    ∃ g a, f.run fields = .ok g ∧ x.run fields = .ok a ∧ b = g a :=
  both_ok h

theorem optional_ok {name : String} {default a : α} {r : Reader α}
    (h : (optional name default r).run fields = .ok a) : a = default ∨ ∃ d, r d = .ok a := by
  have h := within_ok.mp h
  split at h
  next d _ => exact .inr ⟨d, h⟩
  next =>
    cases h
    exact .inl rfl

theorem maybe_ok {name : String} {a : α} {r : Reader α}
    (h : (maybe name r).run fields = .ok (some a)) : ∃ d, r d = .ok a := by
  obtain h | ⟨d, h⟩ := optional_ok h
  · cases h
  · unfold nullable at h
    split at h
    · cases h
    · cases hr : r d with
      | error issues =>
        rw [hr] at h
        cases h
      | ok b =>
        rw [hr] at h
        cases h
        exact ⟨d, hr⟩

end Form

variable {form : Form α} {rules : α → List String} {d : Document} {a : α}

theorem run_of_obeying {fields : List (Document × Document)}
    (h : (form.obeying rules).run fields = .ok a) : form.run fields = .ok a := by
  obtain ⟨b, hb, h⟩ := except_bind_ok h
  split at h
  · cases h
    exact hb
  · cases h

theorem run_of_record (h : record form d = .ok a) : ∃ fields, form.run fields = .ok a := by
  cases d with
  | table fields => exact ⟨fields, h⟩
  | _ => cases h

theorem rules_of_run {fields : List (Document × Document)}
    (h : (form.obeying rules).run fields = .ok a) : rules a = [] := by
  obtain ⟨b, -, h⟩ := except_bind_ok h
  cases hr : rules b with
  | nil =>
    rw [hr] at h
    cases h
    exact hr
  | cons r rs =>
    rw [hr] at h
    cases h

theorem rules_of_record (h : record (form.obeying rules) d = .ok a) : rules a = [] := by
  cases d with
  | table fields => exact rules_of_run h
  | _ => cases h

end Duel.Field
