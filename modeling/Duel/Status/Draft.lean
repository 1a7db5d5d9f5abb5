import Duel.Status.Config
import Duel.Status.Registry

namespace Duel

/-- A status whose behaviour is named, but not yet made from its configuration. -/
structure Status.Draft where
  status : Status Number
  behavior : Option String := none
  config : Document := .null

namespace Status.Draft

/-- A configuration stays as it is where no behaviour takes it up. -/
def finish (d : Draft) : Except Behavior.Fault (Status Number) :=
  match d.behavior with
  | none => .ok { d.status with notes := d.config }
  | some id => (Behavior.ofConfig id d.config).map fun b => { d.status with behavior := some b }

end Status.Draft

/-- What can be done to a registry from outside. -/
inductive Registry.Call
  | define (draft : Status.Draft)
  | reset

namespace Registry.Tables

variable {t : Tables Number}

def enter (draft : Status.Draft) :
    ExceptT Behavior.Fault (StateM (Tables Number)) (Status Number) := do
  let s ← draft.finish
  modify (·.place s.id)
  modify (·.keep s)
  return s

/-- What a call leaves behind, whether it succeeds or not. -/
def apply (t : Tables Number) : Call → Tables Number
  | .define draft => ((enter draft).run.run t).2
  | .reset => {}

def after (calls : List Call) : Tables Number := calls.foldl apply {}

theorem enter_run (draft : Status.Draft) (t : Tables Number) : (enter draft).run.run t =
    match draft.finish with
    | .ok s => (.ok s, t.define s)
    | .error fault => (.error fault, t) := by
  rw [enter]
  cases draft.finish <;> rfl

theorem InStep.enter (h : t.InStep) (draft : Status.Draft) :
    ((enter draft).run.run t).2.InStep := by
  rw [enter_run]
  cases draft.finish with
  | ok s => exact h.define s
  | error fault => exact h

theorem InStep.apply (h : t.InStep) (c : Call) : (t.apply c).InStep :=
  match c with
  | .define draft => h.enter draft
  | .reset => inStep_empty

theorem inStep_after (calls : List Call) : (after calls).InStep := by
  have hrun (t : Tables Number) (h : t.InStep) : (calls.foldl Tables.apply t).InStep := by
    induction calls generalizing t with
    | nil => exact h
    | cons c calls ih => exact ih _ (h.apply c)
  exact hrun {} inStep_empty

end Registry.Tables

namespace Registry

def enter (reg : Registry Number) (draft : Status.Draft) :
    Except Behavior.Fault (Status Number) × Registry Number :=
  (((Tables.enter draft).run.run reg.toTables).1, ⟨_, reg.inStep.enter draft⟩)

def after (calls : List Call) : Registry Number := ⟨Tables.after calls, Tables.inStep_after calls⟩

end Registry

end Duel
