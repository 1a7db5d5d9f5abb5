import Duel.Status.Registry

namespace Duel.Status.Table

def header : List String := ["id", "name", "kind", "behavior", "max", "priority", "spend"]

def spendCell {R : Type} (rule : Spend.Rule R) : String :=
  toString rule.cost ++ " @ " ++ ", ".intercalate (rule.phases.map (·.name)) ++
    (if rule.needsRoll then " (roll)" else "")

def row {R : Type} [Scalar R] (s : Status R) : List String :=
  let most := (s.maxStacks.filter (· ≠ 0)).map toString
  [s.id, s.name, s.kind.name, (s.behavior.map (·.id)).getD "-", most.getD "-",
    toString s.priority, (s.spend.map spendCell).getD "-"]

def rows {R : Type} [Scalar R] (reg : Registry R) : List (List String) := reg.list.map row

end Duel.Status.Table
