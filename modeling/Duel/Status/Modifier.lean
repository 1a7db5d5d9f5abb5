import Duel.Stacks

namespace Duel

namespace Modifier

structure Outcome where
  context : Context
  logs : List String
  deriving DecidableEq, Repr

/-- Only what a hook returns takes the place of what was there. -/
def Context.update (ctx : Context) (r : Result) : Context :=
  { ctx with damage := r.damage.getD ctx.damage, block := r.block.getD ctx.block }

def Outcome.enter (o : Outcome) (r : Option Result) : Outcome :=
  match r with
  | none => o
  | some r => ⟨o.context.update r, o.logs ++ (Event.spoken r.log).toList⟩

/-- A passive status at work: its place in the order, its count and its hook. -/
structure Effect where
  priority : Int
  order : Nat
  count : Int
  hook : Int → Context → Formula.Kept (Option Result)

def Effect.atMost (a b : Effect) : Bool :=
  decide (a.priority < b.priority ∨ (a.priority = b.priority ∧ a.order ≤ b.order))

end Modifier

namespace Stacks

variable {R : Type}

def effects (held : Stacks) (reg : Registry R) : List Modifier.Effect :=
  let found := held.entries.filterMap fun (id, n) => do
    if n ≤ 0 then none
    else
      let status ← reg.get? id
      let hook ← status.onModify
      return ⟨status.priority, reg.orderOf id, n, hook⟩
  found.mergeSort Modifier.Effect.atMost

/-- Lets the passive statuses bear on an attack, by priority and then by order of definition. -/
def modify (held : Stacks) (ctx : Modifier.Context) (reg : Registry R) :
    Formula.Kept Modifier.Outcome :=
  (held.effects reg).foldlM
    (fun o e => return o.enter (← e.hook e.count o.context)) ⟨ctx, []⟩

end Stacks

end Duel
