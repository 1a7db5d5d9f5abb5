import Duel.Stacks
import Duel.Total

namespace Duel

namespace Spend

structure Outcome (R : Type) where
  next : Stacks
  result : Result R

/-- What came of spending one status, several times or once. -/
structure Summary (R : Type) where
  id : String
  spent : Int
  damage : Int := 0
  block : Int := 0
  negates : Bool := false
  successes : Int := 0
  logs : List String := []
  results : List (Result R) := []
  deriving Repr

structure ManyOutcome (R : Type) where
  next : Stacks
  results : List (Result R)
  cost : Int
  summary : Summary R

end Spend

namespace Spend.Summary

variable {R : Type}

def ofResults (id : String) (spent : Int) (results : List (Result R)) : Summary R where
  id
  spent
  damage := total (results.map fun r => r.damage.getD 0)
  block := total (results.map fun r => r.block.getD 0)
  negates := results.any (·.negates)
  successes := results.countP (·.success)
  logs := results.filterMap fun r => Event.spoken r.log
  results

end Spend.Summary

namespace Status

variable {R : Type} [Scalar R]

/-- What spending brings in a context, before anything is paid. -/
def spendResult (s : Status R) (rule : Spend.Rule R) (phase : Phase) (ctx : Spend.Context) :
    Except Fault (Option (Spend.Result R)) :=
  let ctx := { ctx with phase }
  firstAnswer (rule.apply.elim (.ok none) fun hook => hook ctx)
    (s.behavior.elim (.ok none) fun b =>
      (b.spend s.name s.needsRoll ctx phase).mapError .number)

end Status

namespace Spend.Rule

variable {R : Type}

/-- Damage and block, where they are known, have to be there to be added to. -/
def admits (rule : Rule R) (phase : Phase) (ctx : Context) (held : Int) : Bool :=
  rule.phases.contains phase &&
  !(rule.needsRoll && ctx.roll.isNone) &&
  !(phase == .attackRoll && ctx.damage.any (· ≤ 0)) &&
  !(phase == .defenseRoll && ctx.block.any (· ≤ 0)) &&
  decide (rule.cost ≤ held)

end Spend.Rule

namespace Stacks

variable {R : Type} [Scalar R]

def spend (held : Stacks) (id : String) (phase : Phase) (ctx : Spend.Context) (reg : Registry R)
    (owner : Option String) : Work (Option (Spend.Outcome R)) :=
  match reg.get? id with
  | none => pure none
  | some status =>
    match status.spend with
    | none => pure none
    | some rule =>
      if !rule.admits phase ctx (held.count id) then pure none
      else do
        match ← ofExcept (status.spendResult rule phase ctx) with
        | none => return none
        | some result =>
          let next ← ExceptT.lift (held.assign id (held.count id - rule.cost) reg
            (causeFor owner .spend phase.name none))
          return some ⟨next, result⟩

/-- What an attempt leaves to the next one: its bonuses, and its roll unless it had none. -/
def carry (phase : Phase) (before ctx : Spend.Context) (r : Spend.Result R) : Spend.Context where
  phase
  roll := ctx.roll <|> before.roll
  damage := match r.damage with
    | some n => some (ctx.damage.getD 0 + n)
    | none => ctx.damage
  block := match r.block with
    | some n => some (ctx.block.getD 0 + n)
    | none => ctx.block

/-- Spends up to `left` times, from attempt `i` on, and stops at the first that fails. -/
def spendRepeatedly (id : String) (phase : Phase) (build : Nat → Spend.Context → Spend.Context)
    (reg : Registry R) (owner : Option String) :
    (left i : Nat) → Spend.Context → Stacks → Work (List (Spend.Result R) × Stacks)
  | 0, _, _, held => pure ([], held)
  | left + 1, i, snapshot, held => do
    let ctx := build i snapshot
    match ← held.spend id phase ctx reg owner with
    | none => return ([], held)
    | some out =>
      let (results, next) ← spendRepeatedly id phase build reg owner left (i + 1)
        (carry phase snapshot ctx out.result) out.next
      return (out.result :: results, next)

/-- Spends a status up to `attempts` times. Each attempt starts from what the last one left. -/
def spendMany (held : Stacks) (id : String) (attempts : Int) (phase : Phase)
    (build : Nat → Spend.Context → Spend.Context) (initial : Option Spend.Context)
    (reg : Registry R) (owner : Option String) : Work (Option (Spend.ManyOutcome R)) :=
  match (reg.get? id).bind (·.spend) with
  | none => pure none
  | some rule => do
    let (results, next) ← spendRepeatedly id phase build reg owner attempts.toNat 0
      (initial.getD { phase }) held
    if results.isEmpty then return none
    else
      let cost := rule.cost * results.length
      return some ⟨next, results, cost, .ofResults id cost results⟩

end Stacks

end Duel
