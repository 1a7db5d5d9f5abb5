import Duel.Buff.Basic
import Duel.Hero
import Duel.Status.Modifier
import Duel.Status.Spend

namespace Duel

namespace Defense

structure Base (R : Type) where
  roll : Option Int := none
  block : Int := 0
  reflect : Int := 0
  heal : Int := 0
  /-- The part of the damage that goes back to the attacker. -/
  retaliate : R
  /-- Stacks granted to the defender right away. -/
  applied : Ledger Int := .empty
  grants : List Grant := []
  label : Option String := none

structure Resolution (R : Type) extends Base R where
  spends : List (Spend.Summary R) := []
  logs : List String := []

structure Request where
  status : String
  attempts : Int := 1
  /-- A reaction may have a die of its own. -/
  roll : Option Int := none
  required : Bool := false
  deriving DecidableEq, Repr

structure Plan (R : Type) where
  defender : Player
  resolution : Resolution R

variable {R : Type}

def Request.isReaction (r : Request) (reg : Registry R) : Bool :=
  (reg.get? r.status).any (·.isReaction)

/-- Reactions come first, since they are made before block is known. -/
def inOrder (reg : Registry R) (requests : List Request) : List Request :=
  requests.filter (·.isReaction reg) ++ requests.filter (!·.isReaction reg)

/-- Rules that can fail, tell of what happens and work with the formulas that are kept. -/
abbrev Play (α : Type) := ExceptT Fault (StateT Formula.Cache Traced) α

def happen {α : Type} (x : Traced α) : Play α := ExceptT.lift (StateT.lift x)

def venture {α : Type} (x : Stacks.Work α) : Play α := ExceptT.mk (StateT.lift x.run)

/-- Works with formulas; what they have been put through stays when the work fails. -/
def reckon {α : Type} (x : Formula.Kept α) : Play α :=
  ExceptT.mk fun formulas =>
    match x.run formulas with
    | .ok a formulas => pure (.ok a, formulas)
    | .error e formulas => pure (.error (.formula e), formulas)

def applyStatuses (side : Side) (base : Base R) (held : Stacks) (reg : Registry R) :
    Traced Stacks :=
  base.applied.entries.foldlM (fun held (id, n) =>
    held.add id n reg (some {
      kind := .grant, owner := side.name, phase := Phase.defenseRoll.name
      source := .ofList [("defense", .text (orElse base.label "roll"))] })) held

variable [Scalar R]

def serve (side : Side) (base : Base R) (block : Int) (reg : Registry R)
    (sofar : Stacks × List (Spend.Summary R)) (r : Request) :
    Play (Stacks × List (Spend.Summary R)) :=
  match reg.get? r.status with
  | none => if r.required then throw (.unknownDefense r.status) else pure sofar
  | some status => do
    let ctx : Spend.Context := {
      phase := .defenseRoll
      roll := r.roll <|> base.roll
      block := if status.isReaction then none else some block }
    let out ← venture (sofar.1.spendMany r.status r.attempts .defenseRoll
      (fun _ ctx => ctx) (some ctx) reg (some side.name))
    match out with
    | some out => return (out.next, sofar.2 ++ [out.summary])
    | none => if r.required then throw (.unpaidDefense r.status) else return sofar

def serveAll (side : Side) (incoming : Int) (base : Base R) (block : Int)
    (requests : List Request) (held : Stacks) (reg : Registry R) :
    Play (Stacks × List (Spend.Summary R)) :=
  if 0 < incoming then (inOrder reg requests).foldlM (serve side base block reg) (held, [])
  else if requests.any (·.required) then throw .needlessDefense
  else return (held, [])

/-- Grants what the defence brings along, lets the passive statuses bear on its block, and then
spends what is asked for. -/
def plan (defender : Player) (attacker : Side) (incoming : Int) (base : Base R)
    (requests : List Request) (reg : Registry R) : Play (Plan R) := do
  let held ← happen (applyStatuses defender.side base defender.statuses reg)
  let ctx : Modifier.Context := {
    stance := .defense, attacker := attacker.name, defender := defender.side.name
    damage := incoming, block := base.block }
  let modified ← reckon (held.modify ctx reg)
  let block := max 0 modified.context.block
  let (held, spends) ← serveAll defender.side incoming base block requests held reg
  return {
    defender := { defender with statuses := held }
    resolution := { base with block, spends, logs := modified.logs } }

end Defense

end Duel
