import Duel.Status.Draft

namespace Duel

open Duel.Field

namespace Spend.Rule

variable {R : Type}

def rules (r : Rule R) : List String :=
  (if r.cost < 1 then ["spend.costStacks must be >= 1"] else []) ++
  (if r.phases.isEmpty then ["spend.allowedPhases must not be empty"] else [])

def ofDocument : Reader (Rule R) :=
  record (((fun cost phases needsRoll => { cost, phases, needsRoll }) <$>
    optional "costStacks" 1 whole <*>
    required "allowedPhases" (listOf (choice Phase.named)) <*>
    optional "needsRoll" false truth : Form (Rule R)).obeying rules)

end Spend.Rule

namespace Cleanse.Rule

def ofDocument : Reader Rule :=
  record ((fun threshold animation => { threshold, animation }) <$>
    required "threshold" whole <*> maybe "animationDurationMs" whole)

end Cleanse.Rule

/-- A passive status in formulas; without a stance it bears on both halves of an attack. -/
structure Modifier.Formulas where
  stance : Option Stance := none
  damage : Option Formula.Source := none
  block : Option Formula.Source := none
  log : Option String := none
  deriving Repr

namespace Modifier.Formulas

def rules (f : Formulas) : List String :=
  if f.damage.isNone && f.block.isNone && f.log.isNone then
    ["modify requires baseDamage, baseBlock or log"]
  else []

def ofDocument : Reader Formulas :=
  record ((Formulas.mk <$> maybe "phase" (choice Stance.named) <*>
    maybe "baseDamage" Formula.Source.ofDocument <*>
    maybe "baseBlock" Formula.Source.ofDocument <*> maybe "log" text).obeying rules)

def numbers (ctx : Context) (count : Int) : List (String × Int) :=
  [("baseDamage", ctx.damage), ("baseBlock", ctx.block), ("stacks", count)]

def check (f : Formulas) : Except Formula.Failure Unit := do
  f.damage.forM (·.check)
  f.block.forM (·.check)

def result (f : Formulas) (count : Int) (ctx : Context) : Formula.Kept (Option Result) :=
  if f.stance.any (· ≠ ctx.stance) then return none
  else do
    let numbers := numbers ctx count
    let scope := numbers.map fun (name, n) => (name, Document.number (.whole n))
    let whole (s : Formula.Source) : Formula.Kept Int := Formula.Cache.wholeValue s scope
    let damage ← f.damage.mapM whole
    let block ← f.block.mapM whole
    let log ← (Event.spoken f.log).mapM fun template => do
      let names ← numbers.mapM fun (name, n) => do
        return (name, ← Formula.Kept.ofOutcome (Formula.Store.wholeText n))
      return Text.fill template names
    return some { damage, block, log }

end Modifier.Formulas

/-- A status as a content file describes it. -/
structure Status.Entry where
  id : String
  name : String
  kind : Kind := .positive
  icon : String := ""
  activation : Activation := .active
  behavior : Option String := none
  config : Ledger Document := .empty
  spend : Option (Spend.Rule Number) := none
  modify : Option Modifier.Formulas := none
  cleanse : Option Cleanse.Rule := none
  maxStacks : Option Int := none
  priority : Int := 100

namespace Status.Entry

def title : String := "StatusDefinitionSpec"

def configDocument (e : Entry) : Document :=
  .table (e.config.entries.map fun (name, d) => (.text name, d))

def behaviorRules (e : Entry) (id : String) : List String :=
  (match Behavior.ofConfig id e.configDocument with
  | .error _ => ["behaviorConfig invalid for '" ++ id ++ "'"]
  | .ok _ => []) ++
  (if ["bonus_pool", "pre_defense_reaction"].contains id && e.spend.isNone then
    ["behavior '" ++ id ++ "' needs a spend rule"]
  else []) ++
  (if id == "pre_defense_reaction" && e.spend.any (!·.phases.contains .defenseRoll) then
    ["pre_defense_reaction must be spendable in defenseRoll"]
  else [])

def rules (e : Entry) : List String :=
  (if e.maxStacks.any (· < 1) then ["maxStacks must be >= 1 when present"] else []) ++
  (match e.behavior with
  | some id => e.behaviorRules id
  | none => []) ++
  (if e.modify.isSome && e.activation ≠ .passive then
    ["modify formulas require activation 'passive'"]
  else [])

def form : Form Entry :=
  (Entry.mk <$> required "id" text <*> required "name" text <*>
    optional "kind" .positive (choice Kind.named) <*> optional "icon" "" text <*>
    optional "activation" .active (choice Activation.named) <*>
    maybe "behavior" (choice (Behavior.ids.map fun id => (id, id))) <*>
    optional "behaviorConfig" .empty (ledgerOf anything) <*>
    maybe "spend" Spend.Rule.ofDocument <*> maybe "modify" Modifier.Formulas.ofDocument <*>
    maybe "cleanse" Cleanse.Rule.ofDocument <*> maybe "maxStacks" whole <*>
    optional "priority" 100 whole).obeying rules

def ofDocument : Reader Entry := record form

def read (d : Document) : Except Invalid Entry := readAs title ofDocument d

def draft (e : Entry) : Except Formula.Failure Draft := do
  e.modify.forM (·.check)
  return {
    status := {
      id := e.id, name := e.name, kind := e.kind, icon := e.icon, activation := e.activation,
      spend := e.spend, onModify := e.modify.map (·.result), cleanse := e.cleanse,
      maxStacks := e.maxStacks, priority := e.priority }
    behavior := e.behavior
    config := if e.behavior.isSome then e.configDocument else .null }

end Status.Entry

end Duel
