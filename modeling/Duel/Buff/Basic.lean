import Duel.Stacks

namespace Duel

open Duel.Field

/-- The points of a turn at which a buff can be used, or can come to its end. -/
inductive Buff.Moment
  | nextTurn
  | nextDefenseCommit
  | turnStart
  | immediate
  | turnEnd
  | nextAttackCommit
  | other (name : String)
  deriving DecidableEq, Repr

namespace Buff.Moment

def name : Moment → String
  | nextTurn => "nextTurn"
  | nextDefenseCommit => "nextDefenseCommit"
  | turnStart => "turnStart"
  | immediate => "immediate"
  | turnEnd => "turnEnd"
  | nextAttackCommit => "nextAttackCommit"
  | other name => name

def usable : List (String × Moment) :=
  [nextTurn, nextDefenseCommit, turnStart, immediate].map fun m => (m.name, m)

def named : List (String × Moment) :=
  usable ++ [turnEnd, nextAttackCommit].map fun m => (m.name, m)

def ofName (name : String) : Moment := (named.lookup name).getD (other name)

end Buff.Moment

/-- What brings a buff to its end. -/
inductive Expiry.Kind
  | nextAttack
  | endOfRound
  | endOfYourNextTurn
  | afterTurns
  deriving DecidableEq, Repr

namespace Expiry.Kind

def name : Kind → String
  | nextAttack => "nextAttack"
  | endOfRound => "endOfRound"
  | endOfYourNextTurn => "endOfYourNextTurn"
  | afterTurns => "afterNTurns"

def named : List (String × Kind) :=
  [nextAttack, endOfRound, endOfYourNextTurn, afterTurns].map fun k => (k.name, k)

end Expiry.Kind

structure Expiry where
  kind : Expiry.Kind
  turns : Option Int := none
  deriving DecidableEq, Repr

namespace Expiry

def ofDocument : Reader Expiry :=
  record (Expiry.mk <$> required "type" (choice Kind.named) <*> maybe "turns" whole)

/-- How many turns of its owner a buff has left at first, one at least. -/
def turnsLeft (e : Expiry) : Option Int :=
  if e.kind = .afterTurns then some (max 1 (e.turns.getD 1)) else none

end Expiry

structure CarryOver where
  owner : Bool := false
  opponent : Bool := false
  deriving DecidableEq, Repr

def CarryOver.ofDocument : Reader CarryOver :=
  record (CarryOver.mk <$> optional "owner" false truth <*> optional "opponent" false truth)

structure Buff.Source where
  rule : String
  effect : Option String := none
  deriving DecidableEq, Repr

def Buff.Source.ofDocument : Reader Buff.Source :=
  record (Buff.Source.mk <$> required "rule_id" text <*> maybe "effect_id" text)

/-- Whom a grant is for, as seen by the defender. -/
inductive Grant.Target
  | self
  | opponent
  deriving DecidableEq, Repr

namespace Grant.Target

def name : Target → String
  | self => "self"
  | opponent => "opponent"

def named : List (String × Target) := [self, opponent].map fun t => (t.name, t)

end Grant.Target

/-- Stacks that a defence grants for later. -/
structure Grant where
  status : String
  target : Grant.Target := .self
  count : Int := 1
  usable : Buff.Moment := .nextTurn
  stackCap : Option Int := none
  expires : Option Expiry := none
  cleansable : Option Bool := none
  carryOver : Option CarryOver := none
  source : Option Buff.Source := none
  deriving Repr

namespace Grant

def title : String := "DefenseStatusGrant"

def form : Form Grant :=
  Grant.mk <$> required "status" text <*> optional "target" .self (choice Target.named) <*>
    optional "stacks" 1 whole <*> optional "usable_phase" .nextTurn (choice Buff.Moment.usable) <*>
    maybe "stack_cap" whole <*> maybe "expires" Expiry.ofDocument <*> maybe "cleansable" truth <*>
    maybe "carry_over_on_ko" CarryOver.ofDocument <*> maybe "source" Buff.Source.ofDocument

def ofDocument : Reader Grant := record form

end Grant

structure Buff.Birth where
  round : Int
  turn : String
  deriving DecidableEq, Repr

def Buff.Birth.ofDocument : Reader Buff.Birth :=
  record (Buff.Birth.mk <$> required "round" whole <*> required "turn_id" text)

/-- Stacks that wait for their moment. -/
structure Buff where
  id : String
  owner : Side
  status : String
  count : Int := 1
  usable : Buff.Moment := .nextTurn
  stackCap : Option Int := none
  expires : Option Expiry := none
  cleansable : Option Bool := none
  carryOver : Option CarryOver := none
  turnsLeft : Option Int := none
  made : Buff.Birth
  source : Option Buff.Source := none
  deriving DecidableEq, Repr

namespace Buff

def title : String := "PendingDefenseBuff"

def form : Form Buff :=
  (fun id owner (_ : Unit) => Buff.mk id owner) <$> required "id" text <*>
    required "owner" (choice Side.named) <*> optional "kind" () (choice [("status", ())]) <*>
    required "status_id" text <*> optional "stacks" 1 whole <*>
    optional "usable_phase" .nextTurn (choice Moment.usable) <*> maybe "stack_cap" whole <*>
    maybe "expires" Expiry.ofDocument <*> maybe "cleansable" truth <*>
    maybe "carry_over_on_ko" CarryOver.ofDocument <*> maybe "turns_remaining" whole <*>
    required "created_at" Birth.ofDocument <*> maybe "source" Source.ofDocument

def ofDocument : Reader Buff := record form

end Buff

end Duel
