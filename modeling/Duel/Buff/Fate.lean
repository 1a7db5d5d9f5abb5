import Duel.Buff.Basic

namespace Duel

namespace Buff

/-- A point of a turn that one side has come to, or nobody of the two. -/
structure Trigger where
  moment : Moment
  owner : Option Side
  turn : String
  round : Int
  deriving DecidableEq, Repr

/-- Why a buff is gone before it was used. -/
inductive Ending
  | attackCommitted
  | roundOver
  | turnOver
  | windowElapsed
  | ownerDown
  | opponentDown
  deriving DecidableEq, Repr

def Ending.text : Ending → String
  | attackCommitted => "next attack committed"
  | roundOver => "round ended"
  | turnOver => "end of turn"
  | windowElapsed => "turn window elapsed"
  | ownerDown => "owner KO"
  | opponentDown => "opponent KO"

/-- What a trigger makes of a buff. -/
inductive Fate
  | ready
  | pending
  | expired (why : Ending)
  deriving DecidableEq, Repr

def inNewTurn (b : Buff) (t : Trigger) : Bool := t.turn != b.made.turn

def atOwnTurnEnd (b : Buff) (t : Trigger) : Bool :=
  t.moment == .turnEnd && t.owner == some b.owner && b.inNewTurn t

def isUsableAt (b : Buff) (t : Trigger) : Bool :=
  some b.owner == t.owner && b.usable == t.moment && (b.usable != .nextTurn || b.inNewTurn t)

def countDown (b : Buff) (t : Trigger) : Buff :=
  match b.turnsLeft with
  | some n => if 0 < n && b.atOwnTurnEnd t then { b with turnsLeft := some (n - 1) } else b
  | none => b

def runsOut (b : Buff) (t : Trigger) : Bool :=
  b.turnsLeft == some 1 && b.atOwnTurnEnd t

def expiring (b : Buff) (t : Trigger) : Expiry.Kind → Option Ending
  | .nextAttack =>
    if t.moment == .nextAttackCommit && t.owner == some b.owner && b.inNewTurn t then
      some .attackCommitted
    else none
  | .endOfRound => if b.made.round < t.round then some .roundOver else none
  | .endOfYourNextTurn => if b.atOwnTurnEnd t then some .turnOver else none
  | .afterTurns => if b.turnsLeft.any (· ≤ 0) then some .windowElapsed else none

def ending? (b : Buff) (t : Trigger) : Option Ending :=
  b.expires.bind fun e => b.expiring t e.kind

/-- Turns are counted down first, and a buff that expires is not used any more. -/
def fate (b : Buff) (t : Trigger) : Buff × Fate :=
  let later := b.countDown t
  let ending := if b.runsOut t then some .windowElapsed else later.ending? t
  (later, match ending with
    | some why => .expired why
    | none => if later.isUsableAt t then .ready else .pending)

/-- A knockout ends the buffs of both sides that are not carried over. That of nobody ends what
the opponent has, who is `you`. -/
def fateAtKnockout (b : Buff) (down : Option Side) : Fate :=
  if some b.owner = down then
    if b.carryOver.any (·.owner) then .pending else .expired .ownerDown
  else if b.owner = Side.opponentOf down then
    if b.carryOver.any (·.opponent) then .pending else .expired .opponentDown
  else .pending

/-- Buffs told apart by their fates, each kind in its old order. -/
structure Partition where
  ready : List Buff
  pending : List Buff
  expired : List (Buff × Ending)
  deriving Repr

namespace Partition

def ofFates (fates : List (Buff × Fate)) : Partition where
  ready := (fates.filter (·.2 = .ready)).map Prod.fst
  pending := (fates.filter (·.2 = .pending)).map Prod.fst
  expired := fates.filterMap fun (b, f) => match f with
    | .expired why => some (b, why)
    | _ => none

def ofTrigger (buffs : List Buff) (t : Trigger) : Partition := ofFates (buffs.map (·.fate t))

def ofKnockout (buffs : List Buff) (down : Option Side) : Partition :=
  ofFates (buffs.map fun b => (b, b.fateAtKnockout down))

end Partition

end Buff

end Duel
