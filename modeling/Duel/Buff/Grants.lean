import Duel.Buff.Fate

namespace Duel

open Duel.Field

structure Grant.Context where
  attacker : Side
  defender : Side
  round : Int
  turn : String
  deriving DecidableEq, Repr

namespace Grant

def owner (g : Grant) (ctx : Context) : Side :=
  match g.target with
  | .self => ctx.defender
  | .opponent => ctx.attacker

def toBuff (g : Grant) (ctx : Context) (index : Nat) : Buff where
  id := "pdb_" ++ ctx.turn ++ "_" ++ toString index
  owner := g.owner ctx
  status := g.status
  count := g.count
  usable := g.usable
  stackCap := g.stackCap
  expires := g.expires
  cleansable := g.cleansable
  carryOver := g.carryOver
  turnsLeft := g.expires.bind (·.turnsLeft)
  made := ⟨ctx.round, ctx.turn⟩
  source := g.source

def toBuffs (grants : List Grant) (ctx : Context) : List Buff :=
  grants.zipIdx.filterMap fun (g, i) =>
    if g.usable = .immediate then none else some (g.toBuff ctx i)

/-- The buffs of grants in an attack by someone known by name. Where that is no side, there is
nobody but the defender to own a buff. -/
def buffsOfAttack (grants : List Grant) (attacker : String) (round : Int) (turn : String) :
    Except Invalid (List Buff) :=
  let side := Side.named.lookup attacker
  let defender := Side.opponentOf side
  let strays (g : Grant) : Bool := g.usable != .immediate && g.target == .opponent
  if side.isNone && grants.any strays then
    .error ⟨Buff.title, [⟨[.name "owner"], .notChoice⟩]⟩
  else .ok (toBuffs grants ⟨side.getD defender, defender, round, turn⟩)

end Grant

namespace Buff

variable {R : Type}

def origin (b : Buff) : Ledger Document :=
  .ofList (("buff_id", .text b.id) :: (b.source.map fun s => ("rule_id", .text s.rule)).toList)

/-- The count after use: caps bound what is added, and take nothing away. -/
def raise (b : Buff) (status : Status R) (before : Int) : Int :=
  let target := before + b.count
  let target := match b.stackCap with
    | some cap => min target cap
    | none => target
  let target := match status.maxStacks with
    | some most => min target most
    | none => target
  max before target

def apply (b : Buff) (held : Stacks) (reg : Registry R) : Traced Stacks :=
  match reg.get? b.status with
  | none => pure held
  | some status =>
    let before := held.count b.status
    let after := b.raise status before
    let cause : Cause :=
      { kind := .grant, owner := b.owner.name, phase := b.usable.name, source := b.origin }
    ⟨if 0 < after then held.put b.status after else held,
      Event.ofChange cause b.status before after⟩

end Buff

end Duel
