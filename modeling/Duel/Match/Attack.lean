import Duel.Match.Basic

namespace Duel

structure Match.Orders where
  dice : List Int
  /-- The pattern to use, or the best one. -/
  combo : Option String := none
  spends : Ledger Int := .empty
  defenseRoll : Option Int := none
  requests : List Defense.Request := []
  grants : List Grant := []

namespace Match

variable {R G : Type}

def choose (hero : Hero) (orders : Orders) : Except Fault (Option Ability) :=
  match Event.spoken orders.combo with
  | some combo => hero.selected orders.dice combo
  | none => .ok (hero.best orders.dice)

def grantAll (attacker : Side) (ability : Ability) : Step R G Unit := do
  for (id, n) in ability.grants.entries do
    match (← get).registry.get? id with
    | none => pure ()
    | some status =>
      grant (if status.kind = .negative then attacker.other else attacker) id n ability.combo

def knockOut (down : Side) : Step R G Unit :=
  modify fun m => { m with
    winner := some down.other
    buffs := (Buff.Partition.ofKnockout m.buffs (some down)).pending }

def fallen (attacker : Side) : Attack.Outcome → Option Side
  | .goesOn => none
  | .attackerDefeated => some attacker
  | .defenderDefeated => some attacker.other

variable [Scalar R]

def spendAll (side : Side) (damage : Int) (spends : Ledger Int) (held : Stacks) :
    Step R G (Stacks × List (Spend.Summary R)) := do
  let reg := (← get).registry
  spends.entries.foldlM (fun (held, summaries) (id, attempts) => do
    match ← work (held.spendMany id attempts .attackRoll (fun _ ctx => ctx)
        (some { phase := .attackRoll, damage := some damage }) reg (some side.name)) with
    | none => return (held, summaries)
    | some out => return (out.next, summaries ++ [out.summary])) (held, [])

def prepare (side : Side) (ability : Ability) (orders : Orders) :
    Step R G (Int × List (Spend.Summary R)) := do
  let m ← get
  let held := (m.player side).statuses
  let modified ← play (Defense.reckon (held.modify
    ⟨.attack, side.name, side.other.name, ability.damage, 0⟩ m.registry))
  let damage := modified.context.damage
  let (held, spends) ← spendAll side damage orders.spends held
  setStatuses side held
  let name := (m.player side).hero.name
  announce "attackTelegraph"
    { kind := .attack, title := name ++ ": " ++ ability.displayName
      subtitle := (← digits damage) ++ " dmg", side, priority := some .normal }
  return (damage, spends)

def announceOutcome (side : Side) (res : Attack.Resolution) : Step R G Unit := do
  let lethal := res.outcome ≠ .goesOn
  announce (if lethal then "defenseSummaryLethal" else "defenseSummary")
    { kind := .defense, title := (← digits res.summary.dealt) ++ " dmg"
      subtitle := "blocked " ++ (← digits res.summary.blocked), side
      priority := some (if lethal then .urgent else .normal) }

/-- The record of an attack; `before` is the defender at the time of the defence roll. -/
def recordOf (m : Match R G) (ability : Ability) (damage : Int) (before : Player)
    (spends : List (Spend.Summary R)) (res : Attack.Resolution) : Record where
  round := m.round
  turn := m.turn
  attacker := res.attacker.side
  defender := res.defender.side
  ability := ability.combo.name
  baseDamage := ability.damage
  damage := {
    base := damage, bonus := res.summary.damage - damage, blocked := res.summary.blocked
    dealt := res.summary.dealt, reflected := res.summary.reflected, tick := m.upkeep }
  attackerChange := res.attacker.hp - m.startHp
  defenderChange := res.defender.hp - before.hp
  spent := .ofList (spends.map fun s => (s.id, s.spent))
  negated := res.summary.negated
  outcome := res.outcome.name

variable [Dice.Source G]

def defend (side : Side) (incoming : Int) (orders : Orders) : Step R G (Defense.Plan R) := do
  let roll ← match orders.defenseRoll with
    | some n => pure n
    | none => rollDie
  let m ← get
  let values := (m.player side).hero.defend roll
  play (Defense.plan (m.player side) side.other incoming {
    roll := some roll, block := values.block, reflect := values.reflect, heal := values.heal
    retaliate := Scalar.zero, grants := orders.grants
    label := some ("roll " ++ toString roll) } orders.requests m.registry)

def strike (ability : Ability) (orders : Orders) : Step R G Attack.Resolution := do
  let side := (← get).active
  let commits ← trigger .nextAttackCommit side
  let (damage, spends) ← prepare side ability orders
  let answers ← trigger .nextDefenseCommit side.other
  let before := (← get).player side.other
  let plan ← defend side.other (damage + total (spends.map (·.damage))) orders
  let m ← get
  let res ← ofExcept ((Attack.resolve {
    attackerSide := side, defenderSide := side.other
    attacker := m.player side, defender := plan.defender, damage, ability, spends
    defense := plan.resolution, delay := m.settings.turnEndDelay }).mapError Fault.number)
  setPlayer side res.attacker
  setPlayer side.other res.defender
  grantAll side ability
  modify fun m =>
    { m with buffs := m.buffs ++ Grant.toBuffs orders.grants ⟨side, side.other, m.round, m.turn⟩ }
  announceOutcome side.other res
  (fallen side res.outcome).forM knockOut
  keep (recordOf m ability damage before (spends ++ plan.resolution.spends) res)
  return { res with logs := commits ++ answers ++ res.logs }

def attack (orders : Orders) : Step R G (Option Attack.Resolution) := do
  let m ← get
  match ← ofExcept (choose (m.player m.active).hero orders) with
  | none =>
    keepUpkeep m.active .goesOn
    return none
  | some ability => return some (← strike ability orders)

end Match

end Duel
