import Duel.Status.Basic

namespace Duel

structure Bonus where
  damage : Option Int := none
  block : Option Int := none
  log : Option String := none
  deriving DecidableEq, Repr

structure BonusPool where
  attack : Option Bonus := none
  defense : Option Bonus := none
  deriving DecidableEq, Repr

/-- A roll against a threshold, made before any block is known. -/
structure Reaction (R : Type) where
  dieSize : Int := 6
  threshold : Int
  negates : Bool := false
  successBlock : Option Int := none
  failureBlock : Option Int := none
  successLog : Option String := none
  failureLog : Option String := none
  successFactor : Option R := none
  failureFactor : Option R := none
  deriving Repr

/-- Damage by the number of stacks, which then wear off. -/
structure Affliction (R : Type) where
  tiers : List Int := []
  decay : R
  promptOnDamage : Bool := false
  deriving Repr

/-- The ways in which a status can work without a hook of its own. -/
inductive Behavior (R : Type)
  | bonusPool (pool : BonusPool)
  | reaction (reaction : Reaction R)
  | affliction (affliction : Affliction R)
  | script
  deriving Repr

def orElse (log : Option String) (fallback : String) : String :=
  (Event.spoken log).getD fallback

namespace Bonus

def gain (field : Bonus → Option Int) (b : Option Bonus) : Option (Bonus × Int) := do
  let b ← b
  let n ← field b
  if n = 0 then none else return (b, n)

def line (b : Bonus) (name : String) (n : Int) (what : String) : Except Double.Fault String :=
  match Event.spoken b.log with
  | some log => .ok log
  | none => do return name ++ " -> +" ++ (← Number.digits n) ++ " " ++ what

end Bonus

namespace BonusPool

def spend {R : Type} (pool : BonusPool) (name : String) (phase : Phase) :
    Except Double.Fault (Option (Spend.Result R)) :=
  match phase with
  | .attackRoll => (Bonus.gain (·.damage) pool.attack).mapM fun (b, n) => do
    return { damage := n, log := ← b.line name n "damage" }
  | .defenseRoll => (Bonus.gain (·.block) pool.defense).mapM fun (b, n) => do
    return { block := n, log := ← b.line name n "block" }
  | _ => .ok none

end BonusPool

namespace Reaction

variable {R : Type} [Scalar R]

/-- A factor that content gives, brought between zero and one; no number at all changes nothing. -/
def clampFactor (x : R) : R :=
  Scalar.clampUnit (if Scalar.isFinite x then x else Scalar.one)

def logLine (log : Option String) (name roll : String) (fallback : String) : String :=
  orElse (log.map fun t => Text.fill t [("name", name), ("roll", roll)]) fallback

/-- Whether the threshold has to be known. Nothing is held against it where a roll is needed and
missing. -/
def asksThreshold (needsRoll : Bool) (roll : Option Int) : Bool := !(needsRoll && roll.isNone)

def outcome (r : Reaction R) (name : String) (roll : Int) (digits : String) : Spend.Result R :=
  let rolled := "(roll " ++ digits ++ ")"
  if r.threshold ≤ roll then {
    success := true
    negates := r.negates
    block := r.successBlock
    factor := r.successFactor.map clampFactor
    log := logLine r.successLog name digits
      (name ++ " success " ++ rolled ++ " -> attack negated") }
  else {
    success := false
    block := r.failureBlock
    factor := r.failureFactor.map clampFactor
    log := logLine r.failureLog name digits (name ++ " failed " ++ rolled) }

/-- Without a roll the threshold itself is taken, unless a roll is needed. Whatever the text is, the
roll is written for it. -/
def spend (r : Reaction R) (name : String) (needsRoll : Bool) (roll : Option Int) :
    Except Double.Fault (Option (Spend.Result R)) :=
  if !asksThreshold needsRoll roll then .ok none
  else
    let roll := roll.getD r.threshold
    (Number.digits roll).map fun digits => some (r.outcome name roll digits)

end Reaction

namespace Affliction

variable {R : Type} [Scalar R]

def damage (a : Affliction R) (count : Int) : Int :=
  if 0 < count then a.tiers.getD (min count.toNat a.tiers.length - 1) 0 else 0

def line (name : String) (count damage : Int) : Except Double.Fault String := do
  return name ++ " " ++ (← Number.digits count) ++ " -> " ++ (← Number.digits damage) ++ " dmg"

def tick (a : Affliction R) (name : String) (count : Int) : Except Double.Fault Tick.Result := do
  let current := max 0 count
  let damage := a.damage current
  let decay ← Scalar.roundHalfUp a.decay
  let next := max 0 (current - max 0 decay)
  let hurts := decide (0 < damage)
  let prompt := hurts && (a.promptOnDamage || decide (0 < next))
  let log ← if hurts then some <$> line name current damage else .ok none
  return { next, damage, prompt, log }

end Affliction

namespace Behavior

variable {R : Type} [Scalar R]

def id : Behavior R → String
  | bonusPool _ => "bonus_pool"
  | reaction _ => "pre_defense_reaction"
  | affliction _ => "damage_over_time"
  | script => "custom_script"

def ids : List String :=
  ["bonus_pool", "pre_defense_reaction", "damage_over_time", "custom_script"]

def spend (b : Behavior R) (name : String) (needsRoll : Bool) (ctx : Spend.Context)
    (phase : Phase) : Except Double.Fault (Option (Spend.Result R)) :=
  match b with
  | bonusPool pool => pool.spend name phase
  | reaction r => r.spend name needsRoll ctx.roll
  | affliction _ | script => .ok none

def tick (b : Behavior R) (name : String) (count : Int) :
    Except Double.Fault (Option Tick.Result) :=
  match b with
  | affliction a => (a.tick name count).map some
  | bonusPool _ | reaction _ | script => .ok none

end Behavior

end Duel
