import Duel.Event
import Duel.Fault
import Duel.Side
import Duel.Text.Template

namespace Duel

inductive Phase
  | upkeep
  | attackRoll
  | defenseRoll
  | resolve
  /-- A time that only the status itself knows of. -/
  | other (name : String)
  deriving DecidableEq, Repr

namespace Phase

def name : Phase → String
  | upkeep => "upkeep"
  | attackRoll => "attackRoll"
  | defenseRoll => "defenseRoll"
  | resolve => "resolve"
  | other name => name

def named : List (String × Phase) :=
  [upkeep, attackRoll, defenseRoll, resolve].map fun p => (p.name, p)

def ofName (name : String) : Phase := (named.lookup name).getD (other name)

end Phase

/-- The two halves of an attack that a passive status can bear on, or something else that it has
a name for. -/
inductive Stance
  | attack
  | defense
  | other (name : String)
  deriving DecidableEq, Repr

namespace Stance

def name : Stance → String
  | attack => "attack"
  | defense => "defense"
  | other name => name

def named : List (String × Stance) := [attack, defense].map fun s => (s.name, s)

def ofName (name : String) : Stance := (named.lookup name).getD (other name)

end Stance

namespace Spend

structure Context where
  phase : Phase
  roll : Option Int := none
  damage : Option Int := none
  block : Option Int := none
  deriving DecidableEq, Repr

structure Result (R : Type) where
  damage : Option Int := none
  block : Option Int := none
  negates : Bool := false
  success : Bool := true
  factor : Option R := none
  log : Option String := none
  deriving Repr

structure Rule (R : Type) where
  phases : List Phase
  cost : Int := 1
  needsRoll : Bool := false
  apply : Option (Context → Except Fault (Option (Result R))) := none

end Spend

namespace Tick

structure Result where
  next : Int
  damage : Int := 0
  log : Option String := none
  prompt : Bool := false
  deriving DecidableEq, Repr

end Tick

namespace Cleanse

structure Result where
  success : Bool
  next : Int
  log : String
  deriving DecidableEq, Repr

/-- How a status is rolled off. Without `resolve` a roll of at least `threshold` clears it. -/
structure Rule where
  threshold : Int
  resolve : Option (Int → Int → Except Fault Result) := none
  animation : Option Int := none

end Cleanse

namespace Modifier

/-- The attack that passive statuses bear on, with the names of its sides. -/
structure Context where
  stance : Stance
  attacker : String
  defender : String
  damage : Int
  block : Int
  deriving DecidableEq, Repr

structure Result where
  damage : Option Int := none
  block : Option Int := none
  log : Option String := none
  deriving DecidableEq, Repr

end Modifier

end Duel
