import Duel.Hero

namespace Duel.Dice

def holdAll (dice : List Int) : List Bool := dice.map fun _ => true

/-- Whether face `a` came up oftener than `b`; of two equals the higher face counts. -/
def outnumbers (dice : List Int) (a b : Int) : Bool :=
  decide (dice.count b < dice.count a) || (dice.count a == dice.count b && decide (b < a))

def mostFrequent? : List Int → Option Int
  | [] => none
  | d :: rest =>
    some (rest.foldl (fun best e => if outnumbers (d :: rest) e best then e else best) d)

def holdMostFrequent (dice : List Int) : List Bool :=
  dice.map fun d => mostFrequent? dice == some d

def holdStraightPieces (dice : List Int) : List Bool :=
  dice.map fun d => decide (2 ≤ d ∧ d ≤ 6)

def straightPotential (dice : List Int) : Bool :=
  Combo.containsRun (Combo.smallStraights ++ Combo.largeStraights) dice

/-- The dice to keep before the last roll for an ability that is good enough. -/
def settled (dice : List Int) (best : Ability) : Option (List Bool) :=
  match best.combo with
  | .fullHouse | .largeStraight => some (holdAll dice)
  | .fourOfAKind => some (holdMostFrequent dice)
  | _ => none

def huntStraight (hero : Hero) (dice : List Int) (remaining : Int) (statuses : Stacks) :
    List Bool :=
  match (if remaining = 1 then (hero.best dice).bind (settled dice) else none) with
  | some held => held
  | none =>
    if (statuses.get? "evasive").getD 0 ≤ 0 && straightPotential dice then holdStraightPieces dice
    else if Combo.largeStraight.holds dice then holdAll dice
    else holdMostFrequent dice

/-- Which dice a hero keeps; with no roll remaining, all. -/
def hold (hero : Hero) (dice : List Int) (remaining : Int) (statuses : Stacks) : List Bool :=
  if remaining ≤ 0 then holdAll dice
  else
    match hero.strategy with
    | .mostFrequent => holdMostFrequent dice
    | .straightHunter => huntStraight hero dice remaining statuses

end Duel.Dice
