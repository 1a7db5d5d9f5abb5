namespace Duel

/-- The patterns of dice that buy an ability. -/
inductive Combo
  | fiveOfAKind
  | fourOfAKind
  | fullHouse
  | threeOfAKind
  | twoPairs
  | smallStraight
  | largeStraight
  deriving DecidableEq, Repr

namespace Combo

def name : Combo → String
  | fiveOfAKind => "5OAK"
  | fourOfAKind => "4OAK"
  | fullHouse => "FULL_HOUSE"
  | threeOfAKind => "3OAK"
  | twoPairs => "PAIR_PAIR"
  | smallStraight => "SMALL_STRAIGHT"
  | largeStraight => "LARGE_STRAIGHT"

def all : List Combo :=
  [fiveOfAKind, fourOfAKind, fullHouse, threeOfAKind, twoPairs, smallStraight, largeStraight]

def named : List (String × Combo) := all.map fun c => (c.name, c)

def multiplicities (dice : List Int) : List Nat := dice.eraseDups.map fun d => dice.count d

def smallStraights : List (List Int) := [[1, 2, 3, 4], [2, 3, 4, 5], [3, 4, 5, 6]]

def largeStraights : List (List Int) := [[1, 2, 3, 4, 5], [2, 3, 4, 5, 6]]

def containsRun (runs : List (List Int)) (dice : List Int) : Bool :=
  runs.any fun run => run.all dice.contains

def holds (dice : List Int) : Combo → Bool
  | fiveOfAKind => (multiplicities dice).any (5 ≤ ·)
  | fourOfAKind => (multiplicities dice).any (4 ≤ ·)
  | fullHouse => (multiplicities dice).contains 3 && (multiplicities dice).contains 2
  | threeOfAKind => (multiplicities dice).any (3 ≤ ·)
  | twoPairs => decide (2 ≤ (multiplicities dice).count 2)
  | smallStraight => containsRun smallStraights dice
  | largeStraight => containsRun largeStraights dice

def detect (dice : List Int) : List Combo := all.filter (holds dice)

end Combo

end Duel
