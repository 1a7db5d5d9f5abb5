import Duel.Dice.Twister

namespace Duel.Dice

/-- Where dice come from. -/
class Source (G : Type) where
  /-- A number from one to the number of sides. -/
  die : Nat → G → Int × G

instance : Source Twister where
  die sides t :=
    let (r, t) := Twister.below sides Twister.patience t
    (r + 1, t)

variable {G : Type} [Source G]

/-- A die needs a side. -/
def rollDie (sides : Int) (g : G) : Option (Int × G) :=
  if sides ≤ 0 then none else some (Source.die sides.toNat g)

def roll (g : G) : Int × G := Source.die 6 g

def rollDice : Nat → G → List Int × G
  | 0, g => ([], g)
  | n + 1, g =>
    let (d, g) := roll g
    let (ds, g) := rollDice n g
    (d :: ds, g)

def reroll : List Int → List Bool → G → List Int × G
  | d :: dice, keep :: held, g =>
    let (d, g) := if keep then (d, g) else roll g
    let (ds, g) := reroll dice held g
    (d :: ds, g)
  | _, _, g => ([], g)

end Duel.Dice
