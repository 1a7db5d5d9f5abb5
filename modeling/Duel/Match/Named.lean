import Duel.Match.Simulation

namespace Duel

/-- A match, and the name that the turn was opened in if it is no side's. -/
structure Match.Named (R G : Type) where
  core : Match R G
  stranger : Option String := none

namespace Match.Named

variable {R G : Type}

abbrev Step (R G α : Type) := EStateM Fault (Named R G) α

def active (m : Named R G) : String := m.stranger.getD m.core.active.name

def within {α : Type} (x : Match.Step R G α) : Step R G α := fun m =>
  match x m.core with
  | .ok a core => .ok a { m with core }
  | .error fault core => .error fault { m with core }

/-- Takes a step for the side of a name, or else the one that is in vain. -/
def forSide {α : Type} (name : String) (vain : Match.Step R G Unit)
    (x : Side → Match.Step R G α) : Step R G α :=
  within <|
    match Side.named.lookup name with
    | some side => x side
    | none => do
      vain
      throw (.unknownSide name)

def setPlayer (name : String) (change : Player → Player) : Step R G Unit :=
  forSide name (pure ()) fun side => do
    Match.setPlayer side (change ((← get).player side))

variable [Scalar R]

/-- Begins a turn in a name. The first turn begins a round whoever it is for. -/
def startTurn (name : String) : Step R G (List String) := do
  match Side.named.lookup name with
  | some side =>
    modify fun m => { m with stranger := none }
    within (Match.startTurn side)
  | none =>
    modify fun m => { m with stranger := some name }
    forSide name (openTurn .ai) Match.startTurn

/-- Ends the turn; after one in nobody's name it is yours. -/
def endTurn : Step R G (List String) := do
  let m ← get
  set { m with stranger := none }
  within (closeTurn (if m.stranger.isSome then none else m.core.active))

variable [Dice.Source G]

def answerPrompt (name id : String) (roll : Option Int) : Step R G (List String) :=
  forSide name (if roll.isNone then discard rollDie else pure ())
    fun side => Match.answerPrompt side id roll

def attack (orders : Orders) : Step R G (Option Attack.Resolution) := do
  match (← get).stranger with
  | some name => throw (.unknownSide name)
  | none => within (Match.attack orders)

def rollFor (name : String) : Step R G (List Int) :=
  forSide name (modify fun m => { m with dice := (Dice.rollDice dicePerRoll m.dice).2 })
    Match.rollFor

def requests (name : String) : Step R G (List Defense.Request) :=
  forSide name (pure ()) Match.requests

/-- Plays for so many turns at most; the first of them is opened in the name that is there. -/
def simulate (turns : Nat) : Step R G (List String) := do
  match (← get).stranger with
  | some name => if turns = 0 then within (Match.simulate 0) else startTurn name
  | none => within (Match.simulate turns)

end Match.Named

end Duel
