import Duel.Dice.Hold
import Duel.Match.Attack
import Duel.Match.Turn

namespace Duel.Match

variable {R G : Type} [Scalar R] [Dice.Source G]

def rollsPerTurn : Nat := 3

def dicePerRoll : Nat := 5

def rerolls (p : Player) : Nat → List Int → G → List Int × G
  | 0, dice, g => (dice, g)
  | left + 1, dice, g =>
    let held := Dice.hold p.hero dice (left + 1) p.statuses
    if held.all id then (dice, g)
    else
      let (dice, g) := Dice.reroll dice held g
      rerolls p left dice g

def rollFor (side : Side) : Step R G (List Int) :=
  modifyGet fun m =>
    let (dice, g) := Dice.rollDice dicePerRoll m.dice
    let (dice, g) := rerolls (m.player side) (rollsPerTurn - 1) dice g
    (dice, { m with dice := g })

def spendable (m : Match R G) (side : Side) (phase : Phase) :
    List (Status R × Spend.Rule R × Int) :=
  m.registry.list.filterMap fun status => do
    let rule ← status.spend
    let n := (m.player side).statuses.count status.id
    if 0 < n && rule.phases.contains phase then some (status, rule, n) else none

/-- Asks for everything that can be spent: once with a die, or else as often as possible. -/
def requests (side : Side) : Step R G (List Defense.Request) := do
  (spendable (← get) side .defenseRoll).mapM fun (status, rule, n) => do
    if rule.needsRoll then return { status := status.id, roll := some (← rollDie) }
    else return { status := status.id, attempts := n }

def attackSpends (m : Match R G) (side : Side) : Ledger Int :=
  .ofList ((spendable m side .attackRoll).map fun (status, _, n) => (status.id, n))

def answerAll (side : Side) : List Tick.Prompt → Step R G (List String)
  | [] => return []
  | prompt :: rest => do
    let logs ← answerPrompt side prompt.id none
    return logs ++ (← answerAll side rest)

def diceText (dice : List Int) : String := "[" ++ ", ".intercalate (dice.map toString) ++ "]"

/-- The attack of a turn. The flag tells whether the match goes on. -/
def playAttack (side : Side) : Step R G (List String × Bool) := do
  let dice ← rollFor side
  let m ← get
  let orders : Orders :=
    { dice, spends := attackSpends m side, requests := ← requests side.other }
  let line := "[Turn] " ++ (m.player side).hero.name ++ " rolls " ++ diceText dice
  match ← attack orders with
  | none => return ([line ++ ": no ability"], true)
  | some res => return (line :: res.logs, res.outcome = .goesOn)

def playTurn : Step R G (List String × Bool) := do
  let side := (← get).active
  let opening ← startTurn side
  let m ← get
  if m.winner.isSome then return (opening, false)
  let answers ← answerAll side (m.prompts.get side)
  let (fight, goesOn) ← playAttack side
  if !goesOn then return (opening ++ answers ++ fight, false)
  let closing ← endTurn
  ask (.advance (Scalar.ofInt m.settings.turnEndDelay))
  return (opening ++ answers ++ fight ++ closing, true)

def playTurns : Nat → Step R G (List String)
  | 0 => return []
  | left + 1 => do
    let (logs, goesOn) ← playTurn
    if goesOn then return logs ++ (← playTurns left) else return logs

omit [Scalar R] [Dice.Source G] in
/-- Adds what a step tells to the trace, even if the step fails. -/
def traced {α : Type} (x : Step R G α) : Step R G α := fun m =>
  let note (later : Match R G) : Match R G :=
    { later with
      trace := later.trace ++
        (later.history.drop m.history.length).filterMap fun e => e.line.toOption }
  match x m with
  | .ok a later => .ok a (note later)
  | .error fault later => .error fault (note later)

def usualTurns : Nat := 60

def simulate (turns : Nat) : Step R G (List String) := do
  let logs ← traced (playTurns turns)
  let m ← get
  let verdict := match m.winner with
    | some side => "[Duel] winner: " ++ (m.player side).hero.name
    | none => "[Duel] no winner"
  return logs ++ [verdict]

end Duel.Match
