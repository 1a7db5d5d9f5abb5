import Duel.Match.Basic

namespace Duel.Match

variable {R G : Type} [Scalar R]

/-- Moves on to a new turn of a side. A round starts with your turn, the first one with any. -/
def openTurn (side : Side) : Step R G Unit :=
  modify fun m => { m with
    active := side
    turns := m.turns + 1
    round := if side = .you ∨ m.round = 0 then m.round + 1 else m.round }

def takeTick (side : Side) : Step R G Tick.Outcome := do
  let m ← get
  let p := m.player side
  let tick ← work (p.statuses.tick m.registry (some side.name))
  let hp := max 0 (p.hp - tick.damage)
  setPlayer side { p with statuses := tick.next, hp }
  modify fun m => { m with
    startHp := p.hp
    upkeep := p.hp - hp
    prompts := m.prompts.set side tick.prompts }
  return tick

def announceTick (side : Side) (tick : Tick.Outcome) : Step R G Unit := do
  for line in tick.logs do
    announce (if tick.damage = 0 then "statusTick" else "statusDamage")
      { kind := .status, title := line, side, priority := some .normal }
  for prompt in tick.prompts do
    announce "statusPrompt"
      { kind := .prompt, title := "Cleanse " ++ prompt.id ++ "?", side, priority := some .high }

def startTurn (side : Side) : Step R G (List String) := do
  openTurn side
  let m ← get
  let name := (m.player side).hero.name
  announce "turn"
    { kind := .turn, title := name ++ "'s turn", side, priority := some .normal
      inTransition := true }
  let early ← trigger .turnStart side
  let buffs ← trigger .nextTurn side
  let tick ← takeTick side
  announceTick side tick
  let head := "[Turn] round " ++ toString m.round ++ " " ++ side.name ++ " (" ++ m.turn ++ ")"
  let logs := head :: early ++ buffs ++ tick.logs.map ("[Status] " ++ ·)
  if 0 < ((← get).player side).hp then return logs
  modify fun m => { m with winner := some side.other }
  keepUpkeep side .attackerDefeated
  return logs ++ ["[Turn] " ++ name ++ " falls to status damage"]

variable [Dice.Source G]

def answerPrompt (side : Side) (id : String) (roll : Option Int) : Step R G (List String) := do
  let roll ← match roll with
    | some n => pure n
    | none => rollDie
  let m ← get
  let out ← work ((m.player side).statuses.cleanse id roll m.registry (some side.name))
  modify fun m =>
    { m with prompts := m.prompts.set side ((m.prompts.get side).filter (·.id != id)) }
  match out with
  | none => return ["[Status] " ++ id ++ " cannot be cleansed"]
  | some out =>
    setStatuses side out.next
    return ["[Status] " ++ out.result.log]

omit [Dice.Source G] in
/-- Ends the turn of a side, or of nobody. It is the other side's, after a pause. -/
def closeTurn (owner : Option Side) : Step R G (List String) := do
  let logs ← trigger .turnEnd owner
  modify fun m => { m with active := Side.opponentOf owner }
  let delay := (← get).settings.turnEndDelay
  atDesk (Cue.Desk.pause (Scalar.ofInt delay) fun stage => { stage with paused := true })
  return logs

omit [Dice.Source G] in
def endTurn : Step R G (List String) := do closeTurn (← get).active

end Duel.Match
