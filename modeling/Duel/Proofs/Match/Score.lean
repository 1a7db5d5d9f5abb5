import Duel.Match.Simulation
import Duel.Proofs.Match.Turns
import Duel.Proofs.Work
import Duel.Proofs.Match.Run

namespace Duel

def Player.bare (p : Player) : Player := { p with statuses := .empty }

theorem Side.of_both {P : Side → Prop} (side : Side) (h : P side) (h' : P side.other) (x : Side) :
    P x := by
  cases side <;> cases x <;> assumption

structure Score (R : Type) where
  settings : Settings R
  registry : Registry R
  /-- Without their stacks. -/
  players : Sides Player
  round : Int
  turns : Nat
  active : Side
  winner : Option Side
  startHp : Int
  upkeep : Int
  records : Option (List Record)

namespace Score

variable {R : Type}

def player (s : Score R) (side : Side) : Player := s.players.get side

def turn (s : Score R) : String := if s.turns = 0 then "" else "t" ++ toString s.turns

def opened (s : Score R) (side : Side) : Score R :=
  { s with
    active := side
    turns := s.turns + 1
    round := if side = .you ∨ s.round = 0 then s.round + 1 else s.round }

def ticked (s : Score R) (side : Side) (damage : Int) : Score R :=
  let hp := (s.player side).hp
  { s with
    players := s.players.set side { s.player side with hp := max 0 (hp - damage) }
    startHp := hp
    upkeep := hp - max 0 (hp - damage) }

def begun (s : Score R) (side : Side) (damage : Int) : Score R :=
  (s.opened side).ticked side damage

def enter (s : Score R) (r : Record) : Score R :=
  { s with records := s.records.map (· ++ [r]) }

def upkeepRecord (s : Score R) (side : Side) (outcome : Attack.Outcome) : Record where
  round := s.round
  turn := s.turn
  attacker := side
  defender := side.other
  damage := { tick := s.upkeep }
  attackerChange := (s.player side).hp - s.startHp
  outcome := outcome.name

def wonBy (s : Score R) (winner : Option Side) : Score R := { s with winner }

def fallen (s : Score R) (side : Side) : Score R :=
  if 0 < (s.player side).hp then s
  else (s.wonBy (some side.other)).enter (s.upkeepRecord side .attackerDefeated)

def hit (s : Score R) (side : Side) (res : Attack.Resolution) : Score R :=
  { s with players := (s.players.set side res.attacker.bare).set side.other res.defender.bare }

end Score

/-- The winner once a side may have gone down. -/
def Match.decided (down winner : Option Side) : Option Side := (down.map Side.other).or winner

namespace Score

variable {R : Type}

theorem player_begun_self (s : Score R) (side : Side) (d : Int) :
    (s.begun side d).player side =
      { s.player side with hp := max 0 ((s.player side).hp - d) } :=
  Sides.get_set_self _ _ _

theorem player_begun_other (s : Score R) (side : Side) (d : Int) :
    (s.begun side d).player side.other = s.player side.other :=
  Sides.get_set_other _ _ _

theorem player_hit_self (s : Score R) (side : Side) (res : Attack.Resolution) :
    (s.hit side res).player side = res.attacker.bare := by
  cases side <;> rfl

theorem player_hit_other (s : Score R) (side : Side) (res : Attack.Resolution) :
    (s.hit side res).player side.other = res.defender.bare := by
  cases side <;> rfl

theorem fallen_players (s : Score R) (side : Side) : (s.fallen side).players = s.players := by
  unfold fallen
  split <;> rfl

theorem fallen_winner (s : Score R) (side : Side) : (s.fallen side).winner =
    Match.decided (if 0 < (s.player side).hp then none else some side) s.winner := by
  unfold fallen
  split <;> rfl

end Score

namespace Match

variable {R G α : Type} {m m' : Match R G}

def score (m : Match R G) : Score R where
  settings := m.settings
  registry := m.registry
  players := ⟨m.players.you.bare, m.players.ai.bare⟩
  round := m.round
  turns := m.turns
  active := m.active
  winner := m.winner
  startHp := m.startHp
  upkeep := m.upkeep
  records := m.records

def table (m : Match R G) : Score R × Sides Player × List Buff × Cue.Desk R (Stage R) ×
    Sides (List Tick.Prompt) :=
  (m.score, m.players, m.buffs, m.desk, m.prompts)

@[simp] theorem player_score (m : Match R G) (side : Side) :
    m.score.player side = (m.player side).bare := by
  cases side <;> rfl

theorem hp_score (m : Match R G) (side : Side) : (m.score.player side).hp = (m.player side).hp := by
  rw [player_score]
  rfl

theorem score_holding (m : Match R G) (side : Side) (held : Stacks) :
    { m with players := m.players.set side { m.player side with statuses := held } }.score =
      m.score := by
  cases side <;> rfl

section Table

theorem tell_spares (x : Traced α) : Spares table (tell x : Step R G α) :=
  .change (fun _ => rfl) (.pure _)

theorem ofExcept_spares (x : Except Fault α) : Spares table (ofExcept x : Step R G α) := by
  cases x with
  | ok a => exact .pure a
  | error fault => exact .throw fault

theorem work_spares (x : Stacks.Work α) : Spares table (work x : Step R G α) :=
  (tell_spares _).bind fun _ => ofExcept_spares _

theorem digits_spares (n : Int) : Spares table (digits n : Step R G String) := ofExcept_spares _

theorem play_spares (x : Defense.Play α) : Spares table (play x : Step R G α) :=
  .read fun _ => (tell_spares _).bind fun _ => .change (fun _ => rfl) (ofExcept_spares _)

variable [Dice.Source G]

theorem rollDie_spares : Spares table (rollDie : Step R G Int) := fun _ => rfl

theorem rollFor_spares (side : Side) : Spares table (rollFor side : Step R G (List Int)) :=
  fun _ => rfl

theorem requests_spares (side : Side) :
    Spares table (requests side : Step R G (List Defense.Request)) := by
  refine .read fun m => .mapM (fun (status, rule, n) => ?_) _
  dsimp only
  split
  · exact rollDie_spares.bind fun _ => .pure _
  · exact .pure _

theorem defend_spares [Scalar R] (side : Side) (incoming : Int) (orders : Orders) :
    Spares table (defend side incoming orders : Step R G (Defense.Plan R)) := by
  unfold defend
  cases orders.defenseRoll with
  | some n => exact (Spares.pure n).bind fun _ => .read fun _ => play_spares _
  | none => exact rollDie_spares.bind fun _ => .read fun _ => play_spares _

end Table

section Kept

theorem spares_score {x : Step R G α} (h : Spares table x) : Spares score x := h.comp Prod.fst

theorem setStatuses_spares (side : Side) (held : Stacks) :
    Spares score (setStatuses side held : Step R G Unit) :=
  .modify fun m => score_holding m side held

theorem atDesk_spares (x : Cue.Desk.Work R (Stage R) Unit) :
    Spares score (atDesk x : Step R G Unit) := by
  intro m
  unfold Comes atDesk
  cases x m.desk <;> rfl

theorem trigger_spares (moment : Buff.Moment) (owner : Option Side) :
    Spares score (trigger moment owner : Step R G (List String)) := by
  refine .read fun m => (Spares.mapM (fun b => .read fun m => ?_) _).bind fun _ => ?_
  · exact (spares_score (tell_spares _)).bind fun _ => (setStatuses_spares _ _).bind fun _ =>
      .pure _
  · exact .change (fun _ => rfl) (.pure _)

theorem grantAll_spares (attacker : Side) (ability : Ability) :
    Spares score (grantAll attacker ability : Step R G Unit) := by
  refine (Spares.forIn (fun (id, n) _ => .read fun m => ?_) _ _).bind fun _ => .pure _
  cases m.registry.get? id with
  | none => exact (Spares.pure _).bind fun _ => .pure _
  | some status =>
    exact (Spares.read fun _ => (spares_score (tell_spares _)).bind fun _ =>
      setStatuses_spares _ _).bind fun _ => .pure _

theorem answerPrompt_spares [Dice.Source G] (side : Side) (id : String) (roll : Option Int) :
    Spares score (answerPrompt side id roll : Step R G (List String)) := by
  have hgiven (n : Int) : Spares score (answerPrompt side id (some n) : Step R G _) := by
    refine (Spares.pure n).bind fun n => .read fun m => ?_
    refine (spares_score (work_spares _)).bind fun out => .change (fun _ => rfl) ?_
    cases out with
    | none => exact .pure _
    | some out => exact (setStatuses_spares _ _).bind fun _ => .pure _
  cases roll with
  | some n => exact hgiven n
  | none => exact (spares_score rollDie_spares).bind hgiven

theorem answerAll_spares [Dice.Source G] (side : Side) (prompts : List Tick.Prompt) :
    Spares score (answerAll side prompts : Step R G (List String)) := by
  induction prompts with
  | nil => exact .pure _
  | cons prompt prompts ih =>
    exact (answerPrompt_spares _ _ _).bind fun _ => ih.bind fun _ => .pure _

variable [Scalar R]

theorem announce_spares (key : String) (cue : Cue R) :
    Spares score (announce key cue : Step R G Unit) :=
  .read fun _ => (spares_score (ofExcept_spares _)).bind fun _ => atDesk_spares _

theorem announceOutcome_spares (side : Side) (res : Attack.Resolution) :
    Spares score (announceOutcome side res : Step R G Unit) :=
  (spares_score (digits_spares _)).bind fun _ => (spares_score (digits_spares _)).bind fun _ =>
    announce_spares _ _

theorem announceTick_spares (side : Side) (tick : Tick.Outcome) :
    Spares score (announceTick side tick : Step R G Unit) :=
  (Spares.forIn (fun _ _ => (announce_spares _ _).bind fun _ => .pure _) _ _).bind fun _ =>
    (Spares.forIn (fun _ _ => (announce_spares _ _).bind fun _ => .pure _) _ _).bind fun _ =>
      .pure _

theorem spendAll_spares (side : Side) (damage : Int) (spends : Ledger Int) (held : Stacks) :
    Spares table (spendAll side damage spends held :
      Step R G (Stacks × List (Spend.Summary R))) := by
  refine .read fun m => .foldlM (fun p e => (work_spares _).bind fun out => ?_) _ _
  cases out <;> exact .pure _

theorem prepare_spares (side : Side) (ability : Ability) (orders : Orders) :
    Spares score (prepare side ability orders : Step R G (Int × List (Spend.Summary R))) :=
  .read fun _ => (spares_score (play_spares _)).bind fun _ =>
    (spares_score (spendAll_spares _ _ _ _)).bind fun _ => (setStatuses_spares _ _).bind fun _ =>
      (spares_score (digits_spares _)).bind fun _ => (announce_spares _ _).bind fun _ => .pure _

end Kept

section Turns

theorem keepUpkeep_score {side : Side} {outcome : Attack.Outcome} {a : Unit}
    (h : keepUpkeep side outcome m = .ok a m') :
    m'.score = m.score.enter (m.score.upkeepRecord side outcome) := by
  obtain ⟨_, _, hg, h⟩ := bind_ok h
  obtain ⟨rfl, rfl⟩ := get_ok hg
  obtain rfl := modify_ok h
  cases side <;> rfl

theorem knockOuts_score {down : Option Side} {a : PUnit}
    (h : down.forM (knockOut (R := R) (G := G)) m = .ok a m') :
    m'.score = m.score.wonBy (decided down m.winner) := by
  cases down with
  | none =>
    obtain ⟨-, rfl⟩ := pure_ok h
    rfl
  | some down =>
    obtain rfl := modify_ok h
    rfl

variable [Scalar R]

theorem endTurn_comes (m : Match R G) :
    Comes (endTurn : Step R G (List String)) m
      (fun _ u => u.score = { m.score with active := m.active.other })
      (fun u => ∃ active, u.score = { m.score with active }) := by
  refine Comes.get (Comes.bind (Q := fun _ u => u.score = m.score) ?_ fun _ u hu => ?_)
  · exact (trigger_spares .turnEnd (some m.active) m).mono (fun _ _ h => h) fun _ h => ⟨_, h⟩
  refine Comes.modify (Comes.get ?_)
  have ho : ({ u with active := Side.opponentOf (some m.active) } : Match R G).score =
      { m.score with active := m.active.other } :=
    congrArg (fun s => { s with active := m.active.other }) hu
  exact Comes.bind (Q := fun _ u => u.score = { m.score with active := m.active.other })
    ((atDesk_spares _ _).mono (fun _ _ h => h.trans ho) fun _ h => ⟨_, h.trans ho⟩)
    fun _ _ h => Comes.pure h

theorem takeTick_comes (side : Side) (m : Match R G) :
    Comes (takeTick side : Step R G Tick.Outcome) m
      (fun tick u => 0 ≤ tick.damage ∧ u.score = m.score.ticked side tick.damage)
      (fun u => u.score = m.score) := by
  refine Comes.get (Comes.bind (Q := fun tick u => 0 ≤ tick.damage ∧ u.score = m.score) ?_ ?_)
  · have hs : Spares score (work ((m.player side).statuses.tick m.registry (some side.name)) :
        Step R G Tick.Outcome) := spares_score (work_spares _)
    unfold Comes
    cases hx : work ((m.player side).statuses.tick m.registry (some side.name)) m with
    | error fault u => exact hs.error hx
    | ok tick u =>
      obtain ⟨es, hgives, -⟩ := work_ok hx
      exact ⟨Stacks.tick_damage_nonneg hgives, hs.ok hx⟩
  rintro tick u ⟨hd, hu⟩
  refine Comes.modify (Comes.modify (Comes.pure ⟨hd, ?_⟩))
  let hp := max 0 ((m.player side).hp - tick.damage)
  have hs : ({ u with
      players := u.players.set side { m.player side with statuses := tick.next, hp }
      startHp := (m.player side).hp
      upkeep := (m.player side).hp - hp
      prompts := u.prompts.set side tick.prompts } : Match R G).score =
        { u.score with
          players := u.score.players.set side { (m.player side).bare with hp }
          startHp := (m.player side).hp
          upkeep := (m.player side).hp - hp } := by
    cases side <;> rfl
  refine hs.trans ?_
  rw [hu, Score.ticked, player_score]
  rfl

theorem startTurn_score {side : Side} {logs : List String} (h : startTurn side m = .ok logs m') :
    ∃ d, 0 ≤ d ∧ m'.score = (m.score.begun side d).fallen side := by
  obtain ⟨o, ho⟩ := startTurn_stages h
  have hr : o.ready.score = m.score.opened side :=
    ((trigger_spares _ _).ok ho.late).trans (((trigger_spares _ _).ok ho.early).trans
      ((announce_spares _ _).ok ho.shows))
  obtain ⟨hd, ht⟩ := (takeTick_comes side o.ready).of_ok ho.ticks
  have ha : o.announced.score = m.score.begun side o.tick.damage := by
    rw [(announceTick_spares _ _).ok ho.announces, ht, hr]
    rfl
  refine ⟨o.tick.damage, hd, ?_⟩
  rw [← ha, Score.fallen, hp_score]
  obtain ⟨hp, rfl⟩ | ⟨hp, hk⟩ := ho.falls
  · rw [if_pos hp]
  · rw [if_neg hp, keepUpkeep_score hk]
    rfl

variable [Dice.Source G] {b : Blow R G} {s : Stages R G} {side : Side} {ability : Ability}
  {orders : Orders} {res : Attack.Resolution}

theorem Blow.Of.answered_score (h : b.Of side ability orders m) : b.answered.score = m.score := by
  rw [(trigger_spares _ _).ok h.answers, (prepare_spares _ _ _).ok h.prepares,
    (trigger_spares _ _).ok h.commits]

theorem Blow.Of.defended_score (h : b.Of side ability orders m) : b.defended.score = m.score :=
  ((spares_score (defend_spares _ _ _)).ok h.defends).trans h.answered_score

theorem Blow.Of.attacker (h : b.Of side ability orders m) :
    (b.context side ability).attacker.bare = m.score.player side := by
  rw [← h.defended_score, player_score]
  rfl

theorem Blow.Of.defender (h : b.Of side ability orders m) :
    (b.context side ability).defender.bare = m.score.player side.other := by
  obtain ⟨es, -, hp, -⟩ := defend_defends h.defends
  rw [← h.answered_score, player_score]
  change b.plan.defender.bare = _
  rw [hp]
  rfl

theorem Blow.Of.hit_score (h : b.Of side ability orders m) :
    (b.hit side).score = m.score.hit side b.resolution := by
  rw [← h.defended_score]
  cases side <;> rfl

theorem Blow.Of.lands [Scalar.Signed R] (h : b.Of side ability orders m) :
    ∃ damage blocked hurt back,
      Attack.dealt damage blocked (b.context side ability).defended = .ok hurt ∧ 0 ≤ back ∧
        Attack.Lands (b.context side ability) hurt back b.resolution := by
  obtain ⟨damage, blocked, hurt, back, hd, hr, l⟩ := Attack.resolve_lands h.resolves
  obtain ⟨base, fs, gs, es, hz, hplan, -⟩ := defend_plays h.defends
  obtain ⟨-, hret, -⟩ := Defense.plan_serves hplan
  refine ⟨damage, blocked, hurt, back, hd, Attack.recoil_nonneg (fun d hd => ?_) hr, l⟩
  cases hd
  exact hret.trans hz

theorem Stages.Of.score (h : s.Of side ability orders m res m') :
    m'.score = ((m.score.hit side s.resolution).wonBy
      (decided (Match.fallen side res.outcome) m.winner)).enter (s.record side ability) := by
  have ht : s.told.score = m.score.hit side s.resolution :=
    ((announceOutcome_spares _ _).ok h.tells).trans
      (((grantAll_spares _ _).ok h.grants).trans h.hit_score)
  have hw : s.told.winner = m.winner := congrArg Score.winner ht
  obtain rfl := modify_ok h.keeps
  change s.settled.score.enter _ = _
  rw [knockOuts_score h.fells, ht, hw, h.result]

end Turns

/-- The side that a call has brought down. -/
def Call.downs (c : Call R) (m : Match R G) (reply : Option Attack.Resolution) (m' : Match R G) :
    Option Side :=
  match c with
  | .startTurn side => if 0 < (m'.player side).hp then none else some side
  | .attack _ => reply.bind fun res => fallen m.active res.outcome
  | _ => none

variable [Scalar R]

theorem startTurn_winner {side : Side} {logs : List String} (h : startTurn side m = .ok logs m') :
    m'.winner = decided (if 0 < (m'.player side).hp then none else some side) m.winner := by
  obtain ⟨d, -, hs⟩ := startTurn_score h
  have hp : (m'.player side).hp = ((m.score.begun side d).player side).hp := by
    rw [← hp_score, hs, Score.player, Score.fallen_players]
    rfl
  rw [hp]
  exact (congrArg Score.winner hs).trans (Score.fallen_winner _ side)

variable [Dice.Source G]

theorem strike_winner {ability : Ability} {orders : Orders} {res : Attack.Resolution}
    (h : strike ability orders m = .ok res m') :
    m'.winner = decided (fallen m.active res.outcome) m.winner := by
  obtain ⟨s, hs⟩ := strike_iff.mp h
  exact congrArg Score.winner hs.score

theorem attack_winner {orders : Orders} {reply : Option Attack.Resolution}
    (h : attack orders m = .ok reply m') :
    m'.winner = decided (reply.bind fun res => fallen m.active res.outcome) m.winner := by
  obtain ⟨rfl, hk⟩ | ⟨ability, res, rfl, hs⟩ := attack_ok h
  · exact congrArg Score.winner (keepUpkeep_score hk)
  · exact strike_winner hs

/-- A call that brings a side down makes the other one the winner; no other call has a say. -/
theorem perform_winner {c : Call R} {reply : Option Attack.Resolution}
    (h : c.perform m = .ok reply m') :
    m'.winner = decided (c.downs m reply m') m.winner := by
  cases c with
  | attack orders => exact attack_winner h
  | startTurn side =>
    obtain ⟨-, _, hs⟩ := discard_bind_ok h
    exact startTurn_winner hs
  | answerPrompt side id roll =>
    obtain ⟨-, _, hs⟩ := discard_bind_ok h
    exact congrArg Score.winner ((answerPrompt_spares _ _ _).ok hs)
  | endTurn =>
    obtain ⟨-, _, hs⟩ := discard_bind_ok h
    exact congrArg Score.winner ((endTurn_comes m).of_ok hs)
  | cue r =>
    obtain ⟨_, _, ha, h⟩ := bind_ok h
    obtain ⟨-, rfl⟩ := pure_ok h
    exact congrArg Score.winner ((atDesk_spares _).ok ha)

end Match

end Duel
