import Duel.Match.Attack
import Duel.Match.Turn
import Duel.Proofs.Match.Step
import Duel.Proofs.Attack

namespace Duel.Match

variable {R G : Type}

/-- The stages of a turn that begins, and the match after each of them. -/
structure Opening (R G : Type) where
  shown : Match R G
  used : List String
  started : Match R G
  gained : List String
  ready : Match R G
  tick : Tick.Outcome
  ticked : Match R G
  announced : Match R G

def opened (m : Match R G) (side : Side) : Match R G :=
  { m with
    active := side
    turns := m.turns + 1
    round := if side = .you ∨ m.round = 0 then m.round + 1 else m.round }

/-- A turn of a side begins in these stages; in the end the side may have fallen. -/
structure Opening.Of [Scalar R] (o : Opening R G) (side : Side) (m m' : Match R G) : Prop where
  shows : announce "turn"
    { kind := .turn, title := (m.player side).hero.name ++ "'s turn", side
      priority := some .normal, inTransition := true } (m.opened side) = .ok () o.shown
  early : trigger .turnStart side o.shown = .ok o.used o.started
  late : trigger .nextTurn side o.started = .ok o.gained o.ready
  ticks : takeTick side o.ready = .ok o.tick o.ticked
  announces : announceTick side o.tick o.ticked = .ok () o.announced
  falls : 0 < (o.announced.player side).hp ∧ o.announced = m' ∨
    ¬0 < (o.announced.player side).hp ∧
      keepUpkeep side .attackerDefeated { o.announced with winner := some side.other } = .ok () m'

theorem startTurn_stages [Scalar R] {side : Side} {m m' : Match R G} {logs : List String}
    (h : startTurn side m = .ok logs m') : ∃ o : Opening R G, o.Of side m m' := by
  unfold startTurn at h
  obtain ⟨_, _, h₁, h⟩ := bind_ok h
  obtain rfl := modify_ok h₁
  obtain ⟨_, _, hg, h⟩ := bind_ok h
  obtain ⟨rfl, rfl⟩ := get_ok hg
  obtain ⟨_, m₂, h₂, h⟩ := bind_ok h
  obtain ⟨early, m₃, h₃, h⟩ := bind_ok h
  obtain ⟨late, m₄, h₄, h⟩ := bind_ok h
  obtain ⟨tick, m₅, h₅, h⟩ := bind_ok h
  obtain ⟨_, m₆, h₆, h⟩ := bind_ok h
  obtain ⟨_, _, hg, h⟩ := bind_ok h
  obtain ⟨rfl, rfl⟩ := get_ok hg
  refine ⟨⟨m₂, early, m₃, late, m₄, tick, m₅, m₆⟩, h₂, h₃, h₄, h₅, h₆, ?_⟩
  by_cases hp : 0 < (m₆.player side).hp
  · simp only [hp, if_true] at h
    exact .inl ⟨hp, (pure_ok h).2⟩
  · simp only [hp, if_false] at h
    obtain ⟨_, _, h₇, h⟩ := bind_ok h
    obtain rfl := modify_ok h₇
    obtain ⟨_, _, h₈, h⟩ := bind_ok h
    obtain ⟨-, rfl⟩ := pure_ok h
    exact .inr ⟨hp, h₈⟩

def withBuffs (m : Match R G) (buffs : List Buff) : Match R G := { m with buffs }

/-- The stages of an attack with an ability up to the blow, and the match after each of them. -/
structure Blow (R G : Type) where
  commits : List String
  committed : Match R G
  damage : Int
  spends : List (Spend.Summary R)
  prepared : Match R G
  answers : List String
  answered : Match R G
  plan : Defense.Plan R
  defended : Match R G
  resolution : Attack.Resolution

namespace Blow

def hit (b : Blow R G) (side : Side) : Match R G :=
  { b.defended with
    players := (b.defended.players.set side b.resolution.attacker).set side.other
      b.resolution.defender }

def context (b : Blow R G) (side : Side) (ability : Ability) : Attack.Context R where
  attackerSide := side
  defenderSide := side.other
  attacker := b.defended.player side
  defender := b.plan.defender
  damage := b.damage
  ability
  spends := b.spends
  defense := b.plan.resolution
  delay := b.defended.settings.turnEndDelay

def record (b : Blow R G) (side : Side) (ability : Ability) : Record :=
  recordOf b.defended ability b.damage (b.answered.player side.other)
    (b.spends ++ b.plan.resolution.spends) b.resolution

/-- An attack of a side comes to a blow in these stages. -/
structure Of [Scalar R] [Dice.Source G] (b : Blow R G) (side : Side) (ability : Ability)
    (orders : Orders) (m : Match R G) : Prop where
  commits : trigger .nextAttackCommit side m = .ok b.commits b.committed
  prepares : prepare side ability orders b.committed = .ok (b.damage, b.spends) b.prepared
  answers : trigger .nextDefenseCommit side.other b.prepared = .ok b.answers b.answered
  defends : defend side.other (b.damage + total (b.spends.map (·.damage))) orders b.answered =
    .ok b.plan b.defended
  resolves : Attack.resolve (b.context side ability) = .ok b.resolution

end Blow

/-- The stages that an attack with an ability goes through, and the match after each of them. -/
structure Stages (R G : Type) extends Blow R G where
  granted : Match R G
  told : Match R G
  settled : Match R G

namespace Stages

def buffed (s : Stages R G) (side : Side) (grants : List Grant) : Match R G :=
  s.granted.withBuffs (s.granted.buffs ++
    Grant.toBuffs grants ⟨side, side.other, s.granted.round, s.granted.turn⟩)

/-- An attack of a side with an ability goes through these stages. -/
structure Of [Scalar R] [Dice.Source G] (s : Stages R G) (side : Side) (ability : Ability)
    (orders : Orders) (m : Match R G) (res : Attack.Resolution) (m' : Match R G) : Prop
    extends s.toBlow.Of side ability orders m where
  grants : grantAll side ability (s.hit side) = .ok () s.granted
  tells : announceOutcome side.other s.resolution (s.buffed side orders.grants) = .ok () s.told
  fells : (fallen side s.resolution.outcome).forM knockOut s.told = .ok ⟨⟩ s.settled
  keeps : keep (s.record side ability) s.settled = .ok () m'
  result : res = { s.resolution with logs := s.commits ++ s.answers ++ s.resolution.logs }

end Stages

section Struck

variable [Scalar R] [Dice.Source G]

theorem strike_iff {ability : Ability} {orders : Orders} {m m' : Match R G}
    {res : Attack.Resolution} : strike ability orders m = .ok res m' ↔
      ∃ s : Stages R G, s.Of m.active ability orders m res m' := by
  constructor
  · intro h
    unfold strike at h
    obtain ⟨_, _, hg, h⟩ := bind_ok h
    obtain ⟨rfl, rfl⟩ := get_ok hg
    obtain ⟨commits, m₁, h₁, h⟩ := bind_ok h
    obtain ⟨⟨damage, spends⟩, m₂, h₂, h⟩ := bind_ok h
    obtain ⟨answers, m₃, h₃, h⟩ := bind_ok h
    obtain ⟨_, _, hg, h⟩ := bind_ok h
    obtain ⟨rfl, rfl⟩ := get_ok hg
    obtain ⟨plan, m₄, h₄, h⟩ := bind_ok h
    obtain ⟨_, _, hg, h⟩ := bind_ok h
    obtain ⟨rfl, rfl⟩ := get_ok hg
    obtain ⟨r, _, hr, h⟩ := bind_ok h
    obtain ⟨he, rfl⟩ := ofExcept_ok hr
    obtain ⟨_, _, h₅, h⟩ := bind_ok h
    obtain rfl := setPlayer_ok h₅
    obtain ⟨_, _, h₆, h⟩ := bind_ok h
    obtain rfl := setPlayer_ok h₆
    obtain ⟨_, m₇, h₇, h⟩ := bind_ok h
    obtain ⟨_, _, h₈, h⟩ := bind_ok h
    obtain rfl := modify_ok h₈
    obtain ⟨_, m₉, h₉, h⟩ := bind_ok h
    obtain ⟨_, m₁₀, h₁₀, h⟩ := bind_ok h
    obtain ⟨_, m₁₁, h₁₁, h⟩ := bind_ok h
    obtain ⟨hres, rfl⟩ := pure_ok h
    exact ⟨⟨⟨commits, m₁, damage, spends, m₂, answers, m₃, plan, m₄, r⟩, m₇, m₉, m₁₀⟩,
      ⟨h₁, h₂, h₃, h₄, mapError_ok he⟩, h₇, h₉, h₁₀, h₁₁, hres.symm⟩
  · rintro ⟨s, h⟩
    have hr : ofExcept ((Attack.resolve (s.context m.active ability)).mapError Fault.number)
        s.defended = .ok s.resolution s.defended := by
      rw [h.resolves]
      rfl
    unfold strike
    refine (get_bind _ m).trans ((bind_of_ok h.commits _).trans ?_)
    refine (bind_of_ok h.prepares _).trans ((bind_of_ok h.answers _).trans ?_)
    refine (get_bind _ _).trans ((bind_of_ok h.defends _).trans ?_)
    refine (get_bind _ _).trans ((bind_of_ok hr _).trans ?_)
    refine (modify_bind _ _ _).trans ((modify_bind _ _ _).trans ?_)
    refine (bind_of_ok h.grants _).trans ((modify_bind _ _ _).trans ?_)
    refine (bind_of_ok h.tells _).trans ((bind_of_ok h.fells _).trans ?_)
    refine (bind_of_ok h.keeps _).trans ?_
    rw [h.result]
    rfl

theorem attack_ok {orders : Orders} {m m' : Match R G} {reply : Option Attack.Resolution}
    (h : attack orders m = .ok reply m') :
    reply = none ∧ keepUpkeep m.active .goesOn m = .ok () m' ∨
      ∃ ability res, reply = some res ∧ strike ability orders m = .ok res m' := by
  obtain ⟨_, _, hg, h⟩ := bind_ok h
  obtain ⟨rfl, rfl⟩ := get_ok hg
  obtain ⟨ability, _, hc, h⟩ := bind_ok h
  obtain ⟨-, rfl⟩ := ofExcept_ok hc
  cases ability with
  | none =>
    obtain ⟨_, _, hk, h⟩ := bind_ok h
    obtain ⟨rfl, rfl⟩ := pure_ok h
    exact .inl ⟨rfl, hk⟩
  | some ability =>
    obtain ⟨res, _, hs, h⟩ := bind_ok h
    obtain ⟨rfl, rfl⟩ := pure_ok h
    exact .inr ⟨ability, res, rfl, hs⟩

end Struck

open Board (Leads Move)
open Stacks (Changes)

variable {m m' : Match R G}

def commits (b : Board R) : List Deed :=
  [.trigger (b.now .nextAttackCommit b.active), .trigger (b.now .nextDefenseCommit b.active.other)]

def bornIn (b : Board R) (orders : Orders) : List Buff :=
  Grant.toBuffs orders.grants ⟨b.active, b.active.other, b.round, b.turn⟩

def aftermath (b : Board R) (res : Attack.Resolution) : List Deed :=
  (fallen b.active res.outcome).toList.map .knockout

def attackDeeds (b : Board R) (orders : Orders) (res : Attack.Resolution) : List Deed :=
  commits b ++ .made (bornIn b orders) :: aftermath b res

def openingDeeds (b : Board R) (side : Side) : List Deed :=
  [.opened side, .trigger ((b.opened side).now .turnStart side),
    .trigger ((b.opened side).now .nextTurn side)]

theorem trigger_leads {moment : Buff.Moment} {owner : Option Side} {logs : List String}
    (h : trigger moment owner m = .ok logs m') :
    Leads m.board [.trigger (m.board.now moment owner)] m'.board := by
  rw [trigger_board h]
  exact .single (.trigger m.board moment owner)

theorem knockOuts_leads {down : Option Side} {a : PUnit}
    (h : down.forM (knockOut (R := R) (G := G)) m = .ok a m') :
    Leads m.board (down.toList.map .knockout) m'.board := by
  cases down with
  | none =>
    obtain ⟨-, rfl⟩ := pure_ok h
    exact .rest _
  | some down => exact knockOut_leads h

variable [Scalar R]

theorem closeTurn_leads {owner : Option Side} {logs : List String}
    (h : closeTurn owner m = .ok logs m') :
    Leads m.board [.trigger (m.board.now .turnEnd owner)] m'.board := by
  obtain ⟨_, _, ht, h⟩ := bind_ok h
  obtain ⟨_, _, hm, h⟩ := bind_ok h
  obtain rfl := modify_ok hm
  obtain ⟨_, _, hg, h⟩ := bind_ok h
  obtain ⟨rfl, rfl⟩ := get_ok hg
  obtain ⟨_, _, hd, h⟩ := bind_ok h
  obtain ⟨-, rfl⟩ := pure_ok h
  rw [atDesk_board hd]
  exact (trigger_leads ht).trans (.single (.handed _ _))

theorem endTurn_leads {logs : List String} (h : endTurn m = .ok logs m') :
    Leads m.board [.trigger (m.board.now .turnEnd m.board.active)] m'.board := by
  obtain ⟨_, _, hg, h⟩ := bind_ok h
  obtain ⟨rfl, rfl⟩ := get_ok hg
  exact closeTurn_leads h

theorem announceOutcome_board {side : Side} {res : Attack.Resolution} {a : Unit}
    (h : announceOutcome side res m = .ok a m') : m'.board = m.board := by
  unfold announceOutcome at h
  obtain ⟨_, _, hd, h⟩ := bind_ok h
  obtain rfl := digits_ok hd
  obtain ⟨_, _, hd, h⟩ := bind_ok h
  obtain rfl := digits_ok hd
  exact announce_board h

theorem startTurn_leads {side : Side} {logs : List String}
    (h : startTurn side m = .ok logs m') : Leads m.board (openingDeeds m.board side) m'.board := by
  obtain ⟨o, ho⟩ := startTurn_stages h
  have l₁ : Leads m.board [.opened side] (m.board.opened side) := .single (.opened _ side)
  have hb : o.shown.board = m.board.opened side := announce_board ho.shows
  have l₃ := hb ▸ trigger_leads ho.early
  have l₄ := trigger_leads ho.late
  rw [l₃.now_eq (by simp)] at l₄
  have l₆ : Leads m.board (openingDeeds m.board side) o.announced.board :=
    (l₁.trans l₃).trans
      (l₄.trans ((takeTick_leads ho.ticks).trans (announceTick_leads ho.announces)))
  obtain ⟨-, rfl⟩ | ⟨-, hk⟩ := ho.falls
  · exact l₆
  · rw [keepUpkeep_board hk]
    exact l₆.trans (.single (.fallen o.announced.board side))

def Defends (side : Side) (b : Board R) (p : Defense.Plan R) (b' : Board R) : Prop :=
  ∃ es, b' = { b with history := b.history ++ es } ∧
    p.defender = { b.player side with statuses := p.defender.statuses } ∧
    Changes b.registry (b.player side).side.name (b.player side).statuses es p.defender.statuses

variable [Dice.Source G]

theorem defend_plays {side : Side} {incoming : Int} {orders : Orders} {p : Defense.Plan R}
    (h : defend side incoming orders m = .ok p m') : ∃ base fs gs es,
      base.retaliate = Scalar.zero ∧
      Defense.Plays (Defense.plan (m.player side) side.other incoming base orders.requests
        m.registry) fs p gs es ∧
      m'.board = { m.board with history := m.board.history ++ es } := by
  unfold defend at h
  cases ho : orders.defenseRoll with
  | some n =>
    rw [ho] at h
    obtain ⟨roll, _, hr, h⟩ := bind_ok h
    obtain ⟨-, rfl⟩ := pure_ok hr
    obtain ⟨_, _, hg, h⟩ := bind_ok h
    obtain ⟨rfl, rfl⟩ := get_ok hg
    obtain ⟨gs, es, hp, rfl⟩ := play_ok h
    exact ⟨_, _, gs, es, rfl, hp, rfl⟩
  | none =>
    rw [ho] at h
    obtain ⟨roll, _, hr, h⟩ := bind_ok h
    cases hr
    obtain ⟨_, _, hg, h⟩ := bind_ok h
    obtain ⟨rfl, rfl⟩ := get_ok hg
    obtain ⟨gs, es, hp, rfl⟩ := play_ok h
    exact ⟨_, _, gs, es, rfl, hp, rfl⟩

theorem defend_defends {side : Side} {incoming : Int} {orders : Orders} {p : Defense.Plan R}
    (h : defend side incoming orders m = .ok p m') : Defends side m.board p m'.board := by
  obtain ⟨base, fs, gs, es, -, hp, hb⟩ := defend_plays h
  exact ⟨es, hb, Defense.plan_changes hp⟩

omit [Dice.Source G] in
/-- Both players take what comes of an attack, and with it the defender takes the stacks that the
defence has left. -/
theorem hit_leads {side : Side} {p : Defense.Plan R} {ctx : Attack.Context R}
    {res : Attack.Resolution} {b c : Board R} (h : Defends side.other b p c) (hb : b.Seated)
    (ha : ctx.attacker = c.player side) (hd : ctx.defender = p.defender)
    (hr : Attack.resolve ctx = .ok res) :
    Leads b []
      { c with players := (c.players.set side res.attacker).set side.other res.defender } := by
  obtain ⟨es, rfl, hp, hc⟩ := h
  obtain ⟨hra, hrd⟩ := Attack.resolve_players hr
  rw [ha] at hra
  rw [hd, hp] at hrd
  rw [hb] at hc
  refine .aside (.held b side.other hc) (.aside (.life _ side res.attacker.hp)
    (.aside (.life _ side.other res.defender.hp) (.of_eq ?_)))
  rw [hra, hrd]
  cases side <;> rfl

theorem strike_leads {ability : Ability} {orders : Orders} {res : Attack.Resolution}
    (h : strike ability orders m = .ok res m') (hm : m.board.Seated) :
    Leads m.board (attackDeeds m.board orders res) m'.board := by
  obtain ⟨s, hs⟩ := strike_iff.mp h
  have l₁ := trigger_leads hs.commits
  have l₂ := l₁.trans (prepare_leads hs.prepares)
  have l₃ := l₂.trans (trigger_leads hs.answers)
  have l₆ := l₃.trans (hit_leads (defend_defends hs.defends) (l₃.seated hm) rfl rfl hs.resolves)
  have l₇ := l₆.trans (grantAll_leads hs.grants)
  have l₈ := l₇.trans (.single (.made s.granted.board (Grant.toBuffs orders.grants
    ⟨m.active, m.active.other, s.granted.board.round, s.granted.board.turn⟩)))
  have l₁₀ := l₈.trans (announceOutcome_board hs.tells ▸ knockOuts_leads hs.fells)
  rw [keep_board hs.keeps, hs.result]
  rw [l₂.now_eq (by simp)] at l₇ l₁₀
  rw [l₇.turn_eq (by simp), (l₇.clock (by simp)).2] at l₁₀
  simpa [attackDeeds, commits, bornIn, aftermath] using! l₁₀

omit [Scalar R] [Dice.Source G] in
theorem answer_leads {side : Side} {id : String} {n : Int} {out : Option Cleanse.Outcome}
    {prompts : Sides (List Tick.Prompt)} {logs : List String} {m'' : Match R G}
    (hs : (match out with
      | none => pure ["[Status] " ++ id ++ " cannot be cleansed"]
      | some out => do
        setStatuses side out.next
        return ["[Status] " ++ out.result.log] : Step R G (List String)) { m' with prompts } =
      .ok logs m'')
    (h : work ((m.player side).statuses.cleanse id n m.registry (some side.name)) m =
      .ok out m') : Leads m.board [] m''.board := by
  obtain ⟨es, hgives, rfl⟩ := work_ok h
  have ht := @Stacks.cleanse_tries R m.registry side (m.player side).statuses id n
  cases out with
  | none =>
    obtain ⟨-, rfl⟩ := pure_ok hs
    refine .of_eq ?_
    simp only [board, ht.silent hgives, List.append_nil]
  | some out =>
    obtain ⟨_, _, hm, hs⟩ := bind_ok hs
    obtain rfl := setStatuses_ok hm
    obtain ⟨-, rfl⟩ := pure_ok hs
    exact .single (.held m.board side (ht.changes hgives))

omit [Scalar R] in
theorem answerPrompt_leads {side : Side} {id : String} {roll : Option Int} {logs : List String}
    (h : answerPrompt side id roll m = .ok logs m') : Leads m.board [] m'.board := by
  unfold answerPrompt at h
  cases roll with
  | some n =>
    obtain ⟨n, _, hr, h⟩ := bind_ok h
    obtain ⟨-, rfl⟩ := pure_ok hr
    obtain ⟨_, _, hg, h⟩ := bind_ok h
    obtain ⟨rfl, rfl⟩ := get_ok hg
    obtain ⟨out, _, ht, h⟩ := bind_ok h
    obtain ⟨_, _, hm, h⟩ := bind_ok h
    obtain rfl := modify_ok hm
    exact answer_leads h ht
  | none =>
    obtain ⟨n, _, hr, h⟩ := bind_ok h
    obtain ⟨_, _, hg, h⟩ := bind_ok h
    obtain ⟨rfl, rfl⟩ := get_ok hg
    obtain ⟨out, _, ht, h⟩ := bind_ok h
    obtain ⟨_, _, hm, h⟩ := bind_ok h
    obtain rfl := modify_ok hm
    rw [← rollDie_board hr]
    exact answer_leads h ht

theorem attack_leads {orders : Orders} {res : Option Attack.Resolution}
    (h : attack orders m = .ok res m') (hm : m.board.Seated) :
    Leads m.board (res.toList.flatMap (attackDeeds m.board orders)) m'.board := by
  obtain ⟨rfl, hk⟩ | ⟨ability, r, rfl, hs⟩ := attack_ok h
  · exact .of_eq (keepUpkeep_board hk)
  · simpa using strike_leads hs hm

end Duel.Match
