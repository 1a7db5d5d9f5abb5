import Duel.Proofs.Match.Records

namespace Duel

namespace Attack.Lands

variable {R : Type} {ctx : Context R} {hurt back : Int} {res : Resolution}

theorem stands (h : Lands ctx hurt back res) (ho : res.outcome = .goesOn) :
    0 < res.attacker.hp ∧ 0 < res.defender.hp := by
  rw [h.outcome] at ho
  split at ho
  · cases ho
  · split at ho
    · cases ho
    · omega

theorem attacker_down (h : Lands ctx hurt back res) (ho : res.outcome = .attackerDefeated) :
    res.attacker.hp = 0 := by
  have ha : res.attacker.hp = max 0 (ctx.attacker.hp - back) := by rw [h.attacker]
  rw [h.outcome] at ho
  split at ho
  · cases ho
  · split at ho
    · omega
    · cases ho

theorem defender_down (h : Lands ctx hurt back res) (hm : 0 < ctx.defender.hero.maxHp)
    (ho : res.outcome = .defenderDefeated) : res.defender.hp = 0 := by
  have hd : res.defender.hp = (endure ctx.defender hurt ctx.heal).1 := by rw [h.defender]
  rw [h.outcome] at ho
  split at ho
  · unfold endure at hd
    split at hd
    · dsimp only at hd
      omega
    · dsimp only at hd
      omega
  · split at ho <;> cases ho

end Attack.Lands

namespace Score

variable {R : Type} {s : Score R} {side : Side} {d : Int}

/-- Both sides are on their feet, and can be so. -/
def Hale (s : Score R) : Prop :=
  ∀ side, 0 < (s.player side).hp ∧ 0 < (s.player side).hero.maxHp

/-- What has brought down nobody leaves both sides on their feet. -/
def Bears (s : Score R) : Option Side → Prop
  | none => s.Hale
  | some down => (s.player down).hp = 0

theorem Hale.begun (h : s.Hale) (hp : 0 < ((s.begun side d).player side).hp) :
    (s.begun side d).Hale := by
  refine Side.of_both side ⟨hp, ?_⟩ ?_
  · rw [player_begun_self]
    exact (h side).2
  · rw [player_begun_other]
    exact h side.other

theorem down_begun (hp : ¬0 < ((s.begun side d).player side).hp) :
    ((s.begun side d).player side).hp = 0 := by
  rw [player_begun_self] at hp ⊢
  dsimp only at hp ⊢
  omega

end Score

namespace Match

variable {R G : Type}

/-- A turn of a match that plays itself: whose it is, the match at each of its stations, and whether
the match goes on. -/
structure Turn (R G : Type) where
  side : Side
  stations : List (Match R G)
  goesOn : Bool

def Turn.Standing (t : Turn R G) : Prop := ∀ m ∈ t.stations, ∀ side, 0 < (m.player side).hp

/-- Whose turns there are, if one side begins. -/
def takingTurns : Side → Nat → List Side
  | _, 0 => []
  | side, n + 1 => side :: takingTurns side.other n

/-- How a match stands after a turn that it goes on from. -/
structure GoesOn (m m' : Match R G) : Prop where
  hale : m'.score.Hale
  winner : m'.winner = none
  turns : m'.turns = m.turns + 1
  active : m'.active = m.active.other

structure IsOver (m m' : Match R G) : Prop where
  decided : ∃ w, m'.winner = some w ∧ (m'.player w.other).hp = 0
  turns : m'.turns = m.turns + 1

theorem Turn.standing_of_hale {t : Turn R G} (h : ∀ m ∈ t.stations, m.score.Hale) : t.Standing :=
  fun m hm side => hp_score m side ▸ (h m hm side).1

theorem Turn.not_standing {t : Turn R G} {m : Match R G} {down : Side} (hm : m ∈ t.stations)
    (h : m.score.Bears (some down)) : ¬t.Standing := by
  intro hs
  have hp := hs m hm down
  rw [← hp_score, h] at hp
  cases hp

/-- What is done has brought down a side, or nobody, and not gone on to another turn. -/
structure Brings (m : Match R G) (down : Option Side) (m' : Match R G) : Prop where
  bears : m'.score.Bears down
  winner : m'.winner = down.map Side.other
  turns : m'.turns = m.turns
  active : m'.active = m.active

namespace Brings

variable {m u m' : Match R G} {down : Option Side}

theorem trans (h : m.Brings none u) (h' : u.Brings down m') : m.Brings down m' :=
  ⟨h'.bears, h'.winner, h'.turns.trans h.turns, h'.active.trans h.active⟩

theorem isOver {side down : Side} (h : (m.opened side).Brings (some down) m') : m.IsOver m' := by
  refine ⟨⟨down.other, h.winner, ?_⟩, h.turns⟩
  rw [Side.other_other, ← hp_score]
  exact h.bears

end Brings

variable [Scalar R] [Dice.Source G]

/-- A turn that is played. It is over where a side goes down, or else after the pause. -/
inductive Turn.Of : Turn R G → Match R G → Match R G → Prop
  | falls {m begun logs} (opens : startTurn m.active m = .ok logs begun)
      (won : begun.winner.isSome = true) :
      Turn.Of ⟨m.active, [begun], false⟩ m begun
  | strikes {m begun answered struck opening answers fight}
      (opens : startTurn m.active m = .ok opening begun) (stands : begun.winner.isSome = false)
      (replies : answerAll m.active (begun.prompts.get m.active) begun = .ok answers answered)
      (attacks : playAttack m.active answered = .ok (fight, false) struck) :
      Turn.Of ⟨m.active, [begun, answered, struck], false⟩ m struck
  | passes {m begun answered struck ended last opening answers fight closing}
      (opens : startTurn m.active m = .ok opening begun) (stands : begun.winner.isSome = false)
      (replies : answerAll m.active (begun.prompts.get m.active) begun = .ok answers answered)
      (attacks : playAttack m.active answered = .ok (fight, true) struck)
      (closes : endTurn struck = .ok closing ended)
      (waits : ask (.advance (Scalar.ofInt begun.settings.turnEndDelay)) ended = .ok () last) :
      Turn.Of ⟨m.active, [begun, answered, struck, ended, last], true⟩ m last

/-- Turns that follow on one another. -/
def Course : List (Turn R G) → Match R G → Match R G → Prop
  | [], m, m' => m' = m
  | t :: ts, m, m' => ∃ u, t.Of m u ∧ Course ts u m'

variable {m m' : Match R G} {t : Turn R G}

theorem playTurn_turn {logs : List String} {goesOn : Bool}
    (h : playTurn m = .ok (logs, goesOn) m') :
    ∃ t : Turn R G, t.Of m m' ∧ t.goesOn = goesOn := by
  unfold playTurn at h
  obtain ⟨_, _, hg, h⟩ := bind_ok h
  obtain ⟨rfl, rfl⟩ := get_ok hg
  obtain ⟨opening, begun, opens, h⟩ := bind_ok h
  obtain ⟨_, _, hg, h⟩ := bind_ok h
  obtain ⟨rfl, rfl⟩ := get_ok hg
  cases hw : begun.winner.isSome with
  | true =>
    rw [hw] at h
    cases h
    exact ⟨_, .falls opens hw, rfl⟩
  | false =>
    rw [hw] at h
    obtain ⟨answers, answered, replies, h⟩ := bind_ok h
    obtain ⟨⟨fight, on⟩, struck, attacks, h⟩ := bind_ok h
    cases on with
    | false =>
      cases h
      exact ⟨_, .strikes opens hw replies attacks, rfl⟩
    | true =>
      obtain ⟨closing, ended, closes, h⟩ := bind_ok h
      obtain ⟨_, last, waits, h⟩ := bind_ok h
      cases h
      exact ⟨_, .passes opens hw replies attacks closes waits, rfl⟩

theorem strike_bears {ability : Ability} {orders : Orders} {res : Attack.Resolution}
    (hm : m.score.Hale) (h : strike ability orders m = .ok res m') :
    m'.score.Bears (fallen m.active res.outcome) := by
  obtain ⟨t, ht⟩ := strike_iff.mp h
  obtain ⟨_, _, hurt, back, -, -, l⟩ := Attack.resolve_lands ht.resolves
  have ho : res.outcome = t.resolution.outcome := by rw [ht.result]
  have hself : m'.score.player m.active = t.resolution.attacker.bare := by
    rw [ht.score]
    exact m.score.player_hit_self m.active t.resolution
  have hother : m'.score.player m.active.other = t.resolution.defender.bare := by
    rw [ht.score]
    exact m.score.player_hit_other m.active t.resolution
  have hattacker : t.resolution.attacker.hero = (m.score.player m.active).hero := by
    rw [l.attacker, ← ht.attacker]
    rfl
  have hdefender : (t.context m.active ability).defender.hero =
      (m.score.player m.active.other).hero := by
    rw [← ht.defender]
    rfl
  rw [ho]
  -- The outcome was named from the same hit points that the players leave with.
  cases hout : t.resolution.outcome with
  | goesOn =>
    obtain ⟨ha, hd⟩ := l.stands hout
    refine Side.of_both m.active ?_ ?_
    · rw [hself]
      exact ⟨ha, lt_of_lt_of_eq (hm _).2 (congrArg Hero.maxHp hattacker).symm⟩
    · rw [hother]
      refine ⟨hd, ?_⟩
      change 0 < t.resolution.defender.hero.maxHp
      rw [l.defender]
      exact hdefender ▸ (hm _).2
  | attackerDefeated =>
    change (m'.score.player m.active).hp = 0
    rw [hself]
    exact l.attacker_down hout
  | defenderDefeated =>
    change (m'.score.player m.active.other).hp = 0
    rw [hother]
    exact l.defender_down (hdefender ▸ (hm _).2) hout

theorem attack_brings {orders : Orders} {reply : Option Attack.Resolution} (hm : m.score.Hale)
    (hw : m.winner = none) (h : attack orders m = .ok reply m') :
    m.Brings (reply.bind fun res => fallen m.active res.outcome) m' := by
  have hwin := attack_winner h
  rw [hw] at hwin
  obtain ⟨rfl, hk⟩ | ⟨ability, res, rfl, hk⟩ := attack_ok h
  · have hs := keepUpkeep_score hk
    exact ⟨hs ▸ hm, hwin, congrArg Score.turns hs, congrArg Score.active hs⟩
  · obtain ⟨t, ht⟩ := strike_iff.mp hk
    exact ⟨strike_bears hm hk, hwin.trans Option.or_none, congrArg Score.turns ht.score,
      congrArg Score.active ht.score⟩

theorem playAttack_brings {side : Side} {logs : List String} {goesOn : Bool} (hm : m.score.Hale)
    (hw : m.winner = none) (h : playAttack side m = .ok (logs, goesOn) m') :
    ∃ down, m.Brings down m' ∧ goesOn = down.isNone := by
  obtain ⟨u, orders, reply, hu, hattack, rfl⟩ := playAttack_attacks h
  have hb := attack_brings (hu ▸ hm) ((congrArg Score.winner hu).trans hw) hattack
  refine ⟨_, ⟨hb.bears, hb.winner, hb.turns.trans (congrArg Score.turns hu),
    hb.active.trans (congrArg Score.active hu)⟩, ?_⟩
  cases reply with
  | none => rfl
  | some res => cases ho : res.outcome <;> simp [ho, fallen]

omit [Dice.Source G] in
theorem startTurn_brings {side : Side} {logs : List String} (hm : m.score.Hale)
    (hw : m.winner = none) (h : startTurn side m = .ok logs m') :
    ∃ down, (m.opened side).Brings down m' := by
  obtain ⟨d, -, hu⟩ := startTurn_score h
  by_cases hp : 0 < ((m.score.begun side d).player side).hp
  · replace hu : m'.score = m.score.begun side d := hu.trans (if_pos hp)
    exact ⟨none, hu ▸ hm.begun hp, (congrArg Score.winner hu).trans hw, congrArg Score.turns hu,
      congrArg Score.active hu⟩
  · replace hu := hu.trans (if_neg hp)
    refine ⟨some side, ?_, congrArg Score.winner hu, congrArg Score.turns hu,
      congrArg Score.active hu⟩
    rw [hu]
    exact Score.down_begun hp

theorem attack_awaited {begun answered : Match R G} {logs answers : List String}
    {prompts : List Tick.Prompt} (hm : m.score.Hale) (hw : m.winner = none)
    (opens : startTurn m.active m = .ok logs begun) (stands : begun.winner.isSome = false)
    (replies : answerAll m.active prompts begun = .ok answers answered) :
    begun.score.Hale ∧ answered.score.Hale ∧ (m.opened m.active).Brings none answered := by
  obtain ⟨down, hb⟩ := startTurn_brings hm hw opens
  cases down with
  | some down =>
    rw [hb.winner] at stands
    cases stands
  | none =>
    have ha := (answerAll_spares _ _).ok replies
    exact ⟨hb.bears, ha ▸ hb.bears, ha ▸ hb.bears, (congrArg Score.winner ha).trans hb.winner,
      (congrArg Score.turns ha).trans hb.turns, (congrArg Score.active ha).trans hb.active⟩

/-- A turn of two sides on their feet leaves them so at each of its stations, as long as the match
goes on. -/
theorem Turn.Of.goes (h : t.Of m m') (hm : m.score.Hale) (hw : m.winner = none) :
    t.side = m.active ∧
      if t.goesOn then t.Standing ∧ m.GoesOn m' else ¬t.Standing ∧ m.IsOver m' := by
  cases h with
  | falls opens won =>
    obtain ⟨down, hb⟩ := startTurn_brings hm hw opens
    cases down with
    | none =>
      rw [hb.winner] at won
      cases won
    | some down => exact ⟨rfl, not_standing List.mem_cons_self hb.bears, hb.isOver⟩
  | @strikes _ begun answered struck _ _ _ opens stands replies attacks =>
    obtain ⟨-, ha, hb⟩ := attack_awaited hm hw opens stands replies
    obtain ⟨down, hs, hon⟩ := playAttack_brings ha hb.winner attacks
    cases down with
    | none => cases hon
    | some down =>
      exact ⟨rfl, not_standing (m := m') (by simp) hs.bears, (hb.trans hs).isOver⟩
  | @passes _ begun answered struck ended last _ _ _ _ opens stands replies attacks closes waits =>
    obtain ⟨hu, ha, hb⟩ := attack_awaited hm hw opens stands replies
    obtain ⟨down, hs, hon⟩ := playAttack_brings ha hb.winner attacks
    cases down with
    | some down => cases hon
    | none =>
      -- After the attack only the hand goes over; the pause does not bear on the score.
      have he := (endTurn_comes struck).of_ok closes
      have hl : m'.score = { struck.score with active := struck.active.other } :=
        ((atDesk_spares _).ok waits).trans he
      have hb := hb.trans hs
      have hh : struck.score.Hale := hb.bears
      refine ⟨rfl, ?_, hl ▸ hh, (congrArg Score.winner hl).trans hb.winner,
        (congrArg Score.turns hl).trans hb.turns,
        (congrArg Score.active hl).trans (congrArg Side.other hb.active)⟩
      exact standing_of_hale (List.forall_mem_cons.mpr ⟨hu, List.forall_mem_cons.mpr ⟨ha,
        List.forall_mem_cons.mpr ⟨hh, List.forall_mem_cons.mpr ⟨he ▸ hh,
          List.forall_mem_singleton.mpr (hl ▸ hh)⟩⟩⟩⟩)

/-- The course of so many turns at most, from two sides on their feet. -/
theorem playTurns_course {n : Nat} {logs : List String} (hm : m.score.Hale) (hw : m.winner = none)
    (h : playTurns n m = .ok logs m') :
    ∃ ts, Course ts m m' ∧ ts.map Turn.side = takingTurns m.active ts.length ∧
      m'.turns = m.turns + ts.length ∧
      (m'.winner = none ∧ m'.score.Hale ∧ ts.length = n ∧ (∀ t ∈ ts, t.Standing) ∨
        ∃ w before last, m'.winner = some w ∧ (m'.player w.other).hp = 0 ∧ ts.length ≤ n ∧
          ts = before ++ [last] ∧ (∀ t ∈ before, t.Standing) ∧ ¬last.Standing) := by
  -- On the turns that are left: one that goes on leaves the next one what this one has assumed.
  induction n generalizing m logs with
  | zero =>
    obtain ⟨-, rfl⟩ := pure_ok h
    exact ⟨[], rfl, rfl, rfl, .inl ⟨hw, hm, rfl, by simp⟩⟩
  | succ n ih =>
    obtain ⟨⟨first, goesOn⟩, u, hu, h⟩ := bind_ok h
    obtain ⟨t, ht, rfl⟩ := playTurn_turn hu
    obtain ⟨hside, hgoes⟩ := ht.goes hm hw
    cases hon : t.goesOn with
    | false =>
      rw [hon] at h hgoes
      cases h
      obtain ⟨hdown, ⟨w, hw, hp⟩, hturns⟩ := hgoes
      exact ⟨[t], ⟨m', ht, rfl⟩, by simp [takingTurns, hside], hturns,
        .inr ⟨w, [], t, hw, hp, by simp, rfl, by simp, hdown⟩⟩
    | true =>
      rw [hon] at h hgoes
      obtain ⟨rest, _, hrest, h⟩ := bind_ok h
      obtain ⟨-, rfl⟩ := pure_ok h
      obtain ⟨ts, hc, hsides, hturns, hend⟩ := ih hgoes.2.hale hgoes.2.winner hrest
      refine ⟨t :: ts, ⟨u, ht, hc⟩, ?_, ?_, ?_⟩
      · rw [List.map_cons, hside, hsides, hgoes.2.active]
        rfl
      · rw [hturns, hgoes.2.turns, List.length_cons]
        omega
      · obtain ⟨hw', hh', hn, hall⟩ | ⟨w, before, last, hw', hp, hn, rfl, hall, hlast⟩ := hend
        · exact .inl ⟨hw', hh', by simp [hn], List.forall_mem_cons.mpr ⟨hgoes.1, hall⟩⟩
        · exact .inr ⟨w, t :: before, last, hw', hp, Nat.succ_le_succ hn, rfl,
            List.forall_mem_cons.mpr ⟨hgoes.1, hall⟩, hlast⟩

theorem simulate_ok {n : Nat} {logs : List String} (h : simulate n m = .ok logs m') :
    ∃ told u, playTurns n m = .ok told u ∧ m' = m.noted u := by
  obtain ⟨told, v, ht, h⟩ := bind_ok h
  obtain ⟨u, hu, rfl⟩ := traced_ok ht
  obtain ⟨_, _, hg, h⟩ := bind_ok h
  obtain ⟨rfl, rfl⟩ := get_ok hg
  obtain ⟨-, rfl⟩ := pure_ok h
  exact ⟨told, u, hu, rfl⟩

/-- However a match plays itself, it leads through turns of both sides by turns. Either nobody has
won, both sides have been on their feet throughout and all turns have been played; or a side has
won, the other one has nothing left, and the last turn is the first one that a side has been down
in. -/
theorem simulate_ends (turns : Int) (settings : Settings R) (registry : Registry R) (dice : G)
    {heroes : Sides Hero} (hh : ∀ side, (heroes.get side).rules = []) (keepsRecords : Bool)
    {logs : List String}
    (h : simulate turns.toNat (start settings registry dice heroes keepsRecords) = .ok logs m) :
    ∃ ts u, Course ts (start settings registry dice heroes keepsRecords) u ∧
      m = { u with trace := m.trace } ∧ m.turns = ts.length ∧
      ts.map Turn.side = takingTurns .you ts.length ∧
      (m.winner = none ∧ (∀ side, 0 < (m.player side).hp) ∧ (m.turns : Int) = max 0 turns ∧
          (∀ t ∈ ts, t.Standing) ∨
        ∃ w before last, m.winner = some w ∧ (m.player w.other).hp = 0 ∧ m.turns ≤ turns ∧
          ts = before ++ [last] ∧ (∀ t ∈ before, t.Standing) ∧ ¬last.Standing) := by
  have hstart : (start settings registry dice heroes keepsRecords).score.Hale := by
    intro side
    have hpos : 0 < (heroes.get side).maxHp := by
      refine Int.not_le.mp fun h => ?_
      have hrules := hh side
      simp [Hero.rules, h] at hrules
    cases side <;> exact ⟨hpos, hpos⟩
  obtain ⟨told, u, hu, rfl⟩ := simulate_ok h
  obtain ⟨ts, hc, hsides, hturns, hend⟩ := playTurns_course hstart rfl hu
  replace hturns : u.turns = ts.length := hturns.trans (Nat.zero_add _)
  refine ⟨ts, u, hc, rfl, hturns, hsides, ?_⟩
  obtain ⟨hw, hp, hn, hall⟩ | ⟨w, before, last, hw, hp, hn, hlast⟩ := hend
  · refine .inl ⟨hw, fun side => hp_score u side ▸ (hp side).1, ?_, hall⟩
    change (u.turns : Int) = _
    omega
  · refine .inr ⟨w, before, last, hw, hp, ?_, hlast⟩
    change (u.turns : Int) ≤ turns
    have hpos : 0 < ts.length := by rw [hlast.1]; simp
    omega

/-- Of two tigers, the one that has begun has won in the third turn. -/
theorem simulate_ends_tigers : (∀ side, ((⟨tiger, tiger⟩ : Sides Hero).get side).rules = []) ∧
    ∃ logs m ts, simulate 20 tigers = .ok logs m ∧ m.winner = some .you ∧ (m.player .ai).hp = 0 ∧
      ts.map Turn.side = [.you, .ai, .you] ∧ (∀ t ∈ ts.dropLast, t.Standing) ∧
      ∃ u, Course ts tigers u ∧ m = { u with trace := m.trace } := by
  have hh : ∀ side, ((⟨tiger, tiger⟩ : Sides Hero).get side).rules = [] := by
    intro side
    cases side <;> decide +kernel
  have hends : ((ended? (simulate 20 tigers)).any fun (_, m) =>
      decide (m.turns = 3 ∧ m.winner = some .you)) = true := by
    decide +kernel
  obtain ⟨logs, m, h, hm⟩ := ok_of_ended hends
  obtain ⟨hthree, hyou⟩ := of_decide_eq_true hm
  obtain ⟨ts, u, hc, htrace, hturns, hsides,
      ⟨hw, -⟩ | ⟨w, before, last, hw, hp, -, hts, hall, -⟩⟩ :=
    simulate_ends 20 _ _ _ hh _ h
  · rw [hyou] at hw
    cases hw
  · obtain rfl := Option.some.inj (hyou.symm.trans hw)
    refine ⟨hh, logs, m, ts, h, hyou, hp, ?_, ?_, u, hc, htrace⟩
    · rw [hsides, ← hturns, hthree]
      rfl
    · rw [hts, List.dropLast_concat]
      exact hall

end Match

end Duel
