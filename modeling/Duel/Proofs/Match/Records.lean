import Duel.Proofs.Match.Score

namespace Duel

/-- The hit points that a side has gained, in its own turns and in those of the other side. -/
def Record.gained (records : List Record) (side : Side) : Int :=
  total ((records.filter (·.attacker = side)).map (·.attackerChange)) +
    total ((records.filter (·.defender = side)).map (·.defenderChange))

/-- The attacker loses by the tick and by what is reflected, and in no other way. -/
def Record.Accounts (r : Record) : Prop :=
  r.attackerChange = -(r.damage.tick + r.damage.reflected)

def turnName (n : Nat) : String := "t" ++ toString n

namespace Score

variable {R : Type} {s s' : Score R} {side : Side} {r : Record} {rs : List Record} {d : Int}

def Seated (s : Score R) : Prop := ∀ side, (s.player side).side = side

/-- A turn of a side has left a record of what it has done to both sides. -/
structure Turns (s : Score R) (side : Side) (r : Record) (s' : Score R) : Prop where
  turns : s'.turns = s.turns + 1
  records : s'.records = s.records.map (· ++ [r])
  named : r.turn = turnName (s.turns + 1)
  attacker : r.attacker = side
  defender : r.defender = side.other
  attackerChange : r.attackerChange = (s'.player side).hp - (s.player side).hp
  defenderChange : r.defenderChange = (s'.player side.other).hp - (s.player side.other).hp
  accounts : r.Accounts
  players : ∀ x, s'.player x = { s.player x with hp := (s'.player x).hp }

/-- The records so far are one for each turn, and account for all hit points. -/
structure Booked (s : Score R) (rs : List Record) : Prop where
  records : s.records = some rs
  named : rs.map (·.turn) = (List.range s.turns).map fun i => turnName (i + 1)
  accounts : ∀ r ∈ rs, r.Accounts
  seated : s.Seated
  gained : ∀ side, (s.player side).hp - (s.player side).hero.maxHp = Record.gained rs side

theorem gained_append (rs : List Record) (r : Record) (x : Side) :
    Record.gained (rs ++ [r]) x = Record.gained rs x +
      ((if r.attacker = x then r.attackerChange else 0) +
        (if r.defender = x then r.defenderChange else 0)) := by
  unfold Record.gained
  rw [List.filter_append, List.filter_append, List.map_append, List.map_append, total_append,
    total_append]
  by_cases ha : r.attacker = x <;> by_cases hd : r.defender = x <;> simp [ha, hd, total] <;> omega

theorem Booked.turn (h : Booked s rs) (ht : Turns s side r s') : Booked s' (rs ++ [r]) where
  records := by rw [ht.records, h.records, Option.map_some]
  named := by
    rw [ht.turns, List.range_succ, List.map_append, List.map_append, h.named]
    simp [ht.named]
  accounts x hx := by
    obtain hx | hx := List.mem_append.mp hx
    · exact h.accounts x hx
    · exact List.mem_singleton.mp hx ▸ ht.accounts
  seated x := by
    rw [ht.players]
    exact h.seated x
  gained x := by
    have hx := h.gained x
    have hh : (s'.player x).hero = (s.player x).hero := by rw [ht.players]
    rw [gained_append, ht.attacker, ht.defender, ht.attackerChange, ht.defenderChange, hh]
    cases side <;> cases x <;> simp [Side.other] <;> omega

theorem Turns.handed (h : Turns s side r s') (active : Side) :
    Turns s side r { s' with active } :=
  ⟨h.turns, h.records, h.named, h.attacker, h.defender, h.attackerChange, h.defenderChange,
    h.accounts, h.players⟩

theorem turn_begun (s : Score R) (side : Side) (d : Int) :
    (s.begun side d).turn = turnName (s.turns + 1) :=
  if_neg (Nat.succ_ne_zero _)

theorem turns_of_upkeep {outcome : Attack.Outcome} (hp : s'.players = (s.begun side d).players)
    (ht : s'.turns = s.turns + 1)
    (hr : s'.records = s.records.map (· ++ [(s.begun side d).upkeepRecord side outcome])) :
    Turns s side ((s.begun side d).upkeepRecord side outcome) s' := by
  have hself : s'.player side = { s.player side with hp := max 0 ((s.player side).hp - d) } := by
    rw [← player_begun_self, player, hp]
    rfl
  have hother : s'.player side.other = s.player side.other := by
    rw [← player_begun_other s side d, player, hp]
    rfl
  refine ⟨ht, hr, turn_begun s side d, rfl, rfl, ?_, ?_, ?_, Side.of_both side ?_ ?_⟩
  · rw [hself, upkeepRecord, player_begun_self]
    rfl
  · rw [hother]
    exact (Int.sub_self _).symm
  · rw [Record.Accounts, upkeepRecord, player_begun_self]
    change _ - (s.player side).hp = -((s.player side).hp - max 0 ((s.player side).hp - d) + 0)
    dsimp only
    omega
  · rw [hself]
  · rw [hother]

end Score

namespace Match

variable {R G : Type} [Scalar R] [Scalar.Signed R] [Dice.Source G] {m m' : Match R G}
  {s : Score R} {d : Int}

omit [Scalar R] [Scalar.Signed R] [Dice.Source G] in
theorem turns_of_hit {side : Side} {ctx : Attack.Context R} {hurt back : Int}
    {res : Attack.Resolution} (hm : m.score = s.begun side d) (hs : s.Seated)
    (l : Attack.Lands ctx hurt back res) (hb : 0 ≤ back) (hp : 0 < ctx.attacker.hp)
    (ha : ctx.attacker.bare = m.score.player side)
    (hd : ctx.defender.bare = m.score.player side.other) {ability : Ability} {damage : Int}
    {before : Player} (hbe : before.hp = (m.score.player side.other).hp)
    {spends : List (Spend.Summary R)} (winner : Option Side) :
    let r := recordOf m ability damage before spends res
    s.Turns side r (((m.score.hit side res).wonBy winner).enter r) := by
  intro r
  have hra : res.attacker.bare = { s.player side with hp := res.attacker.hp } := by
    have h : res.attacker.bare = { ctx.attacker.bare with hp := res.attacker.hp } := by
      rw [l.attacker]
      rfl
    rw [h, ha, hm, Score.player_begun_self]
  have hrd : res.defender.bare = { s.player side.other with hp := res.defender.hp } := by
    have h : res.defender.bare = { ctx.defender.bare with hp := res.defender.hp } := by
      rw [l.defender]
      rfl
    rw [h, hd, hm, Score.player_begun_other]
  have hself : (((m.score.hit side res).wonBy winner).enter r).player side =
      { s.player side with hp := res.attacker.hp } :=
    (m.score.player_hit_self side res).trans hra
  have hother : (((m.score.hit side res).wonBy winner).enter r).player side.other =
      { s.player side.other with hp := res.defender.hp } :=
    (m.score.player_hit_other side res).trans hrd
  have hstart : m.startHp = (s.player side).hp := congrArg Score.startHp hm
  have hkeep : m.upkeep = (s.player side).hp - max 0 ((s.player side).hp - d) :=
    congrArg Score.upkeep hm
  have hattacker : ctx.attacker.hp = max 0 ((s.player side).hp - d) := by
    have h := congrArg Player.hp ha
    rwa [hm, Score.player_begun_self] at h
  refine ⟨congrArg Score.turns hm, ?_, ?_, ?_, ?_, ?_, ?_, ?_, Side.of_both side ?_ ?_⟩
  · have hr : m.score.records = s.records := by rw [hm]; rfl
    exact congrArg (Option.map (· ++ [r])) hr
  · exact (congrArg Score.turn hm).trans (Score.turn_begun s side d)
  · exact (congrArg Player.side hra).trans (hs side)
  · exact (congrArg Player.side hrd).trans (hs side.other)
  · rw [hself, ← hstart]
    rfl
  · rw [hother]
    change res.defender.hp - before.hp = res.defender.hp - _
    rw [hbe, hm, Score.player_begun_other]
  · have hl := l.attacker_loss hb hp
    change res.attacker.hp - m.startHp = -(m.upkeep + res.summary.reflected)
    omega
  · rw [hself]
  · rw [hother]

theorem strike_turns {ability : Ability} {orders : Orders} {res : Attack.Resolution}
    (hm : m.score = s.begun m.active d) (hs : s.Seated) (hp : 0 < (m.player m.active).hp)
    (h : strike ability orders m = .ok res m') : ∃ r, s.Turns m.active r m'.score := by
  obtain ⟨t, ht⟩ := strike_iff.mp h
  obtain ⟨_, _, hurt, back, -, hb, l⟩ := ht.lands
  have ha : (t.context m.active ability).attacker.hp = (m.player m.active).hp := by
    rw [← hp_score, ← ht.attacker]
    rfl
  rw [ht.score, ← ht.defended_score]
  refine ⟨_, turns_of_hit (ht.defended_score.trans hm) hs l hb (ha ▸ hp) ?_ ?_ ?_ _⟩
  · rw [ht.defended_score]
    exact ht.attacker
  · rw [ht.defended_score]
    exact ht.defender
  · rw [ht.defended_score, ← ht.answered_score, hp_score]

theorem attack_turns {orders : Orders} {reply : Option Attack.Resolution}
    (hm : m.score = s.begun m.active d) (hs : s.Seated) (hp : 0 < (m.player m.active).hp)
    (h : attack orders m = .ok reply m') : ∃ r, s.Turns m.active r m'.score := by
  obtain ⟨rfl, hk⟩ | ⟨ability, res, rfl, hk⟩ := attack_ok h
  · rw [keepUpkeep_score hk, hm]
    exact ⟨_, Score.turns_of_upkeep rfl rfl rfl⟩
  · exact strike_turns hm hs hp hk

omit [Scalar.Signed R] in
theorem playAttack_attacks {side : Side} {logs : List String} {goesOn : Bool}
    (h : playAttack side m = .ok (logs, goesOn) m') : ∃ u orders reply,
      u.score = m.score ∧ attack orders u = .ok reply m' ∧
        goesOn = reply.all fun res => decide (res.outcome = .goesOn) := by
  obtain ⟨dice, u₁, h₁, h⟩ := bind_ok h
  obtain ⟨_, _, hg, h⟩ := bind_ok h
  obtain ⟨rfl, rfl⟩ := get_ok hg
  obtain ⟨asked, u₂, h₂, h⟩ := bind_ok h
  obtain ⟨reply, u₃, h₃, h⟩ := bind_ok h
  have hu : u₂.score = m.score :=
    ((spares_score (requests_spares _)).ok h₂).trans ((spares_score (rollFor_spares _)).ok h₁)
  cases reply with
  | none =>
    cases h
    exact ⟨u₂, _, none, hu, h₃, rfl⟩
  | some res =>
    cases h
    exact ⟨u₂, _, some res, hu, h₃, by simp⟩

/-- A turn of a match that has not been won leaves a record, and the match goes on only if it has
not been won by then either. -/
theorem playTurn_turns {logs : List String} {goesOn : Bool} (hs : m.score.Seated)
    (hw : m.winner = none) (h : playTurn m = .ok (logs, goesOn) m') :
    (∃ r, m.score.Turns m.active r m'.score) ∧ (goesOn = true → m'.winner = none) := by
  unfold playTurn at h
  obtain ⟨_, _, hg, h⟩ := bind_ok h
  obtain ⟨rfl, rfl⟩ := get_ok hg
  obtain ⟨opening, u, ho, h⟩ := bind_ok h
  obtain ⟨_, _, hg, h⟩ := bind_ok h
  obtain ⟨rfl, rfl⟩ := get_ok hg
  obtain ⟨d, -, hu⟩ := startTurn_score ho
  by_cases hp : 0 < ((m.score.begun m.active d).player m.active).hp
  · replace hu : u.score = m.score.begun m.active d := hu.trans (if_pos hp)
    have hwin : u.winner = none := (congrArg Score.winner hu).trans hw
    rw [hwin] at h
    simp only [Option.isSome_none, Bool.false_eq_true, if_false] at h
    obtain ⟨answers, u₁, h₁, h⟩ := bind_ok h
    obtain ⟨⟨fight, on⟩, u₃, h₃, h⟩ := bind_ok h
    obtain ⟨u₂, orders, reply, h₂, hattack, rfl⟩ := playAttack_attacks h₃
    have hu₂ : u₂.score = m.score.begun m.active d :=
      h₂.trans (((answerAll_spares _ _).ok h₁).trans hu)
    have hact : u₂.active = m.active := congrArg Score.active hu₂
    have hwin₂ : u₂.winner = none := (congrArg Score.winner hu₂).trans hw
    have ht : ∃ r, m.score.Turns m.active r u₃.score := by
      rw [← hact] at hu₂ hp ⊢
      refine attack_turns hu₂ hs ?_ hattack
      rw [← hp_score, hu₂]
      exact hp
    cases hgo : reply.all fun res => decide (res.outcome = .goesOn) with
    | false =>
      rw [hgo] at h
      cases h
      exact ⟨ht, fun h => by cases h⟩
    | true =>
      rw [hgo] at h
      obtain ⟨closing, u₄, hend, h⟩ := bind_ok h
      obtain ⟨_, u₅, hask, h⟩ := bind_ok h
      obtain ⟨-, rfl⟩ := pure_ok h
      have hdown : (reply.bind fun res => fallen u₂.active res.outcome) = none := by
        cases reply with
        | none => rfl
        | some res => simp [of_decide_eq_true hgo, fallen]
      have hu₃ : u₃.winner = none := by
        rw [attack_winner hattack, hdown, hwin₂]
        rfl
      have hlast : u₅.score = { u₃.score with active := u₃.active.other } :=
        ((atDesk_spares _).ok hask).trans ((endTurn_comes u₃).of_ok hend)
      obtain ⟨r, hr⟩ := ht
      rw [hlast]
      exact ⟨⟨r, hr.handed _⟩, fun _ => (congrArg Score.winner hlast).trans hu₃⟩
  · replace hu := hu.trans (if_neg hp)
    have hwin : u.winner = some m.active.other := congrArg Score.winner hu
    rw [hwin] at h
    simp only [Option.isSome_some, if_true] at h
    cases h
    rw [hu]
    exact ⟨⟨_, Score.turns_of_upkeep rfl rfl rfl⟩, fun h => by cases h⟩

theorem playTurns_booked {turns : Nat} {rs : List Record} {logs : List String}
    (h : playTurns turns m = .ok logs m') (hb : m.score.Booked rs) (hw : m.winner = none) :
    ∃ rs', m'.score.Booked rs' := by
  induction turns generalizing m rs logs with
  | zero =>
    obtain ⟨-, rfl⟩ := pure_ok h
    exact ⟨rs, hb⟩
  | succ turns ih =>
    obtain ⟨⟨first, goesOn⟩, u, hu, h⟩ := bind_ok h
    obtain ⟨⟨r, hr⟩, hgo⟩ := playTurn_turns hb.seated hw hu
    cases goesOn with
    | false =>
      cases h
      exact ⟨_, hb.turn hr⟩
    | true =>
      obtain ⟨rest, _, hrest, h⟩ := bind_ok h
      obtain ⟨-, rfl⟩ := pure_ok h
      exact ih hrest (hb.turn hr) (hgo rfl)

def noted (m later : Match R G) : Match R G :=
  { later with
    trace := later.trace ++
      (later.history.drop m.history.length).filterMap fun e => e.line.toOption }

omit [Scalar R] [Scalar.Signed R] [Dice.Source G] in
theorem traced_ok {α : Type} {x : Step R G α} {a : α} (h : traced x m = .ok a m') :
    ∃ u, x m = .ok a u ∧ m' = m.noted u := by
  unfold traced at h
  cases hx : x m with
  | ok b u =>
    rw [hx] at h
    cases h
    exact ⟨u, rfl, rfl⟩
  | error fault u =>
    rw [hx] at h
    cases h

/-- However a match plays itself, there is one record for each turn, in their order; together they
account for all the hit points of both sides, and each for those that its attacker has lost. -/
theorem simulate_records (turns : Nat) (settings : Settings R) (registry : Registry R) (dice : G)
    (heroes : Sides Hero) {logs : List String}
    (h : simulate turns (start settings registry dice heroes true) = .ok logs m) :
    ∃ rs, m.records = some rs ∧
      rs.map (·.turn) = (List.range m.turns).map (fun i => turnName (i + 1)) ∧
      (∀ side, (m.player side).hp - (m.player side).hero.maxHp = Record.gained rs side) ∧
      ∀ r ∈ rs, r.attackerChange = -(r.damage.tick + r.damage.reflected) := by
  have hstart : (start settings registry dice heroes true).score.Booked [] := by
    refine ⟨rfl, rfl, by simp, ?_, ?_⟩
    · intro side
      cases side <;> rfl
    · intro side
      cases side <;> exact Int.sub_self _
  obtain ⟨first, u, ht, h⟩ := bind_ok h
  obtain ⟨v, hv, rfl⟩ := traced_ok ht
  obtain ⟨_, _, hg, h⟩ := bind_ok h
  obtain ⟨rfl, rfl⟩ := get_ok hg
  obtain ⟨-, rfl⟩ := pure_ok h
  obtain ⟨rs, hb⟩ := playTurns_booked hv hstart rfl
  refine ⟨rs, hb.records, hb.named, fun side => ?_, hb.accounts⟩
  have hg := hb.gained side
  rwa [player_score] at hg

def tiger : Hero :=
  { monk with maxHp := 10, defense := [{ minRoll := 1, block := 1, reflect := 1 }] }

def tigers : Match Rat Unit :=
  start { cueLengths := .empty } (Registry.empty.define burn) () ⟨tiger, tiger⟩ true

/-- Two tigers burn and strike each other for three turns, until one of them has lost all of its
ten hit points. -/
theorem simulate_records_tigers : ∃ logs m rs, simulate 20 tigers = .ok logs m ∧
    m.records = some rs ∧ rs.map (·.turn) = ["t1", "t2", "t3"] ∧ Record.gained rs .ai = -10 := by
  have hends : ((ended? (simulate 20 tigers)).any fun (_, m) =>
      decide (m.turns = 3 ∧ (m.player .ai).hp = 0 ∧ (m.player .ai).hero.maxHp = 10)) = true := by
    decide +kernel
  obtain ⟨logs, m, h, hm⟩ := ok_of_ended hends
  obtain ⟨hturns, hhp, hmax⟩ := of_decide_eq_true hm
  obtain ⟨rs, hrs, hnames, hgained, -⟩ := simulate_records 20 _ _ _ _ h
  refine ⟨logs, m, rs, h, hrs, ?_, ?_⟩
  · rw [hnames, hturns]
    decide
  · rw [← hgained, hhp, hmax]
    decide

end Match

end Duel
