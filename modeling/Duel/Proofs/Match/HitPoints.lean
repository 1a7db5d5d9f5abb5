import Duel.Proofs.Defense.Requests
import Duel.Proofs.Match.Halting
import Duel.Proofs.Match.Run
import Duel.Proofs.Stacks.Spending

namespace Duel

/-- A player has hit points from none to the most that the hero can have. -/
def Player.InRange (p : Player) : Prop := 0 ≤ p.hp ∧ p.hp ≤ p.hero.maxHp

namespace Score

variable {R : Type} [Scalar R] {s t u : Score R} {muted : Prop} {d : Int}

structure Sound (s : Score R) : Prop where
  registry : s.registry.Mild
  hp : ∀ side, (s.player side).InRange

def Decided (s : Score R) : Prop := ∀ side, (s.player side).hp = 0 → s.winner.isSome

/-- What may become of a score, if it was sound. The winner stays, and is told of by the time that
a side is down, or else the step is muted. -/
structure Upholds (muted : Prop) (s t : Score R) : Prop where
  sound : t.Sound
  won : s.winner.isSome → t.winner.isSome
  decided : s.Decided → t.Decided ∨ muted

theorem Upholds.of_eq (h : s.Sound) (hr : t.registry = s.registry) (hp : t.players = s.players)
    (hw : t.winner = s.winner) : Upholds muted s t := by
  have hplayer : ∀ side, t.player side = s.player side := fun side => by rw [player, hp]; rfl
  refine ⟨⟨hr ▸ h.registry, fun side => ?_⟩, fun hs => hw ▸ hs, fun hs => .inl fun side h0 => ?_⟩
  · rw [hplayer]
    exact h.hp side
  · rw [hplayer] at h0
    exact hw ▸ hs side h0

theorem Upholds.trans (h : Upholds False s t) (h' : Upholds muted t u) : Upholds muted s u :=
  ⟨h'.sound, fun hs => h'.won (h.won hs), fun hs => h'.decided ((h.decided hs).resolve_right id)⟩

theorem Sound.begun (h : s.Sound) (side : Side) (hd : 0 ≤ d) :
    (s.begun side d).Sound ∧ ∀ x, ((s.begun side d).player x).hp ≤ (s.player x).hp := by
  obtain ⟨h₀, h₁⟩ := h.hp side
  refine ⟨⟨h.registry, Side.of_both side ?_ ?_⟩, Side.of_both side ?_ ?_⟩
  · rw [player_begun_self]
    refine ⟨Int.le_max_left _ _, ?_⟩
    dsimp only
    omega
  · rw [player_begun_other]
    exact h.hp side.other
  · rw [player_begun_self]
    dsimp only
    omega
  · exact Int.le_of_eq (congrArg Player.hp (player_begun_other s side d))

theorem decided_isSome {down winner : Option Side} (h : down.isSome ∨ winner.isSome) :
    (Match.decided down winner).isSome := by
  cases down with
  | none => exact h.resolve_left (by decide)
  | some down => rfl

theorem Sound.fallen (h : s.Sound) (side : Side) (hd : 0 ≤ d) :
    s.Upholds False ((s.begun side d).fallen side) := by
  have hb := (h.begun side hd).1
  have hplayer : ∀ x, ((s.begun side d).fallen side).player x = (s.begun side d).player x :=
    fun x => by rw [player, fallen_players]; rfl
  refine ⟨⟨?_, fun x => hplayer x ▸ hb.hp x⟩, fun hs => ?_, fun hs => .inl ?_⟩
  · unfold Score.fallen
    split <;> exact h.registry
  · rw [fallen_winner]
    exact decided_isSome (.inr hs)
  · refine Side.of_both side (fun h0 => ?_) (fun h0 => ?_)
    · rw [hplayer] at h0
      rw [fallen_winner, h0]
      exact decided_isSome (.inl rfl)
    · rw [hplayer, player_begun_other] at h0
      rw [fallen_winner]
      exact decided_isSome (.inr (hs side.other h0))

variable {side : Side} {ctx : Attack.Context R} {hurt back : Int} {res : Attack.Resolution}

theorem Sound.hit (h : s.Sound) (l : Attack.Lands ctx hurt back res) (hh : 0 ≤ hurt)
    (hb : 0 ≤ back) (ha : ctx.attacker.bare = s.player side)
    (hd : ctx.defender.bare = s.player side.other) : (s.hit side res).Sound := by
  have hattacker : ctx.attacker.bare.InRange := ha ▸ h.hp side
  have hdefender : ctx.defender.bare.InRange := hd ▸ h.hp side.other
  refine ⟨h.registry, Side.of_both side ?_ ?_⟩
  · obtain ⟨h₀, h₁⟩ := l.attacker_hp hb hattacker.1
    have hhero : res.attacker.hero = ctx.attacker.hero := by rw [l.attacker]
    rw [player_hit_self]
    exact ⟨h₀, hhero ▸ Int.le_trans h₁ hattacker.2⟩
  · rw [player_hit_other, l.defender]
    exact Attack.endure_bounds hh hdefender.2 (Int.le_trans hdefender.1 hdefender.2)

omit [Scalar R] in
theorem fallen_isSome (l : Attack.Lands ctx hurt back res)
    (h : res.attacker.hp = 0 ∨ res.defender.hp = 0) :
    (Match.fallen side res.outcome).isSome := by
  rw [l.outcome]
  split
  · rfl
  · split
    · rfl
    · omega

theorem Sound.settled (h : (s.hit side res).Sound) (l : Attack.Lands ctx hurt back res)
    (r : Record) : s.Upholds False (((s.hit side res).wonBy
      (Match.decided (Match.fallen side res.outcome) s.winner)).enter r) := by
  refine ⟨⟨h.registry, h.hp⟩, fun hs => decided_isSome (.inr hs), fun hs => .inl ?_⟩
  refine Side.of_both side (fun h0 => ?_) (fun h0 => ?_)
  · have h1 : res.attacker.hp = 0 := (congrArg Player.hp (player_hit_self s side res)).symm.trans h0
    exact decided_isSome (.inl (fallen_isSome l (.inl h1)))
  · have h1 : res.defender.hp = 0 :=
      (congrArg Player.hp (player_hit_other s side res)).symm.trans h0
    exact decided_isSome (.inl (fallen_isSome l (.inr h1)))

end Score

namespace Match

variable {R G α β : Type} [Scalar R] {m m' : Match R G}

/-- Work that upholds the score, unless it can only not tell of what it has done. -/
structure Fair (x : Step R G α) : Prop where
  ok : ∀ {m a t}, m.score.Sound → x m = .ok a t → m.score.Upholds False t.score
  error : ∀ {m fault t}, m.score.Sound → x m = .error fault t →
    m.score.Upholds fault.Telling t.score

namespace Fair

theorem of_spares {x : Step R G α} (h : Spares score x) : Fair x := by
  constructor
  · intro m a t hm hx
    rw [h.ok hx]
    exact .of_eq hm rfl rfl rfl
  · intro m fault t hm hx
    rw [h.error hx]
    exact .of_eq hm rfl rfl rfl

theorem bind {x : Step R G α} {f : α → Step R G β} (h : Fair x) (hf : ∀ a, Fair (f a)) :
    Fair (x >>= f) := by
  constructor
  · intro m b t hm hx
    obtain ⟨a, u, ha, hb⟩ := bind_ok hx
    have hu := h.ok hm ha
    exact hu.trans ((hf a).ok hu.sound hb)
  · intro m fault t hm hx
    obtain ha | ⟨a, u, ha, hb⟩ := bind_error hx
    · exact h.error hm ha
    · have hu := h.ok hm ha
      exact hu.trans ((hf a).error hu.sound hb)

theorem pure (a : α) : Fair (pure a : Step R G α) := of_spares (.pure a)

theorem read {f : Match R G → Step R G α} (h : ∀ m, Fair (f m)) : Fair (get >>= f) :=
  ⟨fun {m} => (h m).ok, fun {m} => (h m).error⟩

theorem traced {x : Step R G α} (h : Fair x) : Fair (traced x) := by
  constructor
  · intro m a t hm hx
    unfold Match.traced at hx
    cases hr : x m with
    | ok b later =>
      rw [hr] at hx
      have hlater : m.score.Upholds False later.score := h.ok hm hr
      cases hx
      exact hlater
    | error fault later =>
      rw [hr] at hx
      cases hx
  · intro m fault t hm hx
    unfold Match.traced at hx
    cases hr : x m with
    | ok b later =>
      rw [hr] at hx
      cases hx
    | error cause later =>
      rw [hr] at hx
      have hlater : m.score.Upholds cause.Telling later.score := h.error hm hr
      cases hx
      exact hlater

theorem endTurn : Fair (endTurn : Step R G (List String)) := by
  constructor
  · intro m a t hm hx
    rw [(endTurn_comes m).of_ok hx]
    exact .of_eq hm rfl rfl rfl
  · intro m fault t hm hx
    obtain ⟨active, ht⟩ := (endTurn_comes m).of_error hx
    rw [ht]
    exact .of_eq hm rfl rfl rfl

theorem startTurn (side : Side) : Fair (startTurn side : Step R G (List String)) := by
  constructor
  · intro m a t hm hx
    obtain ⟨d, hd, ht⟩ := startTurn_score hx
    rw [ht]
    exact hm.fallen side hd
  · intro m fault t hm hx
    obtain ht | ⟨htells, d, hd, ht⟩ := startTurn_error hx
    · rw [ht]
      exact .of_eq hm rfl rfl rfl
    · rw [ht]
      exact ⟨(hm.begun side hd).1, id, fun _ => .inr htells⟩

end Fair

variable [Scalar.Signed R] [Dice.Source G]

/-- The factors of a defence only take damage away, so a blow leaves both sides in range. -/
theorem Blow.Of.sound {b : Blow R G} {side : Side} {ability : Ability} {orders : Orders}
    (h : b.Of side ability orders m) (hm : m.score.Sound) :
    (m.score.hit side b.resolution).Sound ∧
      b.resolution.attacker.hp ≤ (m.score.player side).hp ∧
      ∃ hurt back, Attack.Lands (b.context side ability) hurt back b.resolution := by
  obtain ⟨damage, blocked, hurt, back, hd, hb, l⟩ := h.lands
  obtain ⟨base, fs, gs, es, -, hplan, -⟩ := defend_plays h.defends
  have hreg : b.answered.registry = m.registry := congrArg Score.registry h.answered_score
  have hmild : b.answered.registry.Mild := hreg ▸ hm.registry
  have hh : 0 ≤ hurt := by
    refine Attack.dealt_nonneg (fun f hf => ?_) hd
    obtain ⟨r, hr, hf⟩ := Spend.factor_brought (Defense.plan_brings hmild.brings hplan) hf
    exact hr f hf
  refine ⟨hm.hit l hh hb h.attacker h.defender, ?_, hurt, back, l⟩
  have hrange : (b.context side ability).attacker.bare.InRange := h.attacker ▸ hm.hp side
  rw [← h.attacker]
  exact (l.attacker_hp hb hrange.1).2

namespace Fair

theorem attack (orders : Orders) :
    Fair (attack orders : Step R G (Option Attack.Resolution)) := by
  constructor
  · intro m reply t hm hx
    obtain ⟨-, hk⟩ | ⟨ability, res, -, hs⟩ := attack_ok hx
    · rw [keepUpkeep_score hk]
      exact .of_eq hm rfl rfl rfl
    · obtain ⟨s, hs⟩ := strike_iff.mp hs
      obtain ⟨hsound, -, hurt, back, l⟩ := hs.toOf.sound hm
      rw [hs.score, hs.result]
      exact hsound.settled l _
  · intro m fault t hm hx
    obtain rfl | ⟨ability, -, hh⟩ := attack_error hx
    · exact .of_eq hm rfl rfl rfl
    · obtain ht | ⟨b, hb, htells, ht⟩ := hh.score_cases
      · rw [ht]
        exact .of_eq hm rfl rfl rfl
      · rw [ht]
        exact ⟨(hb.sound hm).1, id, fun _ => .inr htells⟩

theorem playable : Playable (R := R) (G := G) fun x => Fair x where
  pure := pure
  bind := bind
  read _ := read
  traced := traced
  startTurn := startTurn
  answerPrompt side id roll := of_spares (answerPrompt_spares side id roll)
  rollFor side := of_spares (spares_score (rollFor_spares side))
  requests side := of_spares (spares_score (requests_spares side))
  attack := attack
  endTurn := endTurn
  ask _ := of_spares (atDesk_spares _)

end Fair

/-- An errand changes the hit points of a player, and then breaks off since that cannot be told. -/
def Errand.Mute (e : Errand R) (m : Match R G) : Prop :=
  ∃ fault m', e.perform m = .error fault m' ∧ fault.Telling ∧
    ∃ side, (m'.player side).hp ≠ (m.player side).hp

omit [Scalar.Signed R] [Dice.Source G] in
theorem Fair.left {x : Step R G α} (h : Fair x) (hm : m.score.Sound) :
    (left (x m)).score.Sound := by
  cases hx : x m with
  | ok a t => exact (h.ok hm hx).sound
  | error fault t => exact (h.error hm hx).sound

end Match

end Duel
