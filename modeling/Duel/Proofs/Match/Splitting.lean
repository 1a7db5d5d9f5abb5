import Duel.Proofs.Match.Composed
import Duel.Proofs.Match.Course
import Duel.Proofs.Match.History

namespace Duel.Match

open Board (Leads)

variable {R G α β : Type}

/-- If a step ends, it leads from a board to another by moves of the game. -/
def Lawful [Scalar R] (x : Step R G α) : Prop :=
  ∀ m a m', x m = .ok a m' → m.board.Seated → ∃ ds, Leads m.board ds m'.board

namespace Lawful

variable [Scalar R]

theorem bind {x : Step R G α} {f : α → Step R G β} (h : Lawful x) (hf : ∀ a, Lawful (f a)) :
    Lawful (x >>= f) := by
  intro m b m' hx hm
  obtain ⟨a, u, ha, hb⟩ := bind_ok hx
  obtain ⟨ds, hl⟩ := h m a u ha hm
  obtain ⟨es, hl'⟩ := hf a u b m' hb (hl.seated hm)
  exact ⟨ds ++ es, hl.trans hl'⟩

theorem of_spares {x : Step R G α} (h : Spares board x) : Lawful x :=
  fun _ _ _ hx _ => ⟨[], .of_eq (h.ok hx)⟩

theorem requests [Dice.Source G] (side : Side) :
    Lawful (requests side : Step R G (List Defense.Request)) := by
  refine of_spares (.read fun m => .mapM (fun (status, rule, n) => ?_) _)
  have hroll : Spares board (rollDie : Step R G Int) := fun _ => rfl
  dsimp only
  split
  · exact hroll.bind fun _ => .pure _
  · exact .pure _

theorem piecewise [Dice.Source G] : Piecewise (R := R) (G := G) fun x => Lawful x where
  pure a := of_spares (.pure a)
  bind := bind
  read _ h := fun m => h m m
  startTurn _ := fun _ _ _ h _ => ⟨_, startTurn_leads h⟩
  answerPrompt _ _ _ := fun _ _ _ h _ => ⟨_, answerPrompt_leads h⟩
  rollFor _ := of_spares fun _ => rfl
  requests := requests
  attack _ := fun _ _ _ h hm => ⟨_, attack_leads h hm⟩
  endTurn := fun _ _ _ h _ => ⟨_, endTurn_leads h⟩
  ask _ := fun _ _ _ h _ => ⟨_, .of_eq (atDesk_board h)⟩

end Lawful

/-- With another trace, a step does the same and leaves this trace. -/
def Traceless (x : Step R G α) : Prop :=
  ∀ m trace, x (m.withTrace trace) = seen (·.withTrace trace) (x m)

namespace Traceless

theorem atDesk (x : Cue.Desk.Work R (Stage R) Unit) : Traceless (atDesk x : Step R G Unit) := by
  intro m trace
  have hd : (m.withTrace trace).desk = m.desk := rfl
  unfold Match.atDesk
  rw [hd]
  cases x m.desk <;> rfl

theorem read {f : Match R G → Step R G α} (hf : ∀ m trace, f (m.withTrace trace) = f m)
    (h : ∀ m, Traceless (f m)) : Traceless (get >>= f) := by
  intro m trace
  rw [get_bind, get_bind, hf]
  exact h m m trace

theorem composed [Scalar R] : Composed (R := R) (G := G) fun x => Traceless x where
  pure _ := fun _ _ => rfl
  throw _ := fun _ _ => rfl
  bind h hf := fun m trace => seen_bind (h m trace) fun a t => hf a t trace
  read := read
  change hf := fun m trace => by
    change EStateM.Result.ok _ _ = _
    rw [(hf m trace).1]
    rfl
  ask _ := atDesk _
  turnPause := read (fun _ _ => rfl) fun _ => atDesk _

theorem trace {x : Step R G α} (h : Traceless x) {m m' : Match R G} {a : α}
    (hx : x m = .ok a m') : m'.trace = m.trace := by
  have hm := h m m.trace
  rw [hx] at hm
  change x m = .ok a (m'.withTrace m.trace) at hm
  rw [hx] at hm
  exact (congrArg Match.trace (EStateM.Result.ok.inj hm).2).trans rfl

end Traceless

variable [Scalar R] [Dice.Source G] {m m' u v : Match R G} {t : Turn R G}

theorem playAttack_winner {side : Side} {prompts : List Tick.Prompt} {answers fight : List String}
    {goesOn : Bool} {begun answered struck : Match R G} (stands : begun.winner.isSome = false)
    (replies : answerAll side prompts begun = .ok answers answered)
    (attacks : playAttack side answered = .ok (fight, goesOn) struck) :
    goesOn = struck.winner.isNone := by
  obtain ⟨u, orders, reply, hu, hattack, rfl⟩ := playAttack_attacks attacks
  have hw : u.winner = none :=
    (congrArg Score.winner (hu.trans ((answerAll_spares _ _).ok replies))).trans
      (Option.isSome_eq_false_iff.mp stands |> Option.isNone_iff_eq_none.mp)
  rw [attack_winner hattack, hw]
  cases reply with
  | none => rfl
  | some res => cases ho : res.outcome <;> simp [ho, fallen, decided]

theorem Turn.Of.goesOn_eq (h : t.Of m m') : t.goesOn = m'.winner.isNone := by
  cases h with
  | falls opens won => exact (Option.isNone_eq_false_iff.mpr won).symm
  | strikes opens stands replies attacks => exact playAttack_winner stands replies attacks
  | @passes _ _ _ struck _ _ _ _ _ _ opens stands replies attacks closes waits =>
    have he := (endTurn_comes struck).of_ok closes
    have hw : m'.winner = struck.winner :=
      congrArg Score.winner (((atDesk_spares _).ok waits).trans he)
    rw [hw]
    exact playAttack_winner stands replies attacks

theorem Turn.Of.of_decided (h : t.Of m m') (hw : m.winner.isSome = true) :
    t.goesOn = false ∧ m'.turns = m.turns + 1 := by
  have hwon {logs : List String} {begun : Match R G}
      (ho : Match.startTurn m.active m = .ok logs begun) : begun.winner.isSome = true := by
    rw [startTurn_winner ho, decided, Option.isSome_or, hw, Bool.or_true]
  -- There is a winner when the turn has begun, so it is over before anything else is done in it.
  cases h with
  | falls opens won =>
    obtain ⟨d, -, hs⟩ := startTurn_score opens
    refine ⟨rfl, (congrArg Score.turns hs).trans ?_⟩
    unfold Score.fallen
    split <;> rfl
  | strikes opens stands =>
    rw [hwon opens] at stands
    cases stands
  | passes opens stands =>
    rw [hwon opens] at stands
    cases stands

/-- Turns that have been played can be played on from, unless they have ended the match. -/
theorem playTurns_add {n : Nat} {told : List String} (hw : m.winner = none)
    (h : playTurns n m = .ok told u) (k : Nat) :
    (u.winner = none → ∀ {more}, playTurns k u = .ok more v →
      playTurns (n + k) m = .ok (told ++ more) v) ∧
      (u.winner.isSome = true → playTurns (n + k) m = .ok told u) := by
  induction n generalizing m told with
  | zero =>
    obtain ⟨rfl, rfl⟩ := pure_ok h
    rw [Nat.zero_add, hw]
    exact ⟨fun _ _ hk => hk, fun h => by cases h⟩
  | succ n ih =>
    obtain ⟨⟨first, goesOn⟩, x, hx, h⟩ := bind_ok h
    obtain ⟨t, ht, rfl⟩ := playTurn_turn hx
    have hgo := ht.goesOn_eq
    rw [Nat.succ_add, playTurns, bind_of_ok hx]
    cases hon : t.goesOn with
    | false =>
      rw [hon] at h hgo
      cases h
      refine ⟨fun hnone => ?_, fun _ => rfl⟩
      rw [hnone] at hgo
      cases hgo
    | true =>
      rw [hon] at h hgo
      obtain ⟨rest, _, hrest, h⟩ := bind_ok h
      obtain ⟨rfl, rfl⟩ := pure_ok h
      obtain ⟨hplay, hstop⟩ := ih (Option.isNone_iff_eq_none.mp hgo.symm) hrest
      refine ⟨fun hnone more hmore => ?_, fun hsome => ?_⟩
      · refine (bind_of_ok (hplay hnone hmore) _).trans ?_
        rw [List.append_assoc]
        rfl
      · exact bind_of_ok (hstop hsome) _

theorem playTurns_of_decided {n : Nat} {told : List String} (hw : m.winner.isSome = true)
    (h : playTurns (n + 1) m = .ok told m') : m'.turns = m.turns + 1 := by
  obtain ⟨⟨first, goesOn⟩, x, hx, h⟩ := bind_ok h
  obtain ⟨t, ht, rfl⟩ := playTurn_turn hx
  obtain ⟨hstop, hturns⟩ := ht.of_decided hw
  rw [hstop] at h
  cases h
  exact hturns

theorem playTurns_history {n : Nat} {told : List String} (hs : m.board.Seated) (hf : m.board.Fair)
    (h : playTurns n m = .ok told m') :
    m'.board.Seated ∧ m'.board.Fair ∧ ∃ es, m'.history = m.history ++ es := by
  obtain ⟨ds, hl⟩ := Lawful.piecewise.playTurns n m told m' h hs
  obtain ⟨⟨es, he, -⟩, hf'⟩ := hl.tells hf
  exact ⟨hl.seated hs, hf', es, he⟩

theorem simulate_of_playTurns {n : Nat} {told : List String} (h : playTurns n m = .ok told u) :
    ∃ logs, simulate n m = .ok logs (m.noted u) := by
  have ht : traced (playTurns n) m = .ok told (m.noted u) := by
    rw [traced, h]
    rfl
  exact ⟨_, (bind_of_ok ht _).trans (get_bind _ _)⟩

omit [Scalar R] [Dice.Source G] in
theorem noted_noted {es fs : List Event} (hu : u.history = m.history ++ es)
    (hv : v.history = u.history ++ fs) (ht : v.trace = u.trace) :
    (m.noted u).noted (v.withTrace (m.noted u).trace) = m.noted v := by
  have hlater : v.history.drop u.history.length = fs := by
    rw [hv, List.drop_left]
  have hall : v.history.drop m.history.length = u.history.drop m.history.length ++ fs := by
    rw [hv, hu, List.append_assoc, List.drop_left, List.drop_left]
  unfold noted
  simp only [withTrace]
  rw [hlater, hall, ht, List.filterMap_append, List.append_assoc]

/-- What a match that has played itself is looked at for. -/
def upshot (m : Match R G) : Sides Player × Option Side × List Buff × Int × Nat ×
    Option (List Record) × List String :=
  (m.players, m.winner, m.buffs, m.round, m.turns, m.records, m.trace)

/-- A fresh match that plays itself in two parts comes to what it would have come to at once, unless
it is over after the first part and is to go on: then it begins a turn too many. -/
theorem simulate_splits_iff (n k : Nat) (settings : Settings R) (registry : Registry R) (dice : G)
    (heroes : Sides Hero) (keepsRecords : Bool) {first rest : List String} {m₁ m₂ : Match R G}
    (h₁ : simulate n (start settings registry dice heroes keepsRecords) = .ok first m₁)
    (h₂ : simulate k m₁ = .ok rest m₂) :
    ∃ logs m, simulate (n + k) (start settings registry dice heroes keepsRecords) = .ok logs m ∧
      (m₂.upshot = m.upshot ↔ k = 0 ∨ m₁.winner = none) ∧ (m₁.winner = none → m₂ = m) ∧
      (k ≠ 0 → m₁.winner ≠ none → m = m₁ ∧ m₂.turns = m₁.turns + 1) := by
  have hs := seated_start settings registry dice heroes keepsRecords
  have hf : (start settings registry dice heroes keepsRecords).board.Fair := by
    intro side
    cases side <;> exact Stacks.positive_empty
  obtain ⟨told, u, hu, rfl⟩ := simulate_ok h₁
  obtain ⟨more, w, hw, rfl⟩ := simulate_ok h₂
  obtain ⟨hus, huf, es, hes⟩ := playTurns_history hs hf hu
  have hadd (v : Match R G) := playTurns_add (v := v) rfl hu k
  cases hwin : u.winner with
  | none =>
    -- The second part begins with what has been traced by then, which its turns do not look at.
    have hk : Traceless (playTurns k : Step R G (List String)) :=
      Traceless.composed.piecewise.playTurns k
    obtain ⟨v, hv, rfl⟩ := ok_of_seen ((hk u
      ((start settings registry dice heroes keepsRecords).noted u).trace).symm.trans hw)
    obtain ⟨-, -, fs, hfs⟩ := playTurns_history hus huf hv
    obtain ⟨logs, hsim⟩ := simulate_of_playTurns ((hadd v).1 hwin hv)
    have hsame := noted_noted hes hfs (hk.trace hv)
    exact ⟨logs, _, hsim, by rw [hsame]; exact ⟨fun _ => .inr hwin, fun _ => rfl⟩,
      fun _ => hsame, fun _ hne => absurd hwin hne⟩
  | some winner =>
    obtain ⟨logs, hsim⟩ := simulate_of_playTurns ((hadd u).2 (by rw [hwin]; rfl))
    have hne : (noted (start settings registry dice heroes keepsRecords) u).winner ≠ none :=
      fun h => by cases hwin.symm.trans h
    have hturns (hk : k ≠ 0) : w.turns = u.turns + 1 := by
      obtain ⟨k, rfl⟩ := Nat.exists_eq_succ_of_ne_zero hk
      have ht := playTurns_of_decided (Option.isSome_iff_ne_none.mpr hne) hw
      exact ht
    -- To go on or not makes no difference to all turns at once, but a turn to the second part.
    refine ⟨logs, _, hsim, ⟨fun h => .inl ?_, ?_⟩, fun h => absurd h hne,
      fun hk _ => ⟨rfl, hturns hk⟩⟩
    · refine Decidable.byContradiction fun hk => ?_
      have hsame : w.turns = u.turns := congrArg (·.2.2.2.2.1) h
      have := hturns hk
      omega
    · rintro (rfl | h)
      · obtain ⟨-, rfl⟩ := pure_ok hw
        simp [upshot, noted]
      · exact absurd h hne

/-- The third turn of the tigers can be played on its own. -/
theorem simulate_splits_iff_tigers : ∃ first rest logs m₁ m, simulate 2 tigers = .ok first m₁ ∧
    simulate 3 m₁ = .ok rest m ∧ simulate 5 tigers = .ok logs m ∧ m.winner = some .you := by
  have hends : ((ended? (simulate 2 tigers)).any fun (_, m) =>
      decide (m.winner = none) && (ended? (simulate 3 m)).any fun (_, m) =>
        decide (m.winner = some .you)) = true := by
    decide +kernel
  obtain ⟨first, m₁, h₁, hends⟩ := ok_of_ended hends
  obtain ⟨hnone, hends⟩ := Bool.and_eq_true_iff.mp hends
  obtain ⟨rest, m₂, h₂, hyou⟩ := ok_of_ended hends
  obtain ⟨logs, m, h, -, hsame, -⟩ := simulate_splits_iff 2 3 _ _ _ _ _ h₁ h₂
  obtain rfl := hsame (of_decide_eq_true hnone)
  exact ⟨first, rest, logs, m₁, m₂, h₁, h₂, h, of_decide_eq_true hyou⟩

/-- A tiger that has won, and is to play on, falls. -/
theorem not_seamless : ¬∀ (n k : Nat) (settings : Settings Rat) (registry : Registry Rat)
    (heroes : Sides Hero) (keepsRecords : Bool) (first rest : List String)
    (m₁ m₂ : Match Rat Unit),
    simulate n (start settings registry () heroes keepsRecords) = .ok first m₁ →
    simulate k m₁ = .ok rest m₂ →
    ∃ logs m, simulate (n + k) (start settings registry () heroes keepsRecords) = .ok logs m ∧
      m₂.upshot = m.upshot := by
  intro hall
  have hends : ((ended? (simulate 20 tigers)).any fun (_, m) =>
      (ended? (simulate 1 m)).any fun (_, m) => decide (m.winner = some .ai)) = true := by
    decide +kernel
  have hwhole : ((ended? (simulate 21 tigers)).any fun (_, m) =>
      decide (m.winner = some .you)) = true := by
    decide +kernel
  obtain ⟨first, m₁, h₁, hends⟩ := ok_of_ended hends
  obtain ⟨rest, m₂, h₂, hai⟩ := ok_of_ended hends
  obtain ⟨_, whole, h, hyou⟩ := ok_of_ended hwhole
  obtain ⟨logs, m, hm, hsame⟩ := hall 20 1 _ _ _ _ _ _ _ _ h₁ h₂
  cases h.symm.trans hm
  have hw : m₂.winner = whole.winner := congrArg (·.2.1) hsame
  rw [of_decide_eq_true hai, of_decide_eq_true hyou] at hw
  cases hw

end Duel.Match
