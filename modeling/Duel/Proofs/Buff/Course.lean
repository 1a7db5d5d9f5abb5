import Duel.Proofs.Match.Life
import Mathlib.Data.List.Induction

namespace Duel.Buff

namespace Partition

/-- The buffs that are still pending after some triggers. -/
def remaining (buffs : List Buff) (past : List Trigger) : List Buff :=
  past.foldl (fun buffs t => (ofTrigger buffs t).pending) buffs

def next (buffs : List Buff) (past : List Trigger) (t : Trigger) : Partition :=
  ofTrigger (remaining buffs past) t

end Partition

variable {b : Buff} {past : List Trigger} {t : Trigger}

/-- A buff on its own, as long as it is pending. -/
def outlasting (b : Buff) (past : List Trigger) : Option Buff :=
  past.foldl (fun o t => o.bind (left (.trigger t))) (some b)

def verdict (past : List Trigger) (t : Trigger) (b : Buff) : Option (Buff × Fate) :=
  (b.outlasting past).map (·.fate t)

theorem outlasting_concat (b : Buff) (past : List Trigger) (t : Trigger) :
    b.outlasting (past ++ [t]) = (b.outlasting past).bind (left (.trigger t)) :=
  List.foldl_append

theorem remaining_eq (buffs : List Buff) (past : List Trigger) :
    Partition.remaining buffs past = buffs.filterMap (·.outlasting past) := by
  induction past using List.reverseRecOn with
  | nil => exact List.filterMap_some.symm
  | append_singleton past t ih =>
    have hstep : Partition.remaining buffs (past ++ [t]) =
        (Partition.ofTrigger (Partition.remaining buffs past) t).pending := List.foldl_append
    rw [hstep, ih, Partition.pending_ofTrigger, List.filterMap_filterMap]
    simp only [outlasting_concat]

/-- The buffs of a list do not bear on one another, and stay in their order. -/
theorem next_eq (buffs : List Buff) (past : List Trigger) (t : Trigger) :
    Partition.next buffs past t = .ofFates (buffs.filterMap (verdict past t)) := by
  rw [Partition.next, Partition.ofTrigger, remaining_eq, List.map_filterMap]
  rfl

/-- A turn of the owner ends, other than the one in which the buff was made. -/
def OwnTurnEnds (b : Buff) (t : Trigger) : Prop :=
  t.moment = .turnEnd ∧ t.owner = some b.owner ∧ t.turn ≠ b.made.turn

instance (b : Buff) (t : Trigger) : Decidable (b.OwnTurnEnds t) :=
  inferInstanceAs (Decidable (_ ∧ _))

def ownTurnEnds (b : Buff) (ts : List Trigger) : Nat := ts.countP fun t => b.OwnTurnEnds t

/-- What brings a buff to its end at a trigger, when some others were there before. -/
inductive Expires (b : Buff) (past : List Trigger) (t : Trigger) : Ending → Prop
  | nextAttack {e : Expiry} (he : b.expires = some e) (hk : e.kind = .nextAttack)
      (hm : t.moment = .nextAttackCommit) (ho : t.owner = some b.owner)
      (ht : t.turn ≠ b.made.turn) : Expires b past t .attackCommitted
  | endOfRound {e : Expiry} (he : b.expires = some e) (hk : e.kind = .endOfRound)
      (hr : b.made.round < t.round) : Expires b past t .roundOver
  | endOfYourNextTurn {e : Expiry} (he : b.expires = some e) (hk : e.kind = .endOfYourNextTurn)
      (ht : b.OwnTurnEnds t) : Expires b past t .turnOver
  | afterTurns {e : Expiry} (he : b.expires = some e) (hk : e.kind = .afterTurns)
      (ht : b.OwnTurnEnds t) (hn : (b.ownTurnEnds past : Int) + 1 = max 1 (e.turns.getD 1)) :
      Expires b past t .windowElapsed

def Matches (b : Buff) (t : Trigger) : Prop :=
  t.owner = some b.owner ∧ t.moment = b.usable ∧ (b.usable = .nextTurn → t.turn ≠ b.made.turn)

/-- What a trigger makes of a buff that has waited so far. To expire goes before to be used. -/
inductive Meets (b : Buff) (past : List Trigger) (t : Trigger) : Fate → Prop
  | expired {why : Ending} (h : b.Expires past t why) : Meets b past t (.expired why)
  | ready (h : ∀ why, ¬b.Expires past t why) (hm : b.Matches t) : Meets b past t .ready
  | pending (h : ∀ why, ¬b.Expires past t why) (hm : ¬b.Matches t) : Meets b past t .pending

/-- No trigger so far has made the buff expire or used it. -/
def Waits (b : Buff) (past : List Trigger) : Prop :=
  ∀ before t, before ++ [t] <+: past → (∀ why, ¬b.Expires before t why) ∧ ¬b.Matches t

/-- The buff with the turns that are left to it after some triggers. -/
def aged (b : Buff) (past : List Trigger) : Buff :=
  { b with turnsLeft := b.turnsLeft.map fun n => n - b.ownTurnEnds past }

theorem waits_nil (b : Buff) : b.Waits [] := by
  intro before t h
  simpa using List.prefix_nil.mp h

theorem waits_concat : b.Waits (past ++ [t]) ↔
    b.Waits past ∧ (∀ why, ¬b.Expires past t why) ∧ ¬b.Matches t := by
  constructor
  · intro h
    exact ⟨fun before u hu => h before u (hu.trans (List.prefix_append past [t])),
      h past t List.prefix_rfl⟩
  · rintro ⟨hw, ht⟩ before u hu
    obtain he | hp := List.prefix_concat_iff.mp hu
    · obtain ⟨rfl, rfl⟩ := List.append_singleton_inj.mp he
      exact ht
    · exact hw before u hp

theorem ownTurnEnds_concat (b : Buff) (past : List Trigger) (t : Trigger) :
    b.ownTurnEnds (past ++ [t]) = b.ownTurnEnds past + if b.OwnTurnEnds t then 1 else 0 := by
  simp [ownTurnEnds, List.countP_append, List.countP_singleton]

theorem aged_of_none (h : b.turnsLeft = none) (past : List Trigger) : b.aged past = b := by
  unfold aged
  rw [h, Option.map_none, ← h]

theorem atOwnTurnEnd_iff {b : Buff} {t : Trigger} :
    b.atOwnTurnEnd t = true ↔ b.OwnTurnEnds t := by
  simp [atOwnTurnEnd, inNewTurn, OwnTurnEnds, and_assoc]

theorem atOwnTurnEnd_aged (b : Buff) (past : List Trigger) (t : Trigger) :
    (b.aged past).atOwnTurnEnd t = decide (b.OwnTurnEnds t) := by
  rw [Bool.eq_iff_iff, decide_eq_true_iff]
  exact atOwnTurnEnd_iff

theorem isUsableAt_aged (b : Buff) (past : List Trigger) (t : Trigger) :
    (b.aged past).isUsableAt t = true ↔ b.Matches t := by
  have hturn : (b.usable = .nextTurn → t.turn ≠ b.made.turn) ↔
      b.usable ≠ .nextTurn ∨ t.turn ≠ b.made.turn := imp_iff_not_or
  rw [Matches, hturn, eq_comm (a := t.owner), eq_comm (a := t.moment)]
  simp [isUsableAt, inNewTurn, aged, and_assoc]

def Made (b : Buff) : Prop := b.turnsLeft = b.expires.bind (·.turnsLeft)

theorem Made.limited_or (h : b.Made) :
    (∃ e, b.expires = some e ∧ e.kind = .afterTurns ∧
      b.turnsLeft = some (max 1 (e.turns.getD 1))) ∨
    (∀ e, b.expires = some e → e.kind ≠ .afterTurns) ∧ b.turnsLeft = none := by
  cases he : b.expires with
  | none =>
    have hl : b.turnsLeft = none := by rw [h, he, Option.bind_none]
    exact .inr ⟨fun e hs => (Option.some_ne_none e hs.symm).elim, hl⟩
  | some e =>
    have hl : b.turnsLeft = e.turnsLeft := by rw [h, he, Option.bind_some]
    by_cases hk : e.kind = .afterTurns
    · exact .inl ⟨e, rfl, hk, hl.trans (if_pos hk)⟩
    · exact .inr ⟨fun _ hs => Option.some.inj hs ▸ hk, hl.trans (if_neg hk)⟩

theorem Waits.ownTurnEnds_lt (hw : b.Waits past) {e : Expiry} (he : b.expires = some e)
    (hk : e.kind = .afterTurns) : (b.ownTurnEnds past : Int) < max 1 (e.turns.getD 1) := by
  induction past using List.reverseRecOn with
  | nil =>
    change (0 : Int) < _
    omega
  | append_singleton past t ih =>
    obtain ⟨hw, hx, -⟩ := waits_concat.mp hw
    have hlt := ih hw
    rw [ownTurnEnds_concat]
    by_cases ht : b.OwnTurnEnds t
    · have hne : (b.ownTurnEnds past : Int) + 1 ≠ max 1 (e.turns.getD 1) :=
        fun hn => hx _ (.afterTurns he hk ht hn)
      rw [if_pos ht]
      omega
    · rw [if_neg ht]
      exact hlt

theorem Waits.turnsLeft_aged (hw : b.Waits past) {e : Expiry} (he : b.expires = some e)
    (hk : e.kind = .afterTurns) (hl : b.turnsLeft = some (max 1 (e.turns.getD 1))) :
    ∃ n : Int, 0 < n ∧ (b.ownTurnEnds past : Int) + n = max 1 (e.turns.getD 1) ∧
      (b.aged past).turnsLeft = some n := by
  have hlt := hw.ownTurnEnds_lt he hk
  refine ⟨max 1 (e.turns.getD 1) - b.ownTurnEnds past, by omega, by omega, ?_⟩
  rw [aged, hl, Option.map_some]

theorem countDown_aged (hb : b.Made) (hw : b.Waits past) (t : Trigger) :
    (b.aged past).countDown t = b.aged (past ++ [t]) := by
  obtain ⟨e, he, hk, hl⟩ | ⟨-, hl⟩ := hb.limited_or
  · obtain ⟨n, hpos, hn, hleft⟩ := hw.turnsLeft_aged he hk hl
    have hlater : b.aged (past ++ [t]) =
        { b.aged past with turnsLeft := some (n - if b.OwnTurnEnds t then 1 else 0) } := by
      rw [aged, hl, ownTurnEnds_concat, aged, Option.map_some]
      congr 2
      split <;> omega
    rw [hlater, countDown, hleft]
    dsimp only
    rw [atOwnTurnEnd_aged]
    by_cases ht : b.OwnTurnEnds t
    · simp [ht, hpos]
    · simp [ht, ← hleft]
  · rw [aged_of_none hl, aged_of_none hl, countDown, hl]

theorem expires_countDown (b : Buff) (t : Trigger) : (b.countDown t).expires = b.expires := by
  unfold countDown
  split
  · split <;> rfl
  · rfl

def ending (b : Buff) (t : Trigger) : Option Ending :=
  if b.runsOut t then some .windowElapsed else (b.countDown t).ending? t

theorem fate_of_ending {why : Ending} (h : b.ending t = some why) :
    (b.fate t).2 = .expired why := by
  unfold ending at h
  simp only [fate, h]

theorem fate_of_no_ending (h : b.ending t = none) :
    (b.fate t).2 = if (b.countDown t).isUsableAt t then .ready else .pending := by
  unfold ending at h
  simp only [fate, h]

theorem ending_of_limited (hw : b.Waits past) {e : Expiry} (he : b.expires = some e)
    (hk : e.kind = .afterTurns) (hl : b.turnsLeft = some (max 1 (e.turns.getD 1))) (t : Trigger)
    (why : Ending) : (b.aged past).ending t = some why ↔ b.Expires past t why := by
  obtain ⟨n, hpos, hn, hleft⟩ := hw.turnsLeft_aged he hk hl
  have hx : b.Expires past t why ↔ (n = 1 ∧ b.OwnTurnEnds t) ∧ why = .windowElapsed := by
    constructor
    · intro h
      cases h with
      | afterTurns he' _ ht hlast =>
        obtain rfl := Option.some.inj (he.symm.trans he')
        exact ⟨⟨by omega, ht⟩, rfl⟩
      | nextAttack he' hk' | endOfRound he' hk' | endOfYourNextTurn he' hk' =>
        obtain rfl := Option.some.inj (he.symm.trans he')
        cases hk.symm.trans hk'
    · rintro ⟨⟨rfl, ht⟩, rfl⟩
      exact .afterTurns he hk ht hn
  rw [hx, ending, runsOut, hleft, atOwnTurnEnd_aged]
  by_cases hout : n = 1 ∧ b.OwnTurnEnds t
  · simp [hout, eq_comm]
  · -- Should one of the turns have gone, there is still another left.
    have hlater : ∃ k : Int, 0 < k ∧ ((b.aged past).countDown t).turnsLeft = some k := by
      rw [countDown, hleft]
      dsimp only
      rw [atOwnTurnEnd_aged]
      by_cases ht : b.OwnTurnEnds t
      · have hne : n ≠ 1 := fun h => hout ⟨h, ht⟩
        exact ⟨n - 1, by omega, by simp [hpos, ht]⟩
      · exact ⟨n, hpos, by simp [ht, hleft]⟩
    obtain ⟨k, hkpos, hlater⟩ := hlater
    have hstays : ((b.aged past).countDown t).ending? t = none := by
      have hx : (b.aged past).expires = some e := he
      simp [ending?, expires_countDown, hx, expiring, hk, hlater, hkpos]
    rw [hstays]
    simp [hout]

theorem ending_of_unlimited (hk : ∀ e, b.expires = some e → e.kind ≠ .afterTurns)
    (hl : b.turnsLeft = none) (past : List Trigger) (t : Trigger) (why : Ending) :
    b.ending t = some why ↔ b.Expires past t why := by
  have hending : b.ending t = b.ending? t := by simp [ending, runsOut, countDown, hl]
  rw [hending, ending?, Option.bind_eq_some_iff]
  constructor
  · rintro ⟨e, he, hx⟩
    unfold expiring at hx
    split at hx
    next hkind =>
      split at hx <;> cases hx
      next hc =>
        obtain ⟨⟨hm, ho⟩, ht⟩ := by simpa [inNewTurn] using hc
        exact .nextAttack he hkind hm ho ht
    next hkind =>
      split at hx <;> cases hx
      next hc => exact .endOfRound he hkind hc
    next hkind =>
      split at hx <;> cases hx
      next hc => exact .endOfYourNextTurn he hkind (atOwnTurnEnd_iff.mp hc)
    next hkind => exact absurd hkind (hk e he)
  · intro h
    cases h with
    | nextAttack he hkind hm ho ht =>
      exact ⟨_, he, by simp [expiring, hkind, inNewTurn, hm, ho, ht]⟩
    | endOfRound he hkind hr => exact ⟨_, he, by simp [expiring, hkind, hr]⟩
    | endOfYourNextTurn he hkind ht =>
      exact ⟨_, he, by simp [expiring, hkind, atOwnTurnEnd_iff.mpr ht]⟩
    | afterTurns he hkind => exact absurd hkind (hk _ he)

theorem ending_aged (hb : b.Made) (hw : b.Waits past) (t : Trigger) (why : Ending) :
    (b.aged past).ending t = some why ↔ b.Expires past t why := by
  obtain ⟨e, he, hk, hl⟩ | ⟨hk, hl⟩ := hb.limited_or
  · exact ending_of_limited hw he hk hl t why
  · rw [aged_of_none hl]
    exact ending_of_unlimited hk hl past t why

theorem fate_aged (hb : b.Made) (hw : b.Waits past) (t : Trigger) :
    ((b.aged past).fate t).1 = b.aged (past ++ [t]) ∧
      b.Meets past t ((b.aged past).fate t).2 := by
  have hage := countDown_aged hb hw t
  have hend := ending_aged hb hw t
  refine ⟨hage, ?_⟩
  cases hx : (b.aged past).ending t with
  | some why =>
    rw [fate_of_ending hx]
    exact .expired ((hend why).mp hx)
  | none =>
    have hnot : ∀ why, ¬b.Expires past t why := by
      intro why h
      rw [(hend why).mpr h] at hx
      cases hx
    rw [fate_of_no_ending hx, hage]
    by_cases hm : b.Matches t
    · rw [if_pos ((isUsableAt_aged b _ t).mpr hm)]
      exact .ready hnot hm
    · rw [if_neg fun h => hm ((isUsableAt_aged b _ t).mp h)]
      exact .pending hnot hm

theorem Meets.unique {f g : Fate} (hb : b.Made) (hw : b.Waits past) (h : b.Meets past t f)
    (h' : b.Meets past t g) : f = g := by
  cases h with
  | expired hx =>
    cases h' with
    | expired hx' =>
      have hwhy := ((ending_aged hb hw t _).mpr hx).symm.trans ((ending_aged hb hw t _).mpr hx')
      rw [Option.some.inj hwhy]
    | ready hn | pending hn => exact absurd hx (hn _)
  | ready hn hm =>
    cases h' with
    | expired hx => exact absurd hx (hn _)
    | ready => rfl
    | pending _ hm' => exact absurd hm hm'
  | pending hn hm =>
    cases h' with
    | expired hx => exact absurd hx (hn _)
    | ready _ hm' => exact absurd hm' hm
    | pending => rfl

theorem left_trigger (b : Buff) (t : Trigger) :
    left (.trigger t) b = if (b.fate t).2 = .pending then some (b.fate t).1 else none := by
  unfold left Standing.meet Standing.trigger
  dsimp only
  rcases b.fate t with ⟨later, f⟩
  cases f <;> simp [Standing.pending?]

theorem waits_concat_iff_meets :
    b.Waits (past ++ [t]) ↔ b.Waits past ∧ b.Meets past t .pending := by
  rw [waits_concat]
  refine and_congr_right fun _ => ⟨fun h => .pending h.1 h.2, fun h => ?_⟩
  cases h with
  | pending hn hm => exact ⟨hn, hm⟩

/-- A buff is pending exactly as long as it waits. -/
theorem outlasting_eq_some_iff (hb : b.Made) {c : Buff} :
    b.outlasting past = some c ↔ b.Waits past ∧ b.aged past = c := by
  induction past using List.reverseRecOn generalizing c with
  | nil =>
    have hage : b.aged [] = b := by simp [aged, ownTurnEnds]
    simp [outlasting, waits_nil, hage]
  | append_singleton past t ih =>
    rw [outlasting_concat, waits_concat_iff_meets, Option.bind_eq_some_iff]
    constructor
    · rintro ⟨d, hd, hc⟩
      obtain ⟨hw, rfl⟩ := ih.mp hd
      obtain ⟨hage, hmeets⟩ := fate_aged hb hw t
      rw [left_trigger] at hc
      split at hc
      next hf => exact ⟨⟨hw, hf ▸ hmeets⟩, hage.symm.trans (Option.some.inj hc)⟩
      next => cases hc
    · rintro ⟨⟨hw, hp⟩, rfl⟩
      obtain ⟨hage, hmeets⟩ := fate_aged hb hw t
      refine ⟨b.aged past, ih.mpr ⟨hw, rfl⟩, ?_⟩
      rw [left_trigger, if_pos (hmeets.unique hb hw hp), hage]

theorem verdict_eq_some_iff (hb : b.Made) {x : Buff × Fate} :
    verdict past t b = some x ↔
      b.Waits past ∧ b.aged (past ++ [t]) = x.1 ∧ b.Meets past t x.2 := by
  rw [verdict, Option.map_eq_some_iff]
  constructor
  · rintro ⟨c, hc, rfl⟩
    obtain ⟨hw, rfl⟩ := (outlasting_eq_some_iff hb).mp hc
    obtain ⟨hage, hmeets⟩ := fate_aged hb hw t
    exact ⟨hw, hage.symm, hmeets⟩
  · rintro ⟨hw, hx, hmeets⟩
    obtain ⟨hage, hmeets'⟩ := fate_aged hb hw t
    refine ⟨b.aged past, (outlasting_eq_some_iff hb).mpr ⟨hw, rfl⟩, ?_⟩
    exact Prod.ext (hage.trans hx) (hmeets'.unique hb hw hmeets)

/-- A buff of a grant waits until the first trigger at which it expires or is used, where to expire
goes first. Whatever else is in a list with it has no say in this, and the order stays. -/
theorem grants_run_their_course (grants : List Grant) (ctx : Grant.Context) {b : Buff}
    (hb : b ∈ Grant.toBuffs grants ctx) (past : List Trigger) (t : Trigger) :
    b.made = ⟨ctx.round, ctx.turn⟩ ∧
    (∀ x, verdict past t b = some x ↔
      b.Waits past ∧ b.aged (past ++ [t]) = x.1 ∧ b.Meets past t x.2) ∧
    ∀ buffs, Partition.next buffs past t = .ofFates (buffs.filterMap (verdict past t)) := by
  obtain ⟨hborn, hmade⟩ := Grant.mem_toBuffs hb
  exact ⟨hborn, fun x => verdict_eq_some_iff hmade, fun buffs => next_eq buffs past t⟩

def vow : Grant where
  status := "chi"
  usable := .nextDefenseCommit
  expires := some ⟨.afterTurns, some 2⟩

def firstTurn : Grant.Context := ⟨.you, .ai, 1, "t1"⟩

def sworn : Buff := vow.toBuff firstTurn 0

def evenings : List Trigger := [⟨.turnEnd, some .ai, "t2", 1⟩, ⟨.turnEnd, some .you, "t3", 2⟩]

def lastEvening : Trigger := ⟨.turnEnd, some .ai, "t4", 2⟩

theorem grants_run_their_course_vow : sworn ∈ Grant.toBuffs [vow] firstTurn ∧
    sworn.Waits evenings ∧ sworn.Meets evenings lastEvening (.expired .windowElapsed) ∧
    (Partition.next [sworn, sworn] evenings lastEvening).expired =
      [({ sworn with turnsLeft := some 0 }, .windowElapsed),
       ({ sworn with turnsLeft := some 0 }, .windowElapsed)] := by
  have hmem : sworn ∈ Grant.toBuffs [vow] firstTurn := by decide
  obtain ⟨-, hverdict, hnext⟩ := grants_run_their_course [vow] firstTurn hmem evenings lastEvening
  have hlast : verdict evenings lastEvening sworn =
      some ({ sworn with turnsLeft := some 0 }, .expired .windowElapsed) := by decide
  obtain ⟨hwaits, -, hmeets⟩ := (hverdict _).mp hlast
  refine ⟨hmem, hwaits, hmeets, ?_⟩
  rw [hnext, List.filterMap_cons, List.filterMap_cons, hlast]
  rfl

end Duel.Buff
