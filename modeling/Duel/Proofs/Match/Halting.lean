import Duel.Proofs.Match.Score

namespace Duel

/-- A fault in telling of something: a number that cannot be written, or a length of time that
cannot be measured. -/
def Fault.Telling : Fault → Prop
  | .number _ | .invalid _ => True
  | _ => False

namespace Match

variable {R G α : Type} {m m' : Match R G} {fault : Fault}

theorem tell_sure (x : Traced α) : Sure (tell x : Step R G α) := .change (.pure _)

theorem trigger_sure (moment : Buff.Moment) (owner : Option Side) :
    Sure (trigger moment owner : Step R G (List String)) := by
  refine .read fun m => (Blames.mapM (fun b => .read fun m => ?_) _).bind fun _ => ?_
  · exact (tell_sure _).bind fun _ => (Blames.modify _).bind fun _ => .pure _
  · exact .change (.pure _)

theorem grantAll_sure (attacker : Side) (ability : Ability) :
    Sure (grantAll attacker ability : Step R G Unit) := by
  refine (Blames.forIn (fun (id, n) _ => .read fun m => ?_) _ _).bind fun _ => .pure _
  cases m.registry.get? id with
  | none => exact (Blames.pure _).bind fun _ => .pure _
  | some status =>
    exact (Blames.read fun _ => (tell_sure _).bind fun _ => .modify _).bind fun _ => .pure _

theorem keepUpkeep_sure (side : Side) (outcome : Attack.Outcome) :
    Sure (keepUpkeep side outcome : Step R G Unit) :=
  .read fun _ => .modify _

theorem knockOuts_sure (down : Option Side) :
    Sure (down.forM (knockOut (R := R) (G := G)) : Step R G PUnit) := by
  cases down with
  | none => exact .pure _
  | some down => exact .modify _

theorem digits_tells (n : Int) : Blames Fault.Telling (digits n : Step R G String) := by
  intro s e t he
  unfold digits at he
  cases hn : Number.digits n with
  | ok text =>
    rw [hn] at he
    cases he
  | error cause =>
    rw [hn] at he
    cases he
    trivial

theorem atDesk_tells (x : Cue.Desk.Work R (Stage R) Unit) :
    Blames Fault.Telling (atDesk x : Step R G Unit) := by
  intro s e t he
  unfold atDesk at he
  cases hx : x s.desk with
  | ok a desk =>
    rw [hx] at he
    cases he
  | error cause desk =>
    rw [hx] at he
    cases he
    cases cause <;> trivial

def belongings (m : Match R G) : Sides Player × List Buff × Sides (List Tick.Prompt) :=
  (m.players, m.buffs, m.prompts)

theorem spares_belongings {x : Step R G α} (h : Spares table x) : Spares belongings x :=
  h.comp fun t => (t.2.1, t.2.2.1, t.2.2.2.2)

variable [Scalar R]

theorem announce_tells (key : String) (cue : Cue R) :
    Blames Fault.Telling (announce key cue : Step R G Unit) := by
  refine .read fun m => Blames.bind (fun s e t he => ?_) fun _ => atDesk_tells _
  cases hl : Cue.measure "duration_ms" (m.settings.lengthOf key) with
  | ok length =>
    rw [hl] at he
    cases he
  | error cause =>
    rw [hl] at he
    cases he
    trivial

theorem announceOutcome_tells (side : Side) (res : Attack.Resolution) :
    Blames Fault.Telling (announceOutcome side res : Step R G Unit) :=
  (digits_tells _).bind fun _ => (digits_tells _).bind fun _ => announce_tells _ _

theorem announceTick_tells (side : Side) (tick : Tick.Outcome) :
    Blames Fault.Telling (announceTick side tick : Step R G Unit) :=
  (Blames.forIn (fun _ _ => (announce_tells _ _).bind fun _ => .pure _) _ _).bind fun _ =>
    (Blames.forIn (fun _ _ => (announce_tells _ _).bind fun _ => .pure _) _ _).bind fun _ =>
      .pure _

theorem announce_belongings (key : String) (cue : Cue R) :
    Spares belongings (announce key cue : Step R G Unit) := by
  refine .read fun m => (spares_belongings (ofExcept_spares _)).bind fun _ s => ?_
  unfold Comes ask atDesk
  cases Cue.Desk.run _ s.desk <;> rfl

/-- An attack is prepared in two steps: nothing changes before stacks are spent, and after that
only the cue can fail. -/
theorem prepare_error {side : Side} {ability : Ability} {orders : Orders}
    (h : prepare side ability orders m = .error fault m') : m'.table = m.table ∨
      fault.Telling ∧ ∃ held, m'.belongings =
        (m.players.set side { m.player side with statuses := held }, m.buffs, m.prompts) := by
  obtain h | ⟨_, _, hg, h⟩ := bind_error h
  · cases h
  obtain ⟨rfl, rfl⟩ := get_ok hg
  obtain h | ⟨modified, u, hm, h⟩ := bind_error h
  · exact .inl ((play_spares _).error h)
  have hu := (play_spares _).ok hm
  obtain h | ⟨⟨held, spends⟩, v, hs, h⟩ := bind_error h
  · exact .inl (((spendAll_spares _ _ _ _).error h).trans hu)
  have hv := ((spendAll_spares _ _ _ _).ok hs).trans hu
  obtain h | ⟨_, w, ht, h⟩ := bind_error h
  · cases h
  obtain rfl := setStatuses_ok ht
  refine .inr ⟨?_, held, ?_⟩
  · exact ((digits_tells _).bind fun _ => (announce_tells _ _).bind fun _ => .pure _) _ _ _ h
  · have hb := ((spares_belongings (digits_spares _)).bind fun _ =>
      (announce_belongings _ _).bind fun _ => .pure _).error h
    have hp : v.players = m.players := congrArg (fun t => t.2.1) hv
    have hd : v.buffs = m.buffs := congrArg (fun t => t.2.2.1) hv
    have hq : v.prompts = m.prompts := congrArg (fun t => t.2.2.2.2) hv
    rw [hb]
    simp only [belongings, player, hp, hd, hq]

theorem startTurn_error {side : Side} (h : startTurn side m = .error fault m') :
    m'.score = m.score.opened side ∨
      fault.Telling ∧ ∃ d, 0 ≤ d ∧ m'.score = m.score.begun side d := by
  unfold startTurn at h
  obtain h | ⟨_, _, ho, h⟩ := bind_error h
  · cases h
  obtain rfl := modify_ok ho
  obtain h | ⟨_, _, hg, h⟩ := bind_error h
  · cases h
  obtain ⟨rfl, rfl⟩ := get_ok hg
  obtain h | ⟨_, u, hu, h⟩ := bind_error h
  · exact .inl ((announce_spares _ _).error h)
  obtain h | ⟨early, v, hv, h⟩ := bind_error h
  · exact (trigger_sure _ _ _ _ _ h).elim
  obtain h | ⟨late, w, hw, h⟩ := bind_error h
  · exact (trigger_sure _ _ _ _ _ h).elim
  have hs : w.score = m.score.opened side :=
    ((trigger_spares _ _).ok hw).trans (((trigger_spares _ _).ok hv).trans
      ((announce_spares _ _).ok hu))
  obtain h | ⟨tick, x, hx, h⟩ := bind_error h
  · exact .inl (((takeTick_comes side w).of_error h).trans hs)
  obtain ⟨hd, hx⟩ := (takeTick_comes side w).of_ok hx
  rw [hs] at hx
  obtain h | ⟨_, y, hy, h⟩ := bind_error h
  · exact .inr ⟨announceTick_tells _ _ _ _ _ h, _, hd, ((announceTick_spares _ _).error h).trans hx⟩
  obtain h | ⟨_, _, hg, h⟩ := bind_error h
  · cases h
  obtain ⟨rfl, rfl⟩ := get_ok hg
  dsimp only at h
  split at h
  · cases h
  · exact ((Blames.change ((keepUpkeep_sure _ _).bind fun _ => .pure _) :
      Sure (_ : Step R G (List String))) _ _ _ h).elim

variable [Dice.Source G]

/-- Where an attack of a side with an ability breaks off, and what it leaves. -/
inductive Halt (side : Side) (ability : Ability) (orders : Orders) (m : Match R G) (fault : Fault)
    (m' : Match R G) : Prop
  /-- The attack cannot be prepared: nothing but stacks has been spent on it. -/
  | preparing {commits : List String} {u : Match R G}
      (commits : trigger .nextAttackCommit side m = .ok commits u)
      (score : m'.score = m.score)
      (rest : m'.table = u.table ∨ fault.Telling ∧ ∃ held, m'.belongings =
        (u.players.set side { u.player side with statuses := held }, u.buffs, u.prompts))
  /-- The defence cannot be planned, or what comes of it cannot be reckoned: nothing at all has
  been done for it. -/
  | defending {commits answers : List String} {damage : Int} {spends : List (Spend.Summary R)}
      {u v w : Match R G} (commits : trigger .nextAttackCommit side m = .ok commits u)
      (prepares : prepare side ability orders u = .ok (damage, spends) v)
      (answers : trigger .nextDefenseCommit side.other v = .ok answers w)
      (score : m'.score = m.score) (rest : m'.table = w.table)
  /-- After the blow it cannot be told of. -/
  | telling (b : Blow R G) (blow : b.Of side ability orders m) (tells : fault.Telling)
      (score : m'.score = m.score.hit side b.resolution)

theorem strike_error {ability : Ability} {orders : Orders}
    (h : strike ability orders m = .error fault m') :
    Halt m.active ability orders m fault m' := by
  unfold strike at h
  obtain h | ⟨_, _, hg, h⟩ := bind_error h
  · cases h
  obtain ⟨rfl, rfl⟩ := get_ok hg
  obtain h | ⟨commits, u, hc, h⟩ := bind_error h
  · exact (trigger_sure _ _ _ _ _ h).elim
  have hu : u.score = m.score := (trigger_spares _ _).ok hc
  obtain h | ⟨⟨damage, spends⟩, v, hp, h⟩ := bind_error h
  · exact .preparing hc (((prepare_spares _ _ _).error h).trans hu) (prepare_error h)
  obtain h | ⟨answers, w, ha, h⟩ := bind_error h
  · exact (trigger_sure _ _ _ _ _ h).elim
  have hw : w.score = m.score :=
    ((trigger_spares _ _).ok ha).trans (((prepare_spares _ _ _).ok hp).trans hu)
  have hdef (hm' : m'.table = w.table) : Halt m.active ability orders m fault m' :=
    .defending hc hp ha ((congrArg Prod.fst hm').trans hw) hm'
  obtain h | ⟨_, _, hg, h⟩ := bind_error h
  · cases h
  obtain ⟨rfl, rfl⟩ := get_ok hg
  obtain h | ⟨plan, x, hd, h⟩ := bind_error h
  · exact hdef ((defend_spares _ _ _).error h)
  have hx := (defend_spares _ _ _).ok hd
  obtain h | ⟨_, _, hg, h⟩ := bind_error h
  · cases h
  obtain ⟨rfl, rfl⟩ := get_ok hg
  obtain h | ⟨res, y, hr, h⟩ := bind_error h
  · exact hdef (((ofExcept_spares _).error h).trans hx)
  obtain ⟨he, rfl⟩ := ofExcept_ok hr
  let b : Blow R G := ⟨commits, u, damage, spends, v, answers, w, plan, x, res⟩
  have hb : b.Of m.active ability orders m := ⟨hc, hp, ha, hd, mapError_ok he⟩
  obtain h | ⟨_, _, h₁, h⟩ := bind_error h
  · cases h
  obtain rfl := setPlayer_ok h₁
  obtain h | ⟨_, _, h₂, h⟩ := bind_error h
  · cases h
  obtain rfl := setPlayer_ok h₂
  obtain h | ⟨_, g, h₃, h⟩ := bind_error h
  · exact (grantAll_sure _ _ _ _ _ h).elim
  have hg : g.score = m.score.hit m.active res :=
    ((grantAll_spares _ _).ok h₃).trans hb.hit_score
  obtain h | ⟨_, _, h₄, h⟩ := bind_error h
  · cases h
  obtain rfl := modify_ok h₄
  obtain h | ⟨_, t, h₅, h⟩ := bind_error h
  · exact .telling b hb (announceOutcome_tells _ _ _ _ _ h)
      (((announceOutcome_spares _ _).error h).trans hg)
  have hsure : Sure (((fallen m.active res.outcome).forM knockOut >>= fun _ =>
      keep (recordOf x ability damage (w.player m.active.other)
        (spends ++ plan.resolution.spends) res) >>= fun _ =>
      pure { res with logs := commits ++ answers ++ res.logs }) : Step R G Attack.Resolution) :=
    (knockOuts_sure _).bind fun _ => (Blames.modify _).bind fun _ => .pure _
  exact (hsure _ _ _ h).elim

theorem attack_error {orders : Orders} (h : attack orders m = .error fault m') : m' = m ∨
    ∃ ability, choose (m.player m.active).hero orders = .ok (some ability) ∧
      Halt m.active ability orders m fault m' := by
  obtain h | ⟨_, _, hg, h⟩ := bind_error h
  · cases h
  obtain ⟨rfl, rfl⟩ := get_ok hg
  obtain h | ⟨ability, _, ho, h⟩ := bind_error h
  · cases hc : choose (m.player m.active).hero orders with
    | ok ability =>
      rw [hc] at h
      cases h
    | error cause =>
      rw [hc] at h
      cases h
      exact .inl rfl
  obtain ⟨hc, rfl⟩ := ofExcept_ok ho
  cases ability with
  | none => exact (((keepUpkeep_sure _ _).bind fun _ => Blames.pure _) _ _ _ h).elim
  | some ability =>
    obtain h | ⟨_, _, _, h⟩ := bind_error h
    · exact .inr ⟨ability, hc, strike_error h⟩
    · cases h

/-- Only a blow that cannot be told of changes what is scored in an attack that breaks off. -/
theorem Halt.score_cases {side : Side} {ability : Ability} {orders : Orders}
    (h : Halt side ability orders m fault m') : m'.score = m.score ∨
      ∃ b : Blow R G, b.Of side ability orders m ∧ fault.Telling ∧
        m'.score = m.score.hit side b.resolution := by
  cases h with
  | preparing _ score _ => exact .inl score
  | defending _ _ _ score _ => exact .inl score
  | telling b blow tells score => exact .inr ⟨b, blow, tells, score⟩

def chi : Status Rat where
  id := "chi"
  name := "Chi"
  spend := some { phases := [.attackRoll], apply := some fun _ => .ok (some { damage := some 1 }) }

def struck : Orders :=
  { dice := [3, 3, 3, 1, 2], spends := .ofList [("chi", 2)]
    requests := [{ status := "burn", required := true }] }

end Match

end Duel
