import Duel.Proofs.Match.Run

namespace Duel

def Defense.Plan.granting {R : Type} (p : Defense.Plan R) (grants : List Grant) :
    Defense.Plan R :=
  { p with resolution.grants := grants }

namespace Defense

variable {R : Type} [Scalar R]

/-- A defence is planned without a look at what it grants. -/
theorem plan_granting {defender : Player} {attacker : Side} {incoming : Int} {base : Base R}
    {requests : List Request} {reg : Registry R} {p : Plan R} {fs gs : Formula.Cache}
    {es : List Event} (h : Plays (plan defender attacker incoming base requests reg) fs p gs es)
    (grants : List Grant) :
    Plays (plan defender attacker incoming { base with grants } requests reg) fs
      (p.granting grants) gs es := by
  unfold plan at h ⊢
  obtain ⟨held, fs₁, es₁, ds₁, ha, h₁, rfl⟩ := h.bind
  obtain ⟨modified, fs₂, es₂, ds₂, hm, h₂, rfl⟩ := h₁.bind
  obtain ⟨served, fs₃, es₃, ds₃, hs, h₃, rfl⟩ := h₂.bind
  refine ha.after (hm.after (hs.after ?_))
  cases h₃
  rfl

end Defense

namespace Match

variable {R G α : Type} {m m' : Match R G}

def Orders.granting (orders : Orders) (grants : List Grant) : Orders := { orders with grants }

def Orders.without (orders : Orders) (i : Nat) : Orders :=
  orders.granting (orders.grants.eraseIdx i)

/-- Work that neither looks at the buffs that wait nor changes them. -/
def Blind (x : Step R G α) : Prop :=
  ∀ m buffs, x (m.withBuffs buffs) = seen (·.withBuffs buffs) (x m)

namespace Blind

variable {β : Type}

theorem bind {x : Step R G α} {f : α → Step R G β} (h : Blind x) (hf : ∀ a, Blind (f a)) :
    Blind (x >>= f) :=
  fun m buffs => seen_bind (v := (·.withBuffs buffs)) (h m buffs) fun a t => hf a t buffs

theorem ofExcept (x : Except Fault α) : Blind (ofExcept x : Step R G α) := by
  cases x <;> exact fun _ _ => rfl

theorem digits (n : Int) : Blind (digits n : Step R G String) := ofExcept _

theorem atDesk (x : Cue.Desk.Work R (Stage R) Unit) : Blind (atDesk x : Step R G Unit) := by
  intro m buffs
  unfold Match.atDesk
  rw [show (m.withBuffs buffs).desk = m.desk from rfl]
  cases x m.desk <;> rfl

theorem keep (r : Record) : Blind (keep r : Step R G Unit) := fun _ _ => rfl

variable [Scalar R]

theorem announce (key : String) (cue : Cue R) : Blind (announce key cue : Step R G Unit) :=
  fun m buffs => ((ofExcept _).bind fun _ => atDesk _) m buffs

theorem announceOutcome (side : Side) (res : Attack.Resolution) :
    Blind (announceOutcome side res : Step R G Unit) :=
  (digits _).bind fun _ => (digits _).bind fun _ => announce _ _

end Blind

theorem Blind.ok {x : Step R G α} (hx : Blind x) {a : α} (h : x m = .ok a m') (buffs : List Buff) :
    x (m.withBuffs buffs) = .ok a (m'.withBuffs buffs) := by
  rw [hx, h]
  rfl

variable [Scalar R]

theorem plan_play_granting {side attacker : Side} {incoming : Int} {base : Defense.Base R}
    {requests : List Defense.Request} {p : Defense.Plan R}
    (h : play (Defense.plan (m.player side) attacker incoming base requests m.registry) m =
      .ok p m') (grants : List Grant) :
    play (Defense.plan (m.player side) attacker incoming { base with grants } requests m.registry)
      m = .ok (p.granting grants) m' := by
  obtain ⟨gs, es, hp, rfl⟩ := play_ok h
  exact play_of_plays (Defense.plan_granting hp grants)

variable [Dice.Source G]

theorem defend_granting {side : Side} {incoming : Int} {orders : Orders} {p : Defense.Plan R}
    (h : defend side incoming orders m = .ok p m') (grants : List Grant) :
    defend side incoming (orders.granting grants) m = .ok (p.granting grants) m' := by
  unfold defend at h ⊢
  cases ho : orders.defenseRoll with
  | some n =>
    rw [ho] at h
    rw [show (orders.granting grants).defenseRoll = _ from ho]
    obtain ⟨roll, _, hr, h⟩ := bind_ok h
    obtain ⟨_, _, hg, h⟩ := bind_ok h
    obtain ⟨rfl, rfl⟩ := get_ok hg
    exact (bind_of_ok hr _).trans ((get_bind _ _).trans (plan_play_granting h grants))
  | none =>
    rw [ho] at h
    rw [show (orders.granting grants).defenseRoll = _ from ho]
    obtain ⟨roll, _, hr, h⟩ := bind_ok h
    obtain ⟨_, _, hg, h⟩ := bind_ok h
    obtain ⟨rfl, rfl⟩ := get_ok hg
    exact (bind_of_ok hr _).trans ((get_bind _ _).trans (plan_play_granting h grants))

theorem Stages.Of.clock {s : Stages R G} {ability : Ability} {orders : Orders}
    {res : Attack.Resolution} (h : s.Of m.active ability orders m res m') :
    s.granted.turns = m.turns ∧ s.granted.round = m.round := by
  obtain ⟨es, hd, -⟩ := defend_defends h.defends
  have hc := ((trigger_leads h.commits).trans
    ((prepare_leads h.prepares).trans (trigger_leads h.answers))).clock (by simp)
  have hg := (grantAll_leads h.grants).clock (by simp)
  exact ⟨hg.1.trans ((congrArg Board.turns hd).trans hc.1),
    hg.2.trans ((congrArg Board.round hd).trans hc.2)⟩

/-- The same stages with other grants, which leave these buffs in the end. -/
def Stages.granting (s : Stages R G) (grants : List Grant) (buffs : List Buff) : Stages R G :=
  { s with
    plan := s.plan.granting grants
    told := s.told.withBuffs buffs
    settled := s.settled.withBuffs buffs }

/-- An attack that goes on leaves the same match whatever it grants, but for the buffs that come
of the grants. -/
theorem strike_granting {ability : Ability} {orders : Orders} {res : Attack.Resolution}
    (h : strike ability orders m = .ok res m') (ho : res.outcome = .goesOn) :
    ∃ kept : List Buff, ∀ grants, strike ability (orders.granting grants) m = .ok res
      (m'.withBuffs (kept ++ bornIn m.board (orders.granting grants))) := by
  obtain ⟨s, hs⟩ := strike_iff.mp h
  -- Nobody falls, so that the buffs are not looked at again once the grants are made.
  have hf : fallen m.active s.resolution.outcome = none := by
    rw [hs.result] at ho
    rw [show s.resolution.outcome = .goesOn from ho]
    rfl
  have he : s.told = s.settled := by
    have hk := hs.fells
    rw [hf] at hk
    exact (pure_ok hk).2
  refine ⟨s.granted.buffs, fun grants => strike_iff.mpr ⟨s.granting grants
    (s.granted.buffs ++ bornIn m.board (orders.granting grants)), ?_⟩⟩
  have hb : s.buffed m.active grants =
      s.granted.withBuffs (s.granted.buffs ++ bornIn m.board (orders.granting grants)) := by
    rw [Stages.buffed, turn, hs.clock.1, hs.clock.2]
    rfl
  exact {
    commits := hs.commits
    prepares := hs.prepares
    answers := hs.answers
    defends := defend_granting hs.defends grants
    resolves := hs.resolves
    grants := hs.grants
    tells := (congrArg (announceOutcome m.active.other s.resolution) hb).trans
      ((Blind.announceOutcome _ _).ok hs.tells _)
    fells := by
      change (fallen m.active s.resolution.outcome).forM knockOut (s.told.withBuffs _) = _
      rw [hf, he]
      rfl
    keeps := (Blind.keep _).ok hs.keeps _
    result := hs.result }

theorem attack_granting {orders : Orders} {res : Attack.Resolution}
    (h : attack orders m = .ok (some res) m') (ho : res.outcome = .goesOn) :
    ∃ kept : List Buff, ∀ grants, attack (orders.granting grants) m = .ok (some res)
      (m'.withBuffs (kept ++ bornIn m.board (orders.granting grants))) := by
  obtain ⟨_, _, hg, h⟩ := bind_ok h
  obtain ⟨rfl, rfl⟩ := get_ok hg
  obtain ⟨ability, _, hc, h⟩ := bind_ok h
  obtain ⟨hx, rfl⟩ := ofExcept_ok hc
  cases ability with
  | none =>
    obtain ⟨_, _, -, h⟩ := bind_ok h
    cases h
  | some ability =>
    obtain ⟨r, _, hs, h⟩ := bind_ok h
    obtain ⟨hr, rfl⟩ := pure_ok h
    obtain rfl := Option.some.inj hr
    obtain ⟨kept, hk⟩ := strike_granting hs ho
    exact ⟨kept, fun grants => (get_bind _ m).trans
      ((bind_of_ok hc _).trans ((bind_of_ok (hk grants) _).trans rfl))⟩

def buffOf (m : Match R G) (i : Nat) (g : Grant) : Buff :=
  g.toBuff ⟨m.active, m.active.other, m.round, m.turn⟩ i

def countFor (m : Match R G) (b : Buff) : Int := (m.player b.owner).statuses.count b.status

/-- A grant of an attack has come to its owner: for use at once, as stacks on top of those that
the same attack leaves without the grant; else as a buff that waits. -/
def Honoured (m : Match R G) (orders : Orders) (i : Nat) (g : Grant) (m' : Match R G) : Prop :=
  if g.usable = .immediate then
    ∃ res n, attack (orders.without i) m = .ok res n ∧
      ∀ status, m.registry.get? g.status = some status →
        m'.countFor (m.buffOf i g) = (m.buffOf i g).raise status (n.countFor (m.buffOf i g))
  else m.buffOf i g ∈ m'.buffs

omit [Scalar R] [Dice.Source G] in
theorem mem_bornIn_of {orders : Orders} {i : Nat} {g : Grant} (hg : orders.grants[i]? = some g)
    (hu : g.usable ≠ .immediate) : m.buffOf i g ∈ bornIn m.board orders :=
  List.mem_filterMap.mpr ⟨(g, i), List.mk_mem_zipIdx_iff_getElem?.mpr hg, if_neg hu⟩

/-- An attack that goes on makes its grants come true as buffs that wait, and in no other way: it
leaves all else as if there were none. So a grant for use at once has come to its owner only where
there was nothing to add. -/
theorem honoured_iff {orders : Orders} {res : Attack.Resolution}
    (h : attack orders m = .ok (some res) m') (ho : res.outcome = .goesOn) :
    (∃ kept : List Buff, ∀ grants, attack (orders.granting grants) m = .ok (some res)
      (m'.withBuffs (kept ++ bornIn m.board (orders.granting grants)))) ∧
    ∀ i g, orders.grants[i]? = some g → (Honoured m orders i g m' ↔
      (g.usable = .immediate → ∀ status, m.registry.get? g.status = some status →
        (m.buffOf i g).raise status (m'.countFor (m.buffOf i g)) =
          m'.countFor (m.buffOf i g))) := by
  obtain ⟨kept, hk⟩ := attack_granting h ho
  refine ⟨⟨kept, hk⟩, fun i g hg => ?_⟩
  by_cases hu : g.usable = .immediate
  · -- Without the grant the attack leaves the very same stacks.
    have hn := hk (orders.grants.eraseIdx i)
    rw [Honoured, if_pos hu]
    constructor
    · rintro ⟨r, n, hr, hc⟩ - status hs
      rw [show attack (orders.without i) m = _ from hn] at hr
      injection hr with _ hm
      rw [← hm] at hc
      exact (hc status hs).symm
    · intro hc
      exact ⟨some res, _, hn, fun status hs => (hc hu status hs).symm⟩
  · have hb : m'.buffs = kept ++ bornIn m.board orders := by
      have hm := hk orders.grants
      rw [show orders.granting orders.grants = orders from rfl, h] at hm
      injection hm with _ hm
      rw [hm]
      rfl
    rw [Honoured, if_neg hu, hb]
    exact ⟨fun _ hi => absurd hi hu,
      fun _ => List.mem_append_right kept (mem_bornIn_of hg hu)⟩

def eager : Orders where
  dice := [3, 3, 3, 1, 2]
  defenseRoll := some 1
  grants := [{ status := "burn" }, { status := "burn", target := .opponent, usable := .immediate }]

def unburnt (m : Match Rat Unit) : Bool := (m.player .you).statuses.count "burn" == 0

theorem goes_on_of_ended {o : Orders} {m : Match Rat Unit} {f : Match Rat Unit → Bool}
    (h : (ended? (attack o m)).any (fun r => r.1.any (·.outcome = .goesOn) && f r.2) = true) :
    ∃ res m', attack o m = .ok (some res) m' ∧ res.outcome = .goesOn ∧ f m' = true := by
  obtain ⟨res?, m', hm, hr⟩ := ok_of_ended h
  obtain ⟨hr, hf⟩ := Bool.and_eq_true_iff.mp hr
  cases res? with
  | none => cases hr
  | some res => exact ⟨res, m', hm, of_decide_eq_true hr, hf⟩

theorem honoured_iff_eager : ∃ res m', attack eager monks = .ok (some res) m' ∧
    res.outcome = .goesOn ∧ unburnt m' = true ∧
    (∃ kept : List Buff, ∀ grants, attack (eager.granting grants) monks = .ok (some res)
      (m'.withBuffs (kept ++ bornIn monks.board (eager.granting grants)))) ∧
    ∀ i g, eager.grants[i]? = some g → (Honoured monks eager i g m' ↔
      (g.usable = .immediate → ∀ status, monks.registry.get? g.status = some status →
        (monks.buffOf i g).raise status (m'.countFor (monks.buffOf i g)) =
          m'.countFor (monks.buffOf i g))) := by
  obtain ⟨res, m', h, ho, hu⟩ := goes_on_of_ended (o := eager) (m := monks) (f := unburnt)
    (by decide +kernel)
  exact ⟨res, m', h, ho, hu, honoured_iff h ho⟩

/-- The stack for use at once is lost, though you have room for it. -/
theorem not_honoured : ¬∀ (m m' : Match Rat Unit) (orders : Orders) (res : Attack.Resolution),
    attack orders m = .ok (some res) m' → res.outcome = .goesOn →
      ∀ i g, orders.grants[i]? = some g → (m.registry.get? g.status).isSome → 0 < g.count →
        Honoured m orders i g m' := by
  intro h
  obtain ⟨res, m', hm, ho, hu⟩ := goes_on_of_ended (o := eager) (m := monks) (f := unburnt)
    (by decide +kernel)
  obtain ⟨_, n', hn', -, hu'⟩ := goes_on_of_ended (o := eager.without 1) (m := monks)
    (f := unburnt) (by decide +kernel)
  obtain ⟨_, n, hn, hc⟩ := h monks m' eager res hm ho 1 _ rfl rfl (by decide)
  rw [hn'] at hn
  injection hn with _ he
  subst he
  have hc := hc burn rfl
  have hm' : m'.countFor (monks.buffOf 1
      { status := "burn", target := .opponent, usable := .immediate }) = 0 := eq_of_beq hu
  have hn' : n'.countFor (monks.buffOf 1
      { status := "burn", target := .opponent, usable := .immediate }) = 0 := eq_of_beq hu'
  rw [hm', hn'] at hc
  exact absurd hc (by decide)

end Match

end Duel
