import Duel.Proofs.Match.Run
import Duel.Proofs.Stacks.Bounds

namespace Duel.Match

open Stacks (Rewritten WellFormed)

variable {R G α β : Type} {reg : Registry R} {Q : α → Prop} {P : β → Prop}

structure InBounds (reg : Registry R) (m : Match R G) : Prop where
  registry : m.registry = reg
  held : ∀ side, WellFormed reg (m.player side).statuses

theorem InBounds.of_eq {m m' : Match R G} (h : InBounds reg m) (hr : m'.registry = m.registry)
    (hp : m'.players = m.players) : InBounds reg m' :=
  ⟨hr.trans h.registry, fun side => by rw [player, hp]; exact h.held side⟩

theorem InBounds.set {m : Match R G} (h : InBounds reg m) (side : Side) {p : Player}
    (hp : WellFormed reg p.statuses) :
    InBounds reg { m with players := m.players.set side p } := by
  refine ⟨h.registry, fun s => ?_⟩
  have hs := h.held s
  cases side <;> cases s <;> first | exact hp | exact hs

/-- Work that stays within the bounds, whether it ends or breaks off. -/
def Stays (reg : Registry R) (x : Step R G α) (Q : α → Prop) : Prop :=
  ∀ m, InBounds reg m → Comes x m (fun a m' => Q a ∧ InBounds reg m') (InBounds reg)

abbrev Keeps (reg : Registry R) (x : Step R G α) : Prop := Stays reg x fun _ => True

namespace Stays

theorem bind {x : Step R G α} {f : α → Step R G β} (h : Stays reg x Q)
    (hf : ∀ a, Q a → Stays reg (f a) P) : Stays reg (x >>= f) P :=
  fun m hm => (h m hm).bind fun a u hu => hf a hu.1 u hu.2

theorem pure {a : α} (h : Q a) : Stays reg (pure a : Step R G α) Q :=
  fun _ hm => ⟨h, hm⟩

theorem throw (fault : Fault) : Stays reg (throw fault : Step R G α) Q :=
  fun _ hm => hm

theorem read {f : Match R G → Step R G α} (h : ∀ m, InBounds reg m → Stays reg (f m) Q) :
    Stays reg (get >>= f) Q :=
  fun m hm => h m hm m hm

theorem modify {g : Match R G → Match R G} (hg : ∀ m, InBounds reg m → InBounds reg (g m)) :
    Keeps reg (modify g : Step R G PUnit) :=
  fun m hm => ⟨trivial, hg m hm⟩

theorem aside {g : Match R G → Match R G} {f : PUnit → Step R G α}
    (hr : ∀ m, (g m).registry = m.registry) (hp : ∀ m, (g m).players = m.players)
    (h : Stays reg (f ⟨⟩) Q) :
    Stays reg (MonadState.modifyGet (fun m => (⟨⟩, g m)) >>= f) Q :=
  fun m hm => h (g m) (hm.of_eq (hr m) (hp m))

theorem mapM {f : α → Step R G β} (h : ∀ a, Keeps reg (f a)) (xs : List α) :
    Keeps reg (xs.mapM f) := by
  induction xs with
  | nil => exact pure trivial
  | cons x xs ih =>
    rw [List.mapM_cons]
    exact (h x).bind fun _ _ => ih.bind fun _ _ => pure trivial

theorem foldlM {f : β → α → Step R G β} (h : ∀ b a, P b → Stays reg (f b a) P) (xs : List α)
    {b : β} (hb : P b) : Stays reg (xs.foldlM f b) P := by
  induction xs generalizing b with
  | nil => exact pure hb
  | cons x xs ih =>
    rw [List.foldlM_cons]
    exact (h b x hb).bind fun _ hc => ih hc

theorem forIn {f : α → PUnit → Step R G (ForInStep PUnit)} (h : ∀ a u, Keeps reg (f a u))
    (xs : List α) (u : PUnit) : Keeps reg (forIn xs u f) := by
  induction xs with
  | nil => exact pure trivial
  | cons x xs ih =>
    rw [List.forIn_cons]
    refine (h x u).bind fun r _ => ?_
    cases r with
    | done => exact pure trivial
    | yield => exact ih

theorem ofExcept {x : Except Fault α} (h : ∀ a, x = .ok a → Q a) :
    Stays reg (ofExcept x : Step R G α) Q := by
  cases x with
  | ok a => exact pure (h a rfl)
  | error fault => exact throw fault

theorem digits (n : Int) : Keeps reg (digits n : Step R G String) :=
  ofExcept fun _ _ => trivial

theorem tell (x : Traced α) : Stays reg (tell x : Step R G α) (· = x.value) :=
  aside (fun _ => rfl) (fun _ => rfl) (pure rfl)

theorem work (x : Stacks.Work α) :
    Stays reg (work x : Step R G α) fun a => ∃ es, Gives x a es :=
  (tell _).bind fun _ hv => ofExcept fun _ ha => ⟨_, .of_value (hv.symm.trans ha)⟩

theorem play {x : Defense.Play α} (h : ∀ fs a gs es, Defense.Plays x fs a gs es → Q a) :
    Stays reg (play x : Step R G α) Q := by
  refine read fun m _ => (tell _).bind fun ⟨result, formulas⟩ hr => ?_
  refine aside (fun _ => rfl) (fun _ => rfl) (ofExcept fun a ha => ?_)
  refine h m.formulas a formulas (x.run.run m.formulas).events ?_
  rw [Defense.Plays, ← ha, hr]

theorem setPlayer (side : Side) {p : Player} (hp : WellFormed reg p.statuses) :
    Keeps reg (setPlayer side p : Step R G Unit) :=
  modify fun _ hm => hm.set side hp

theorem setStatuses (side : Side) {held : Stacks} (hh : WellFormed reg held) :
    Keeps reg (setStatuses side held : Step R G Unit) :=
  modify fun _ hm => hm.set side hh

theorem rollDie [Dice.Source G] : Keeps reg (rollDie : Step R G Int) :=
  fun _ hm => ⟨trivial, hm.of_eq rfl rfl⟩

theorem rollFor [Dice.Source G] (side : Side) : Keeps reg (rollFor side : Step R G (List Int)) :=
  fun _ hm => ⟨trivial, hm.of_eq rfl rfl⟩

theorem atDesk (x : Cue.Desk.Work R (Stage R) Unit) : Keeps reg (atDesk x : Step R G Unit) := by
  intro m hm
  unfold Comes Match.atDesk
  cases x m.desk with
  | ok a desk => exact ⟨trivial, hm.of_eq rfl rfl⟩
  | error fault desk => exact hm.of_eq rfl rfl

theorem keep (r : Record) : Keeps reg (keep r : Step R G Unit) :=
  modify fun _ hm => hm.of_eq rfl rfl

theorem keepUpkeep (side : Side) (outcome : Attack.Outcome) :
    Keeps reg (keepUpkeep side outcome : Step R G Unit) :=
  read fun _ _ => keep _

theorem useBuff (moment : Buff.Moment) (b : Buff) :
    Keeps reg (useBuff moment b : Step R G String) := by
  refine read fun m hm => (tell _).bind fun held hh => ?_
  have hw : WellFormed reg held := by
    rw [hh, hm.registry]
    exact ((hm.held b.owner).apply_rewritten b).bounds
  exact (setStatuses _ hw).bind fun _ _ => pure trivial

theorem trigger (moment : Buff.Moment) (owner : Option Side) :
    Keeps reg (trigger moment owner : Step R G (List String)) :=
  read fun _ _ => (mapM (useBuff moment) _).bind fun _ _ =>
    aside (fun _ => rfl) (fun _ => rfl) (pure trivial)

theorem grant (side : Side) (id : String) (n : Int) (ability : Combo) :
    Keeps reg (grant side id n ability : Step R G Unit) := by
  refine read fun m hm => (tell _).bind fun held hh => setStatuses _ ?_
  rw [hh, hm.registry]
  exact ((hm.held side).add_rewritten id n _).bounds

theorem grantAll (attacker : Side) (ability : Ability) :
    Keeps reg (grantAll attacker ability : Step R G Unit) := by
  refine (forIn (fun (id, n) _ => read fun m _ => ?_) _ _).bind fun _ _ => pure trivial
  cases m.registry.get? id with
  | none => exact (pure (Q := fun _ => True) trivial).bind fun _ _ => pure trivial
  | some status => exact (grant _ _ _ _).bind fun _ _ => pure trivial

theorem knockOuts (down : Option Side) :
    Keeps reg (down.forM (knockOut (R := R) (G := G)) : Step R G PUnit) := by
  cases down with
  | none => exact pure trivial
  | some down => exact modify fun _ hm => hm.of_eq rfl rfl

variable [Scalar R]

theorem announce (key : String) (cue : Cue R) : Keeps reg (announce key cue : Step R G Unit) :=
  read fun _ _ => (ofExcept (Q := fun _ => True) fun _ _ => trivial).bind fun _ _ => atDesk _

theorem announceOutcome (side : Side) (res : Attack.Resolution) :
    Keeps reg (announceOutcome side res : Step R G Unit) :=
  (digits _).bind fun _ _ => (digits _).bind fun _ _ => announce _ _

theorem announceTick (side : Side) (tick : Tick.Outcome) :
    Keeps reg (announceTick side tick : Step R G Unit) :=
  (forIn (fun _ _ => (announce _ _).bind fun _ _ => pure trivial) _ _).bind fun _ _ =>
    (forIn (fun _ _ => (announce _ _).bind fun _ _ => pure trivial) _ _).bind fun _ _ =>
      pure trivial

theorem takeTick (side : Side) : Keeps reg (takeTick side : Step R G Tick.Outcome) := by
  refine read fun m hm => (work _).bind fun o ⟨es, ho⟩ => ?_
  rw [hm.registry] at ho
  exact (setPlayer _ ((hm.held side).tick ho)).bind fun _ _ =>
    aside (fun _ => rfl) (fun _ => rfl) (pure trivial)

theorem startTurn (side : Side) : Keeps reg (startTurn side : Step R G (List String)) := by
  refine aside (fun _ => rfl) (fun _ => rfl) (read fun m _ => ?_)
  refine (announce _ _).bind fun _ _ => (trigger _ _).bind fun _ _ => ?_
  refine (trigger _ _).bind fun _ _ => (takeTick _).bind fun _ _ => ?_
  refine (announceTick _ _).bind fun _ _ => read fun u _ => ?_
  split
  · exact pure trivial
  · exact aside (fun _ => rfl) (fun _ => rfl) ((keepUpkeep _ _).bind fun _ _ => pure trivial)

theorem closeTurn (owner : Option Side) : Keeps reg (closeTurn owner : Step R G (List String)) :=
  (trigger _ _).bind fun _ _ => aside (fun _ => rfl) (fun _ => rfl)
    (read fun _ _ => (atDesk _).bind fun _ _ => pure trivial)

theorem endTurn : Keeps reg (endTurn : Step R G (List String)) :=
  read fun _ _ => closeTurn _

theorem spendAll (side : Side) (damage : Int) (spends : Ledger Int) {held : Stacks}
    (hh : WellFormed reg held) :
    Stays reg (spendAll side damage spends held : Step R G (Stacks × List (Spend.Summary R)))
      fun out => WellFormed reg out.1 := by
  refine read fun m hm => foldlM (fun p e hp => (work _).bind fun out ⟨es, ho⟩ => ?_) _ hh
  cases out with
  | none => exact pure hp
  | some out =>
    rw [hm.registry] at ho
    exact pure (hp.spendMany_rewritten ho).bounds

theorem prepare (side : Side) (ability : Ability) (orders : Orders) :
    Keeps reg (prepare side ability orders : Step R G (Int × List (Spend.Summary R))) := by
  refine read fun m hm => (play (Q := fun _ => True) fun _ _ _ _ _ => trivial).bind fun _ _ => ?_
  refine (spendAll _ _ _ (hm.held side)).bind fun out hout => ?_
  exact (setStatuses _ hout).bind fun _ _ => (digits _).bind fun _ _ =>
    (announce _ _).bind fun _ _ => pure trivial

variable [Dice.Source G]

theorem defend (side : Side) (incoming : Int) (orders : Orders) :
    Stays reg (defend side incoming orders : Step R G (Defense.Plan R))
      fun p => WellFormed reg p.defender.statuses := by
  have hplan (n : Int) := read (G := G)
    (f := fun m => Match.play (Defense.plan (m.player side) side.other incoming {
      roll := some n, block := ((m.player side).hero.defend n).block
      reflect := ((m.player side).hero.defend n).reflect
      heal := ((m.player side).hero.defend n).heal
      retaliate := Scalar.zero, grants := orders.grants
      label := some ("roll " ++ toString n) } orders.requests m.registry))
    (Q := fun p => WellFormed reg p.defender.statuses) fun m (hm : InBounds reg m) =>
      play fun fs p gs es hp => (hm.held side).plan (hm.registry ▸ hp)
  unfold Match.defend
  cases orders.defenseRoll with
  | some n => exact (pure (Q := fun _ => True) trivial).bind fun roll _ => hplan roll
  | none => exact rollDie.bind fun roll _ => hplan roll

theorem strike (ability : Ability) (orders : Orders) :
    Keeps reg (strike ability orders : Step R G Attack.Resolution) := by
  refine read fun m _ => (trigger _ _).bind fun _ _ => (prepare _ _ _).bind fun _ _ => ?_
  refine (trigger _ _).bind fun _ _ => read fun before _ => ?_
  refine (defend _ _ _).bind fun plan hp => read fun u hu => ?_
  refine (ofExcept (Q := fun res => WellFormed reg res.attacker.statuses ∧
    WellFormed reg res.defender.statuses) fun res hr => ?_).bind fun res hres => ?_
  · obtain ⟨ha, hd⟩ := Attack.resolve_players (mapError_ok hr)
    rw [ha, hd]
    exact ⟨hu.held m.active, hp⟩
  · refine (setPlayer _ hres.1).bind fun _ _ => (setPlayer _ hres.2).bind fun _ _ => ?_
    refine (grantAll _ _).bind fun _ _ => aside (fun _ => rfl) (fun _ => rfl) ?_
    exact (announceOutcome _ _).bind fun _ _ => (knockOuts _).bind fun _ _ =>
      (keep _).bind fun _ _ => pure trivial

theorem attack (orders : Orders) :
    Keeps reg (attack orders : Step R G (Option Attack.Resolution)) := by
  refine read fun m _ => (ofExcept (Q := fun _ => True) fun _ _ => trivial).bind fun ability _ => ?_
  cases ability with
  | none => exact (keepUpkeep _ _).bind fun _ _ => pure trivial
  | some ability => exact (strike _ _).bind fun _ _ => pure trivial

omit [Scalar R] in
theorem answerPrompt (side : Side) (id : String) (roll : Option Int) :
    Keeps reg (answerPrompt side id roll : Step R G (List String)) := by
  have hgiven (n : Int) : Keeps reg (Match.answerPrompt side id (some n) : Step R G _) := by
    refine (pure (Q := fun _ => True) trivial).bind fun n _ => read fun m hm => ?_
    refine (work _).bind fun out ⟨es, ho⟩ => aside (fun _ => rfl) (fun _ => rfl) ?_
    cases out with
    | none => exact pure trivial
    | some out =>
      rw [hm.registry] at ho
      have hw : WellFormed reg out.next := ((hm.held side).cleanse_rewritten ho).bounds
      exact (setStatuses _ hw).bind fun _ _ => pure trivial
  cases roll with
  | some n => exact hgiven n
  | none => exact rollDie.bind fun n _ => hgiven n

omit [Scalar R] in
theorem requests (side : Side) :
    Keeps reg (requests side : Step R G (List Defense.Request)) := by
  refine read fun m _ => mapM (fun (status, rule, n) => ?_) _
  dsimp only
  split
  · exact rollDie.bind fun _ _ => pure trivial
  · exact pure trivial

omit [Scalar R] [Dice.Source G] in
theorem traced {x : Step R G α} (h : Keeps reg x) : Keeps reg (traced x) := by
  intro m hm
  have hx : Comes x m (fun _ => InBounds reg) (InBounds reg) :=
    (h m hm).mono (fun _ _ hu => hu.2) fun _ hu => hu
  exact (traced_comes (fun _ _ hu => hu.of_eq rfl rfl) hx).mono (fun _ _ hu => ⟨trivial, hu⟩)
    fun _ hu => hu

theorem playable (reg : Registry R) :
    Playable (R := R) (G := G) fun x => Keeps reg x where
  pure _ := pure trivial
  bind hx hf := hx.bind fun a _ => hf a
  read _ h := read fun m _ => h m
  traced := traced
  startTurn := startTurn
  answerPrompt := answerPrompt
  rollFor := rollFor
  requests := requests
  attack := attack
  endTurn := endTurn
  ask _ := atDesk _

end Stays

variable [Scalar R] [Dice.Source G]

theorem InBounds.afterErrands {m : Match R G} (h : InBounds reg m) (es : List (Errand R)) :
    InBounds reg (m.afterErrands es) := by
  refine Comes.foldl_left (fun e m h => ?_) es h
  have he : Keeps reg (e.perform : Step R G Unit) := (Stays.playable reg).errand e
  exact (he m h).mono (fun _ _ hu => hu.2) fun _ hu => hu

end Duel.Match
