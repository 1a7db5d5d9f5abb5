import Duel.Proofs.Match.Run

namespace Duel.Match

variable {R G α β : Type}

def Aside (f : Match R G → α × Match R G) : Prop :=
  ∀ m trace, f (m.withTrace trace) = ((f m).1, (f m).2.withTrace trace) ∧
    (f m).2.desk = m.desk ∧ (f m).2.settings = m.settings

def turnPause [Scalar R] : Step R G Unit := do
  let m ← get
  atDesk (Cue.Desk.pause (Scalar.ofInt m.settings.turnEndDelay) fun stage =>
    { stage with paused := true })

theorem closeTurn_eq [Scalar R] (owner : Option Side) :
    (closeTurn owner : Step R G (List String)) = do
      let logs ← trigger .turnEnd owner
      modify fun m => { m with active := Side.opponentOf owner }
      turnPause
      return logs :=
  rfl

/-- Steps are of this kind if they are composed of such parts. -/
structure Composed [Scalar R] (P : ∀ {α : Type}, Step R G α → Prop) : Prop where
  pure : ∀ {α : Type} (a : α), P (pure a : Step R G α)
  throw : ∀ {α : Type} (fault : Fault), P (throw fault : Step R G α)
  bind : ∀ {α β : Type} {x : Step R G α} {f : α → Step R G β}, P x → (∀ a, P (f a)) →
    P (x >>= f)
  read : ∀ {α : Type} {f : Match R G → Step R G α}, (∀ m trace, f (m.withTrace trace) = f m) →
    (∀ m, P (f m)) → P (get >>= f)
  change : ∀ {α : Type} {f : Match R G → α × Match R G}, Aside f → P (modifyGet f)
  ask : ∀ r, P (ask r)
  turnPause : P turnPause

namespace Composed

variable [Scalar R] {P : ∀ {α : Type}, Step R G α → Prop} (h : Composed P)

include h

theorem mapM {f : α → Step R G β} (hf : ∀ a, P (f a)) (xs : List α) : P (xs.mapM f) := by
  induction xs with
  | nil => exact h.pure _
  | cons x xs ih =>
    rw [List.mapM_cons]
    exact h.bind (hf x) fun _ => h.bind ih fun _ => h.pure _

theorem foldlM {f : β → α → Step R G β} (hf : ∀ b a, P (f b a)) (xs : List α) (b : β) :
    P (xs.foldlM f b) := by
  induction xs generalizing b with
  | nil => exact h.pure _
  | cons x xs ih =>
    rw [List.foldlM_cons]
    exact h.bind (hf b x) ih

theorem forIn {f : α → PUnit → Step R G (ForInStep PUnit)} (hf : ∀ a u, P (f a u))
    (xs : List α) (u : PUnit) : P (forIn xs u f) := by
  induction xs with
  | nil => exact h.pure _
  | cons x xs ih =>
    rw [List.forIn_cons]
    refine h.bind (hf x u) fun r => ?_
    cases r with
    | done => exact h.pure _
    | yield => exact ih

theorem ofExcept (x : Except Fault α) : P (ofExcept x : Step R G α) := by
  cases x with
  | ok a => exact h.pure a
  | error fault => exact h.throw fault

theorem tell (x : Traced α) : P (tell x : Step R G α) :=
  h.bind (h.change fun _ _ => ⟨rfl, rfl, rfl⟩) fun _ => h.pure _

theorem work (x : Stacks.Work α) : P (work x : Step R G α) :=
  h.bind (h.tell _) fun _ => h.ofExcept _

theorem play (x : Defense.Play α) : P (play x : Step R G α) :=
  h.read (fun _ _ => rfl) fun _ => h.bind (h.tell _) fun _ =>
    h.bind (h.change fun _ _ => ⟨rfl, rfl, rfl⟩) fun _ => h.ofExcept _

theorem setStatuses (side : Side) (held : Stacks) : P (setStatuses side held : Step R G Unit) :=
  h.change fun _ _ => ⟨rfl, rfl, rfl⟩

theorem setPlayer (side : Side) (p : Player) : P (setPlayer side p : Step R G Unit) :=
  h.change fun _ _ => ⟨rfl, rfl, rfl⟩

theorem rollDie [Dice.Source G] : P (rollDie : Step R G Int) := h.change fun _ _ => ⟨rfl, rfl, rfl⟩

theorem keep (r : Record) : P (keep r : Step R G Unit) := h.change fun _ _ => ⟨rfl, rfl, rfl⟩

theorem keepUpkeep (side : Side) (outcome : Attack.Outcome) :
    P (keepUpkeep side outcome : Step R G Unit) :=
  h.read (fun _ _ => rfl) fun _ => h.keep _

theorem trigger (moment : Buff.Moment) (owner : Option Side) :
    P (trigger moment owner : Step R G (List String)) := by
  refine h.read (fun _ _ => rfl) fun m => h.bind (h.mapM (fun b => ?_) _) fun _ => ?_
  · exact h.read (fun _ _ => rfl) fun _ => h.bind (h.tell _) fun _ =>
      h.bind (h.setStatuses _ _) fun _ => h.pure _
  · exact h.bind (h.change fun _ _ => ⟨rfl, rfl, rfl⟩) fun _ => h.pure _

theorem grantAll (attacker : Side) (ability : Ability) :
    P (grantAll attacker ability : Step R G Unit) := by
  refine h.bind (h.forIn (fun (id, n) _ => h.read (fun _ _ => rfl) fun m => ?_) _ _) fun _ =>
    h.pure _
  cases m.registry.get? id with
  | none => exact h.bind (h.pure _) fun _ => h.pure _
  | some status =>
    exact h.bind (h.read (fun _ _ => rfl) fun _ => h.bind (h.tell _) fun _ => h.setStatuses _ _)
      fun _ => h.pure _

theorem knockOuts (down : Option Side) :
    P (down.forM (knockOut (R := R) (G := G)) : Step R G PUnit) := by
  cases down with
  | none => exact h.pure _
  | some down => exact h.change fun _ _ => ⟨rfl, rfl, rfl⟩

theorem digits (n : Int) : P (digits n : Step R G String) := h.ofExcept _

theorem announce (key : String) (cue : Cue R) : P (announce key cue : Step R G Unit) :=
  h.read (fun _ _ => rfl) fun _ => h.bind (h.ofExcept _) fun _ => h.ask _

theorem announceOutcome (side : Side) (res : Attack.Resolution) :
    P (announceOutcome side res : Step R G Unit) :=
  h.bind (h.digits _) fun _ => h.bind (h.digits _) fun _ => h.announce _ _

theorem announceTick (side : Side) (tick : Tick.Outcome) :
    P (announceTick side tick : Step R G Unit) :=
  h.bind (h.forIn (fun _ _ => h.bind (h.announce _ _) fun _ => h.pure _) _ _) fun _ =>
    h.bind (h.forIn (fun _ _ => h.bind (h.announce _ _) fun _ => h.pure _) _ _) fun _ => h.pure _

theorem takeTick (side : Side) : P (takeTick side : Step R G Tick.Outcome) :=
  h.read (fun _ _ => rfl) fun _ => h.bind (h.work _) fun _ => h.bind (h.setPlayer _ _) fun _ =>
    h.bind (h.change fun _ _ => ⟨rfl, rfl, rfl⟩) fun _ => h.pure _

theorem startTurn (side : Side) : P (startTurn side : Step R G (List String)) := by
  refine h.bind (h.change fun _ _ => ⟨rfl, rfl, rfl⟩) fun _ => ?_
  refine h.read (fun _ _ => rfl) fun m => ?_
  refine h.bind (h.announce _ _) fun _ => h.bind (h.trigger _ _) fun _ => ?_
  refine h.bind (h.trigger _ _) fun _ => h.bind (h.takeTick _) fun _ => ?_
  refine h.bind (h.announceTick _ _) fun _ => h.read (fun _ _ => rfl) fun u => ?_
  split
  · exact h.pure _
  · exact h.bind (h.change fun _ _ => ⟨rfl, rfl, rfl⟩) fun _ =>
      h.bind (h.keepUpkeep _ _) fun _ => h.pure _

theorem endTurn : P (endTurn : Step R G (List String)) := by
  refine h.read (fun _ _ => rfl) fun m => ?_
  -- The pause is as long as the settings say, so it is one part with the look at them.
  rw [closeTurn_eq]
  exact h.bind (h.trigger _ _) fun _ => h.bind (h.change fun _ _ => ⟨rfl, rfl, rfl⟩) fun _ =>
    h.bind h.turnPause fun _ => h.pure _

theorem spendAll (side : Side) (damage : Int) (spends : Ledger Int) (held : Stacks) :
    P (spendAll side damage spends held : Step R G (Stacks × List (Spend.Summary R))) := by
  refine h.read (fun _ _ => rfl) fun m => h.foldlM (fun p e => ?_) _ _
  refine h.bind (h.work _) fun out => ?_
  cases out <;> exact h.pure _

theorem prepare (side : Side) (ability : Ability) (orders : Orders) :
    P (prepare side ability orders : Step R G (Int × List (Spend.Summary R))) := by
  refine h.read (fun _ _ => rfl) fun m => h.bind (h.play _) fun _ => ?_
  refine h.bind (h.spendAll _ _ _ _) fun _ => h.bind (h.setStatuses _ _) fun _ => ?_
  exact h.bind (h.digits _) fun _ => h.bind (h.announce _ _) fun _ => h.pure _

variable [Dice.Source G]

theorem defend (side : Side) (incoming : Int) (orders : Orders) :
    P (defend side incoming orders : Step R G (Defense.Plan R)) := by
  unfold Match.defend
  cases orders.defenseRoll with
  | some n => exact h.bind (h.pure n) fun _ => h.read (fun _ _ => rfl) fun _ => h.play _
  | none => exact h.bind h.rollDie fun _ => h.read (fun _ _ => rfl) fun _ => h.play _

theorem strike (ability : Ability) (orders : Orders) :
    P (strike ability orders : Step R G Attack.Resolution) := by
  refine h.read (fun _ _ => rfl) fun m => h.bind (h.trigger _ _) fun _ => ?_
  refine h.bind (h.prepare _ _ _) fun _ => h.bind (h.trigger _ _) fun _ => ?_
  refine h.read (fun _ _ => rfl) fun before => h.bind (h.defend _ _ _) fun _ => ?_
  refine h.read (fun _ _ => rfl) fun u => h.bind (h.ofExcept _) fun _ => ?_
  refine h.bind (h.setPlayer _ _) fun _ => h.bind (h.setPlayer _ _) fun _ => ?_
  refine h.bind (h.grantAll _ _) fun _ => h.bind (h.change fun _ _ => ⟨rfl, rfl, rfl⟩) fun _ => ?_
  refine h.bind (h.announceOutcome _ _) fun _ => h.bind (h.knockOuts _) fun _ => ?_
  exact h.bind (h.keep _) fun _ => h.pure _

theorem attack (orders : Orders) :
    P (attack orders : Step R G (Option Attack.Resolution)) := by
  refine h.read (fun _ _ => rfl) fun m => h.bind (h.ofExcept _) fun ability => ?_
  cases ability with
  | none => exact h.bind (h.keepUpkeep _ _) fun _ => h.pure _
  | some ability => exact h.bind (h.strike _ _) fun _ => h.pure _

theorem answerPrompt (side : Side) (id : String) (roll : Option Int) :
    P (answerPrompt side id roll : Step R G (List String)) := by
  have hgiven (n : Int) : P (Match.answerPrompt side id (some n) : Step R G _) := by
    refine h.bind (h.pure n) fun n => h.read (fun _ _ => rfl) fun m => ?_
    refine h.bind (h.work _) fun out => h.bind (h.change fun _ _ => ⟨rfl, rfl, rfl⟩) fun _ => ?_
    cases out with
    | none => exact h.pure _
    | some out => exact h.bind (h.setStatuses _ _) fun _ => h.pure _
  cases roll with
  | some n => exact hgiven n
  | none => exact h.bind h.rollDie hgiven

theorem requests (side : Side) : P (requests side : Step R G (List Defense.Request)) := by
  refine h.read (fun _ _ => rfl) fun m => h.mapM (fun (status, rule, n) => ?_) _
  dsimp only
  split
  · exact h.bind h.rollDie fun _ => h.pure _
  · exact h.pure _

theorem piecewise : Piecewise P where
  pure := h.pure
  bind := h.bind
  read := h.read
  startTurn := h.startTurn
  answerPrompt := h.answerPrompt
  rollFor _ := h.change fun _ _ => ⟨rfl, rfl, rfl⟩
  requests := h.requests
  attack := h.attack
  endTurn := h.endTurn
  ask := h.ask

end Composed

end Duel.Match
