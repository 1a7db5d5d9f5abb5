import Duel.Match.Simulation
import Duel.Proofs.Match.Turns

namespace Duel.Match

open Board (Leads)

/-- What can be asked of a match. -/
inductive Call (R : Type)
  | startTurn (side : Side)
  | answerPrompt (side : Side) (id : String) (roll : Option Int)
  | attack (orders : Orders)
  | endTurn
  | cue (r : Cue.Request R)

variable {R G : Type} [Scalar R] [Dice.Source G]

/-- Does what a call asks for. Only an attack has something to reply. -/
def Call.perform : Call R → Step R G (Option Attack.Resolution)
  | startTurn side => do
    discard (Match.startTurn side)
    return none
  | answerPrompt side id roll => do
    discard (Match.answerPrompt side id roll)
    return none
  | attack orders => Match.attack orders
  | endTurn => do
    discard Match.endTurn
    return none
  | cue r => do
    ask r
    return none

/-- Performs calls one after the other; one that fails ends the run. -/
def run (calls : List (Call R)) : Step R G (List (Option Attack.Resolution)) :=
  calls.mapM Call.perform

def Call.deeds (b : Board R) : Call R → Option Attack.Resolution → List Deed
  | .startTurn side, _ => openingDeeds b side
  | .attack orders, res => res.toList.flatMap (attackDeeds b orders)
  | .endTurn, _ => [.trigger (b.now .turnEnd b.active)]
  | _, _ => []

theorem perform_leads {c : Call R} {m m' : Match R G} {reply : Option Attack.Resolution}
    (h : c.perform m = .ok reply m') (hm : m.board.Seated) :
    Leads m.board (c.deeds m.board reply) m'.board := by
  cases c with
  | attack orders => exact attack_leads h hm
  | startTurn side =>
    obtain ⟨-, _, hs⟩ := discard_bind_ok h
    exact startTurn_leads hs
  | answerPrompt side id roll =>
    obtain ⟨-, _, hs⟩ := discard_bind_ok h
    exact answerPrompt_leads hs
  | endTurn =>
    obtain ⟨-, _, hs⟩ := discard_bind_ok h
    exact endTurn_leads hs
  | cue r =>
    obtain ⟨_, _, ha, h⟩ := bind_ok h
    obtain ⟨-, rfl⟩ := pure_ok h
    exact .of_eq (atDesk_board ha)

/-- The deeds of calls that are performed one after the other. -/
def trail : List (Call R) → Match R G → List Deed
  | [], _ => []
  | c :: calls, m =>
    match c.perform m with
    | .ok reply m' => c.deeds m.board reply ++ trail calls m'
    | .error .. => []

theorem run_cons {c : Call R} {calls : List (Call R)} {m m' : Match R G}
    {replies : List (Option Attack.Resolution)} (h : run (c :: calls) m = .ok replies m') :
    ∃ reply u rest, c.perform m = .ok reply u ∧ run calls u = .ok rest m' ∧
      trail (c :: calls) m = c.deeds m.board reply ++ trail calls u := by
  rw [run, List.mapM_cons] at h
  obtain ⟨reply, u, hc, h⟩ := bind_ok h
  obtain ⟨rest, _, hr, h⟩ := bind_ok h
  obtain ⟨-, rfl⟩ := pure_ok h
  exact ⟨reply, u, rest, hc, hr, by rw [trail, hc]⟩

theorem run_leads {calls : List (Call R)} {m m' : Match R G}
    {replies : List (Option Attack.Resolution)} (h : run calls m = .ok replies m')
    (hm : m.board.Seated) : Leads m.board (trail calls m) m'.board := by
  induction calls generalizing m replies with
  | nil =>
    obtain ⟨-, rfl⟩ := pure_ok h
    exact .rest _
  | cons c calls ih =>
    obtain ⟨reply, u, rest, hc, hr, ht⟩ := run_cons h
    have l := perform_leads hc hm
    rw [ht]
    exact l.trans (ih hr (l.seated hm))

omit [Dice.Source G] in
theorem seated_start (settings : Settings R) (registry : Registry R) (dice : G)
    (heroes : Sides Hero) (keepsRecords : Bool) :
    (start settings registry dice heroes keepsRecords).board.Seated := by
  intro side
  cases side <;> rfl

/-- What can be wanted of a match: to answer a call, or to play itself. -/
inductive Errand (R : Type)
  | call (c : Call R)
  | simulate (turns : Nat)

def Errand.perform : Errand R → Step R G Unit
  | call c => discard c.perform
  | simulate turns => discard (Match.simulate turns)

/-- The match after errands, any of which may break off on the way. -/
def afterErrands (m : Match R G) (es : List (Errand R)) : Match R G :=
  es.foldl (fun m e => left (e.perform m)) m

def withTrace (m : Match R G) (trace : List String) : Match R G := { m with trace }

omit [Scalar R] [Dice.Source G] in
theorem traced_comes {α : Type} {x : Step R G α} {m : Match R G} {P : Match R G → Prop}
    (hp : ∀ u trace, P u → P (u.withTrace trace)) (h : Comes x m (fun _ => P) P) :
    Comes (traced x) m (fun _ => P) P := by
  unfold Comes at h
  unfold Comes traced
  cases hr : x m with
  | ok a later =>
    rw [hr] at h
    exact hp _ _ h
  | error fault later =>
    rw [hr] at h
    exact hp _ _ h

/-- Steps put together are of this kind if their parts are and none of them looks at the trace, and
so are the parts of a turn. -/
structure Piecewise (P : ∀ {α : Type}, Step R G α → Prop) : Prop where
  pure : ∀ {α : Type} (a : α), P (pure a : Step R G α)
  bind : ∀ {α β : Type} {x : Step R G α} {f : α → Step R G β}, P x → (∀ a, P (f a)) →
    P (x >>= f)
  read : ∀ {α : Type} {f : Match R G → Step R G α}, (∀ m trace, f (m.withTrace trace) = f m) →
    (∀ m, P (f m)) → P (get >>= f)
  startTurn : ∀ side, P (startTurn side)
  answerPrompt : ∀ side id roll, P (answerPrompt side id roll)
  rollFor : ∀ side, P (rollFor side)
  requests : ∀ side, P (requests side)
  attack : ∀ orders, P (attack orders)
  endTurn : P endTurn
  ask : ∀ r, P (ask r)

namespace Piecewise

variable {P : ∀ {α : Type}, Step R G α → Prop}

theorem answerAll (h : Piecewise P) (side : Side) (prompts : List Tick.Prompt) :
    P (answerAll side prompts : Step R G (List String)) := by
  induction prompts with
  | nil => exact h.pure _
  | cons prompt prompts ih =>
    exact h.bind (h.answerPrompt _ _ _) fun _ => h.bind ih fun _ => h.pure _

theorem playAttack (h : Piecewise P) (side : Side) :
    P (playAttack side : Step R G (List String × Bool)) := by
  refine h.bind (h.rollFor side) fun dice => h.read (fun _ _ => rfl) fun m => ?_
  refine h.bind (h.requests _) fun asked => h.bind (h.attack _) fun reply => ?_
  cases reply with
  | none => exact h.pure _
  | some res => exact h.pure _

theorem playTurn (h : Piecewise P) : P (playTurn : Step R G (List String × Bool)) := by
  refine h.read (fun _ _ => rfl) fun m => h.bind (h.startTurn _) fun opening => ?_
  refine h.read (fun _ _ => rfl) fun u => ?_
  split
  · exact h.pure _
  · refine h.bind (h.answerAll _ _) fun answers => h.bind (h.playAttack _) fun fight => ?_
    dsimp only
    split
    · exact h.pure _
    · exact h.bind h.endTurn fun _ => h.bind (h.ask _) fun _ => h.pure _

theorem playTurns (h : Piecewise P) (turns : Nat) :
    P (playTurns turns : Step R G (List String)) := by
  induction turns with
  | zero => exact h.pure _
  | succ turns ih =>
    refine h.bind h.playTurn fun out => ?_
    dsimp only
    split
    · exact h.bind ih fun _ => h.pure _
    · exact h.pure _

end Piecewise

structure Playable (P : ∀ {α : Type}, Step R G α → Prop) : Prop extends Piecewise P where
  traced : ∀ {α : Type} {x : Step R G α}, P x → P (traced x)

namespace Playable

variable {P : ∀ {α : Type}, Step R G α → Prop}

theorem simulate (h : Playable P) (turns : Nat) :
    P (simulate turns : Step R G (List String)) :=
  h.bind (h.traced (h.playTurns turns)) fun _ => h.read (fun _ _ => rfl) fun _ => h.pure _

theorem discard (h : Playable P) {α : Type} {x : Step R G α} (hx : P x) : P (discard x) :=
  h.bind hx fun _ => h.pure _

theorem perform (h : Playable P) (c : Call R) :
    P (c.perform : Step R G (Option Attack.Resolution)) := by
  cases c with
  | startTurn side => exact h.bind (h.discard (h.startTurn side)) fun _ => h.pure _
  | answerPrompt side id roll =>
    exact h.bind (h.discard (h.answerPrompt side id roll)) fun _ => h.pure _
  | attack orders => exact h.attack orders
  | endTurn => exact h.bind (h.discard h.endTurn) fun _ => h.pure _
  | cue r => exact h.bind (h.ask r) fun _ => h.pure _

theorem errand (h : Playable P) (e : Errand R) : P (e.perform : Step R G Unit) := by
  cases e with
  | call c => exact h.discard (h.perform c)
  | simulate turns => exact h.discard (h.simulate turns)

end Playable

instance : Dice.Source Unit where
  die _ g := (1, g)

def burn : Status Rat where
  id := "burn"
  name := "Burn"
  kind := .negative
  maxStacks := some 3
  behavior := some (.affliction { tiers := [2, 3, 4], decay := 1 })

def monk : Hero where
  id := "monk"
  name := "Monk"
  abilities := [{ combo := .threeOfAKind, damage := 4, grants := .ofList [("burn", 2)] }]

def monks : Match Rat Unit :=
  start { cueLengths := .empty } (Registry.empty.define burn) () ⟨monk, monk⟩ false

end Duel.Match
