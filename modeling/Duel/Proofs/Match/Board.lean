import Duel.Match.Turn
import Duel.Match.Attack
import Duel.Proofs.Stacks.Changes

namespace Duel

/-- What the rules of a match are about. Cues, dice, prompts, formulas and records are left out:
they come and go without a trace in it. -/
structure Board (R : Type) where
  registry : Registry R
  players : Sides Player
  buffs : List Buff
  round : Int
  turns : Nat
  active : Side
  winner : Option Side
  history : List Event

def Match.board {R G : Type} (m : Match R G) : Board R :=
  ⟨m.registry, m.players, m.buffs, m.round, m.turns, m.active, m.winner, m.history⟩

/-- What happens on a board that bears on its buffs. -/
inductive Deed
  | opened (side : Side)
  | trigger (t : Buff.Trigger)
  | made (buffs : List Buff)
  | knockout (down : Side)

namespace Board

variable {R : Type}

def player (b : Board R) (side : Side) : Player := b.players.get side

def turn (b : Board R) : String := if b.turns = 0 then "" else "t" ++ toString b.turns

def now (b : Board R) (moment : Buff.Moment) (owner : Option Side) : Buff.Trigger :=
  ⟨moment, owner, b.turn, b.round⟩

def holding (b : Board R) (side : Side) (held : Stacks) (es : List Event) : Board R :=
  { b with
    players := b.players.set side { b.player side with statuses := held }
    history := b.history ++ es }

def living (b : Board R) (side : Side) (hp : Int) : Board R :=
  { b with players := b.players.set side { b.player side with hp } }

def opened (b : Board R) (side : Side) : Board R :=
  { b with
    active := side
    turns := b.turns + 1
    round := if side = .you ∨ b.round = 0 then b.round + 1 else b.round }

def use (b : Board R) (buff : Buff) : Board R :=
  let x := buff.apply (b.player buff.owner).statuses b.registry
  b.holding buff.owner x.value x.events

def withBuffs (b : Board R) (buffs : List Buff) : Board R := { b with buffs }

/-- Every buff that is ready is used once, in order; those that are pending stay. -/
def triggered (b : Board R) (t : Buff.Trigger) : Board R :=
  let parts := Buff.Partition.ofTrigger b.buffs t
  (parts.ready.foldl use b).withBuffs parts.pending

def knockedOut (b : Board R) (down : Side) : Board R :=
  { b with
    winner := some down.other
    buffs := (Buff.Partition.ofKnockout b.buffs (some down)).pending }

/-- The small moves that every call to a match is made of, and the deed that each of them is. -/
inductive Move : Board R → Option Deed → Board R → Prop
  | opened (b : Board R) (side : Side) : Move b (some (.opened side)) (b.opened side)
  | trigger (b : Board R) (moment : Buff.Moment) (owner : Option Side) :
      Move b (some (.trigger (b.now moment owner))) (b.triggered (b.now moment owner))
  | made (b : Board R) (buffs : List Buff) :
      Move b (some (.made buffs)) (b.withBuffs (b.buffs ++ buffs))
  | knockout (b : Board R) (down : Side) : Move b (some (.knockout down)) (b.knockedOut down)
  | held (b : Board R) (side : Side) {es : List Event} {held : Stacks}
      (h : Stacks.Changes b.registry side.name (b.player side).statuses es held) :
      Move b none (b.holding side held es)
  | life (b : Board R) (side : Side) (hp : Int) : Move b none (b.living side hp)
  | fallen (b : Board R) (side : Side) : Move b none { b with winner := some side.other }
  | handed (b : Board R) (side : Side) : Move b none { b with active := side }

inductive Leads : Board R → List Deed → Board R → Prop
  | rest (b : Board R) : Leads b [] b
  | step {a b c : Board R} {d : Option Deed} {ds : List Deed} (h : Move a d b)
      (h' : Leads b ds c) : Leads a (d.toList ++ ds) c

theorem Leads.trans {a b c : Board R} {ds es : List Deed} (h : Leads a ds b)
    (h' : Leads b es c) : Leads a (ds ++ es) c := by
  induction h with
  | rest => exact h'
  | step hm _ ih =>
    rw [List.append_assoc]
    exact .step hm (ih h')

theorem Leads.of_eq {b c : Board R} (h : c = b) : Leads b [] c := h ▸ .rest b

theorem Leads.single {a b : Board R} {d : Option Deed} (h : Move a d b) :
    Leads a d.toList b := by
  simpa using Leads.step h (.rest b)

theorem Leads.aside {a b c : Board R} {ds : List Deed} (h : Move a none b) (h' : Leads b ds c) :
    Leads a ds c := .step h h'

theorem Leads.uncons {a c : Board R} {d : Deed} {ds es : List Deed} (h : Leads a es c)
    (he : es = d :: ds) : ∃ b b', Leads a [] b ∧ Move b (some d) b' ∧ Leads b' ds c := by
  induction h with
  | rest => cases he
  | @step a b c o _ hm h' ih =>
    cases o with
    | none =>
      obtain ⟨e, e', hl, he, hl'⟩ := ih he
      exact ⟨e, e', .aside hm hl, he, hl'⟩
    | some =>
      obtain ⟨rfl, rfl⟩ := List.cons.inj he
      exact ⟨a, b, .rest a, hm, h'⟩

theorem Leads.split {a c : Board R} {ds es : List Deed} {d : Deed}
    (h : Leads a (ds ++ d :: es) c) :
    ∃ b b', Leads a ds b ∧ Move b (some d) b' ∧ Leads b' es c := by
  induction ds generalizing a with
  | nil => exact h.uncons rfl
  | cons e ds ih =>
    obtain ⟨p, q, hp, hq, hr⟩ := h.uncons rfl
    obtain ⟨b, b', hb, hm, hl⟩ := ih hr
    exact ⟨b, b', hp.trans (.step hq hb), hm, hl⟩

def Seated (b : Board R) : Prop := ∀ side, (b.player side).side = side

theorem seated_of_get {b c : Board R} (h : b.Seated)
    (hs : ∀ side, (c.player side).side = (b.player side).side) : c.Seated :=
  fun side => (hs side).trans (h side)

theorem holding_side (b : Board R) (side : Side) (held : Stacks) (es : List Event) (s : Side) :
    ((b.holding side held es).player s).side = (b.player s).side := by
  cases side <;> cases s <;> rfl

theorem use_side (b : Board R) (buff : Buff) (s : Side) :
    ((b.use buff).player s).side = (b.player s).side :=
  holding_side b _ _ _ s

theorem foldl_use_side (buffs : List Buff) (b : Board R) (s : Side) :
    ((buffs.foldl use b).player s).side = (b.player s).side := by
  induction buffs generalizing b with
  | nil => rfl
  | cons buff buffs ih => rw [List.foldl_cons, ih, use_side]

theorem Move.seated {b c : Board R} {d : Option Deed} (h : Move b d c) (hb : b.Seated) :
    c.Seated := by
  refine seated_of_get hb fun s => ?_
  cases h with
  | trigger moment owner => exact foldl_use_side _ b s
  | held side => exact holding_side b side _ _ s
  | life side hp => cases side <;> cases s <;> rfl
  | _ => rfl

theorem Leads.seated {b c : Board R} {ds : List Deed} (h : Leads b ds c) (hb : b.Seated) :
    c.Seated := by
  induction h with
  | rest => exact hb
  | step hm _ ih => exact ih (hm.seated hb)

theorem living_holding (b : Board R) (side : Side) (held : Stacks) (es : List Event) (hp : Int) :
    (b.holding side held es).living side hp =
      { b with
        players := b.players.set side { b.player side with statuses := held, hp }
        history := b.history ++ es } := by
  cases side <;> rfl

@[simp] theorem use_turns (b : Board R) (buff : Buff) : (b.use buff).turns = b.turns := rfl

@[simp] theorem use_round (b : Board R) (buff : Buff) : (b.use buff).round = b.round := rfl

@[simp] theorem foldl_use_turns (buffs : List Buff) (b : Board R) :
    (buffs.foldl use b).turns = b.turns := by
  induction buffs generalizing b with
  | nil => rfl
  | cons buff buffs ih => rw [List.foldl_cons, ih, use_turns]

@[simp] theorem foldl_use_round (buffs : List Buff) (b : Board R) :
    (buffs.foldl use b).round = b.round := by
  induction buffs generalizing b with
  | nil => rfl
  | cons buff buffs ih => rw [List.foldl_cons, ih, use_round]

theorem Leads.clock {b c : Board R} {ds : List Deed} (h : Leads b ds c)
    (hd : ∀ side, Deed.opened side ∉ ds) : c.turns = b.turns ∧ c.round = b.round := by
  induction h with
  | rest => exact ⟨rfl, rfl⟩
  | @step a b c d ds hm _ ih =>
    obtain ⟨ht, hr⟩ := ih fun side hi => hd side (List.mem_append_right _ hi)
    rw [ht, hr]
    cases hm with
    | opened side => exact absurd (List.mem_cons_self ..) (hd side)
    | trigger => simp [triggered, withBuffs]
    | _ => exact ⟨rfl, rfl⟩

theorem Leads.turn_eq {b c : Board R} {ds : List Deed} (h : Leads b ds c)
    (hd : ∀ side, Deed.opened side ∉ ds) : c.turn = b.turn := by
  unfold turn
  rw [(h.clock hd).1]

theorem Leads.now_eq {b c : Board R} {ds : List Deed} (h : Leads b ds c)
    (hd : ∀ side, Deed.opened side ∉ ds) : c.now = b.now := by
  unfold now
  rw [h.turn_eq hd, (h.clock hd).2]

end Board

end Duel
