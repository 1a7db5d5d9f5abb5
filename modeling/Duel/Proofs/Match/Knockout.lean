import Duel.Proofs.Match.Life
import Duel.Proofs.Match.Score

namespace Duel

namespace Standing

theorem eq_of_pending? {s : Standing} {b : Buff} (h : s.pending? = some b) : s = pending b := by
  cases s <;> cases h
  rfl

theorem left_after (d : Deed) (ds : List Deed) (b : Buff) :
    (Buff.left d b).bind (fun x => ((pending x).after ds).pending?) =
      ((pending b).after (d :: ds)).pending? := by
  rw [after_cons, Buff.left]
  cases hs : ((pending b).meet d).pending? with
  | none => rw [after_gone hs, hs, Option.bind_none]
  | some x => rw [eq_of_pending? hs, Option.bind_some]

end Standing

/-- The buffs that a knockout leaves are those that outlive it. -/
theorem Buff.left_knockout {down : Side} {b x : Buff} (h : Buff.left (.knockout down) b = some x) :
    x.fateAtKnockout (some down) = .pending := by
  unfold Buff.left Standing.meet Standing.knockout at h
  cases hf : b.fateAtKnockout (some down) with
  | ready => exact absurd hf (Partition.fateAtKnockout_ne_ready b _)
  | pending =>
    simp only [hf, Standing.pending?, Option.some.injEq] at h
    exact h ▸ hf
  | expired why => simp [hf, Standing.pending?] at h

namespace Board

variable {R : Type}

theorem Leads.buffs_left {b c : Board R} {ds : List Deed} (h : Leads b ds c)
    (hd : ∀ d ∈ ds, d.born = []) :
    c.buffs = b.buffs.filterMap fun x => ((Standing.pending x).after ds).pending? := by
  induction h with
  | rest b => exact List.filterMap_some.symm
  | @step a b c d ds hm _ ih =>
    cases d with
    | none => rw [ih hd, hm.buffs_aside]; rfl
    | some d =>
      obtain ⟨hb, hd⟩ := List.forall_mem_cons.mp hd
      rw [ih hd, hm.buffs_eq, hb, List.append_nil, List.filterMap_filterMap]
      congr 1
      funext x
      exact Standing.left_after d ds x

theorem Leads.knockout_last {b c : Board R} {ds : List Deed} {down : Side}
    (h : Leads b (ds ++ [.knockout down]) c) :
    ∀ x ∈ c.buffs, x.fateAtKnockout (some down) = .pending := by
  obtain ⟨a, a', -, hm, hl⟩ := h.split
  intro x hx
  rw [hl.buffs_left (fun d hd => by cases hd), hm.buffs_eq] at hx
  simp only [Standing.after_nil, Standing.pending?, List.filterMap_some, Deed.born,
    List.append_nil] at hx
  obtain ⟨y, -, hy⟩ := List.mem_filterMap.mp hx
  exact Buff.left_knockout hy

end Board

namespace Match

open Board (Leads)

variable {R G : Type} {m m' : Match R G}

def Tidied (m : Match R G) (down : Side) : Prop :=
  ∀ b ∈ m.buffs, b.fateAtKnockout (some down) = .pending

variable [Scalar R] [Dice.Source G]

theorem attack_tidied {orders : Orders} {res : Attack.Resolution} {down : Side}
    (h : attack orders m = .ok (some res) m') (hm : m.board.Seated)
    (hd : fallen m.active res.outcome = some down) : m'.Tidied down := by
  have hl : Leads m.board (attackDeeds m.board orders res) m'.board := by
    simpa using attack_leads h hm
  rw [attackDeeds, aftermath, show fallen m.board.active res.outcome = _ from hd,
    Option.toList_some, List.map_singleton, List.append_cons] at hl
  exact hl.knockout_last

omit [Dice.Source G] in
theorem startTurn_tidied_iff {side : Side} {logs : List String}
    (h : startTurn side m = .ok logs m') : m'.Tidied side ↔
      ∀ b ∈ m.buffs, ∀ x, (Standing.pending b).after (openingDeeds m.board side) = .pending x →
        x.fateAtKnockout (some side) = .pending := by
  -- Its deeds are two triggers: no knockout is among them, even if the side falls.
  have hb : m'.buffs = m.buffs.filterMap fun x =>
      ((Standing.pending x).after (openingDeeds m.board side)).pending? :=
    (startTurn_leads h).buffs_left (by simp [openingDeeds, Deed.born])
  rw [Tidied, hb]
  constructor
  · intro ht b hm x hx
    exact ht x (List.mem_filterMap.mpr ⟨b, hm, by rw [hx]; rfl⟩)
  · intro ht x hx
    obtain ⟨b, hm, hx⟩ := List.mem_filterMap.mp hx
    exact ht b hm x (Standing.eq_of_pending? hx)

/-- After any calls to a fresh match: a call that knocks a side out makes the other one the winner,
and leaves no buff that does not outlive the knockout. Only a turn that begins leaves all that are
pending then, whatever is to be carried over. -/
theorem tidied_iff (settings : Settings R) (registry : Registry R) (dice : G)
    (heroes : Sides Hero) (keepsRecords : Bool) {calls : List (Call R)}
    {replies : List (Option Attack.Resolution)} {m m' : Match R G} {c : Call R}
    {reply : Option Attack.Resolution}
    (h : run calls (start settings registry dice heroes keepsRecords) = .ok replies m)
    (hc : c.perform m = .ok reply m') :
    m'.winner = decided (c.downs m reply m') m.winner ∧
      ∀ down, c.downs m reply m' = some down → (m'.Tidied down ↔
        (c = .startTurn down → ∀ b ∈ m.buffs, ∀ x,
          (Standing.pending b).after (openingDeeds m.board down) = .pending x →
            x.fateAtKnockout (some down) = .pending)) := by
  have hm := (run_leads h (seated_start settings registry dice heroes keepsRecords)).seated
    (seated_start settings registry dice heroes keepsRecords)
  refine ⟨perform_winner hc, fun down hd => ?_⟩
  cases c with
  | attack orders =>
    obtain ⟨res, rfl, hf⟩ := Option.bind_eq_some_iff.mp hd
    exact iff_of_true (attack_tidied hc hm hf) fun he => by cases he
  | startTurn side =>
    obtain rfl : side = down := by
      rw [Call.downs] at hd
      split at hd
      · cases hd
      · exact Option.some.inj hd
    obtain ⟨_, _, hs, hc⟩ := bind_ok hc
    obtain ⟨-, rfl⟩ := pure_ok hc
    obtain ⟨_, hs⟩ := discard_ok hs
    rw [startTurn_tidied_iff hs]
    exact ⟨fun ht _ => ht, fun ht => ht rfl⟩
  | answerPrompt | endTurn | cue => cases hd

def frail : Match Rat Unit :=
  start { cueLengths := .empty } (Registry.empty.define burn) () ⟨monk, { monk with maxHp := 5 }⟩
    false

def spite : List (Call Rat) :=
  [.startTurn .you, .attack {
    dice := [3, 3, 3, 1, 2], defenseRoll := some 1
    grants := [{ status := "burn", usable := .nextDefenseCommit }] }, .endTurn]

def spoilt (m m' : Match Rat Unit) : Bool :=
  (Call.startTurn .ai).downs m none m' = some .ai &&
    m'.buffs.any (·.fateAtKnockout (some .ai) ≠ .pending)

theorem spite_spoils : ∃ replies m m', run spite frail = .ok replies m ∧
    (Call.startTurn .ai).perform m = .ok none m' ∧ spoilt m m' = true := by
  obtain ⟨replies, m, hm, hk⟩ := ok_of_ended (r := run spite frail)
    (f := fun r => (ended? ((Call.startTurn .ai).perform r.2)).any
      fun r' => r'.1.isNone && spoilt r.2 r'.2) (by decide +kernel)
  obtain ⟨reply, m', hm', hk⟩ := ok_of_ended hk
  obtain ⟨hr, hs⟩ := Bool.and_eq_true_iff.mp hk
  obtain rfl := Option.isNone_iff_eq_none.mp hr
  exact ⟨replies, m, m', hm, hm', hs⟩

theorem tidied_iff_spite : ∃ replies m m', run spite frail = .ok replies m ∧
    (Call.startTurn .ai).perform m = .ok none m' ∧
    (Call.startTurn .ai).downs m none m' = some .ai ∧ m'.winner = some .you ∧
    (m'.Tidied .ai ↔ ∀ b ∈ m.buffs, ∀ x,
      (Standing.pending b).after (openingDeeds m.board .ai) = .pending x →
        x.fateAtKnockout (some .ai) = .pending) := by
  obtain ⟨replies, m, m', hm, hm', hs⟩ := spite_spoils
  have hd := of_decide_eq_true (Bool.and_eq_true_iff.mp hs).1
  obtain ⟨hw, ht⟩ := tidied_iff _ _ _ _ _ hm hm'
  rw [hd] at hw
  exact ⟨replies, m, m', hm, hm', hd, hw, (ht .ai hd).trans (by simp)⟩

/-- The burn ends the match, and the stack still waits. -/
theorem not_tidied : ¬∀ (settings : Settings Rat) (registry : Registry Rat) (heroes : Sides Hero)
    (keepsRecords : Bool) (calls : List (Call Rat)) (replies : List (Option Attack.Resolution))
    (m m' : Match Rat Unit) (c : Call Rat) (reply : Option Attack.Resolution) (down : Side),
    run calls (start settings registry () heroes keepsRecords) = .ok replies m →
      c.perform m = .ok reply m' → c.downs m reply m' = some down → m'.Tidied down := by
  intro h
  obtain ⟨replies, m, m', hm, hm', hs⟩ := spite_spoils
  obtain ⟨hd, hb⟩ := Bool.and_eq_true_iff.mp hs
  obtain ⟨b, hb, hf⟩ := List.any_eq_true.mp hb
  have ht := h _ _ _ _ spite replies m m' _ none .ai hm hm' (of_decide_eq_true hd)
  exact of_decide_eq_true hf (ht b hb)

end Match

end Duel
