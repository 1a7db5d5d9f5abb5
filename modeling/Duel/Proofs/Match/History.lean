import Duel.Proofs.Match.Run

namespace Duel

namespace Event

def about (es : List Event) (owner id : String) : List Event :=
  (es.filter (·.owner == some owner)).filter (·.status == id)

/-- The count that events leave, if they start from none. -/
def lastCount (es : List Event) : Int := (es.getLast?.map (·.after)).getD 0

def rebuilt (es : List Event) : Option Int :=
  if lastCount es = 0 then none else some (lastCount es)

theorem Chain.getLast {n k : Int} {es : List Event} (h : Chain n es k) :
    (es.getLast?.map (·.after)).getD n = k := by
  induction es generalizing n with
  | nil => exact h
  | cons e es ih =>
    rw [← ih h.2]
    cases es with
    | nil => rfl
    | cons f es => simp [List.getLast?_cons]

end Event

theorem Side.name_injective {s t : Side} (h : s.name = t.name) : s = t := by
  revert h
  cases s <;> cases t <;> simp [name]

namespace Stacks

variable {R : Type} {reg : Registry R}

/-- A buff never takes stacks away, and it is told of unless it adds none. -/
theorem linked_apply {held : Stacks} (b : Buff) (h : Positive held) :
    Linked b.owner.name held (b.apply held reg).events (b.apply held reg).value := by
  unfold Buff.apply
  cases hs : reg.get? b.status with
  | none => exact .refl held
  | some status =>
    have hc := h.count_nonneg b.status
    have hr : held.count b.status ≤ b.raise status (held.count b.status) := Int.le_max_left _ _
    by_cases hp : 0 < b.raise status (held.count b.status)
    · have hw : held.put b.status (b.raise status (held.count b.status)) =
          held.write b.status (b.raise status (held.count b.status)) := by
        rw [Stacks.write, if_neg (by omega)]
      simp only [if_pos hp, hw]
      exact linked_write held b.status (by omega) rfl
    · have he : held.count b.status = b.raise status (held.count b.status) := by omega
      simp only [if_neg hp, Event.ofChange, if_pos he]
      exact .refl held

theorem positive_apply {held : Stacks} (b : Buff) (h : Positive held) :
    Positive (b.apply held reg).value := by
  unfold Buff.apply
  cases hs : reg.get? b.status with
  | none => exact h
  | some status =>
    by_cases hp : 0 < b.raise status (held.count b.status)
    · simp only [if_pos hp]
      exact h.put _ hp
    · simp only [if_neg hp]
      exact h

end Stacks

namespace Board

open Stacks (Linked Positive)

variable {R : Type}

def Fair (b : Board R) : Prop := ∀ side, Positive (b.player side).statuses

/-- What one board tells more than another leads from the stacks of this one to those of the
other. -/
def Tells (b c : Board R) : Prop :=
  ∃ es, c.history = b.history ++ es ∧ (∀ e ∈ es, e.before ≠ e.after) ∧
    ∀ side : Side, Linked side.name (b.player side).statuses
      (es.filter (·.owner == some side.name)) (c.player side).statuses

theorem Tells.of_eq {b c : Board R} (hh : c.history = b.history)
    (hs : ∀ side, (c.player side).statuses = (b.player side).statuses) : Tells b c :=
  ⟨[], by simp [hh], by simp, fun side => by rw [hs]; exact .refl _⟩

theorem Tells.trans {b c d : Board R} (h : Tells b c) (h' : Tells c d) : Tells b d := by
  obtain ⟨es, he, hm, hl⟩ := h
  obtain ⟨fs, hf, hn, hk⟩ := h'
  refine ⟨es ++ fs, by rw [hf, he, List.append_assoc], fun e h => ?_, fun side => ?_⟩
  · exact (List.mem_append.mp h).elim (hm e) (hn e)
  · rw [List.filter_append]
    exact (hl side).trans (hk side)

theorem holding_statuses_self (b : Board R) (side : Side) (held : Stacks) (es : List Event) :
    ((b.holding side held es).player side).statuses = held := by
  cases side <;> rfl

theorem holding_statuses_of_ne {s side : Side} (h : s ≠ side) (b : Board R) (held : Stacks)
    (es : List Event) : ((b.holding side held es).player s).statuses = (b.player s).statuses := by
  cases s <;> cases side <;> first | rfl | exact absurd rfl h

theorem tells_holding {b : Board R} {side : Side} {held : Stacks} {es : List Event}
    (h : Linked side.name (b.player side).statuses es held) :
    Tells b (b.holding side held es) := by
  refine ⟨es, rfl, h.moved, fun s => ?_⟩
  by_cases hs : s = side
  · subst hs
    have hf : es.filter (·.owner == some s.name) = es :=
      List.filter_eq_self.mpr fun e he => by simp [h.owned e he]
    rw [hf, holding_statuses_self]
    exact h
  · have hf : es.filter (·.owner == some s.name) = [] := by
      refine List.filter_eq_nil_iff.mpr fun e he => ?_
      simpa [h.owned e he] using fun hn => hs (Side.name_injective hn).symm
    rw [hf, holding_statuses_of_ne hs]
    exact .refl _

theorem fair_holding {b : Board R} {side : Side} {held : Stacks} (es : List Event)
    (hb : b.Fair) (h : Positive held) : (b.holding side held es).Fair := by
  intro s
  by_cases hs : s = side
  · rw [hs, holding_statuses_self]
    exact h
  · rw [holding_statuses_of_ne hs]
    exact hb s

theorem use_tells {b : Board R} (buff : Buff) (hb : b.Fair) :
    Tells b (b.use buff) ∧ (b.use buff).Fair :=
  ⟨tells_holding (Stacks.linked_apply buff (hb _)),
    fair_holding _ hb (Stacks.positive_apply buff (hb _))⟩

theorem foldl_use_tells (buffs : List Buff) {b : Board R} (hb : b.Fair) :
    Tells b (buffs.foldl use b) ∧ (buffs.foldl use b).Fair := by
  induction buffs generalizing b with
  | nil => exact ⟨.of_eq rfl fun _ => rfl, hb⟩
  | cons buff buffs ih =>
    obtain ⟨hu, hf⟩ := use_tells buff hb
    obtain ⟨ht, hr⟩ := ih hf
    exact ⟨hu.trans ht, hr⟩

theorem Move.tells {b c : Board R} {d : Option Deed} (h : Move b d c) (hb : b.Fair) :
    Tells b c ∧ c.Fair := by
  cases h with
  | held side h => exact ⟨tells_holding h.linked, fair_holding _ hb (h.positive (hb side))⟩
  | trigger moment owner =>
    exact foldl_use_tells (Buff.Partition.ofTrigger b.buffs (b.now moment owner)).ready hb
  | life side hp =>
    have hs (s : Side) : ((b.living side hp).player s).statuses = (b.player s).statuses := by
      cases side <;> cases s <;> rfl
    exact ⟨.of_eq rfl hs, fun s => hs s ▸ hb s⟩
  | _ => exact ⟨.of_eq rfl fun _ => rfl, hb⟩

theorem Leads.tells {b c : Board R} {ds : List Deed} (h : Leads b ds c) (hb : b.Fair) :
    Tells b c ∧ c.Fair := by
  induction h with
  | rest => exact ⟨.of_eq rfl fun _ => rfl, hb⟩
  | step hm _ ih =>
    obtain ⟨ht, hf⟩ := hm.tells hb
    obtain ⟨ht', hf'⟩ := ih hf
    exact ⟨ht.trans ht', hf'⟩

end Board

namespace Match

variable {R G : Type} [Scalar R] [Dice.Source G]

/-- The history tells each count of both sides without a gap, and nothing that did not happen. -/
theorem history_chains (settings : Settings R) (registry : Registry R) (dice : G)
    (heroes : Sides Hero) (keepsRecords : Bool) (calls : List (Call R)) {m : Match R G}
    {replies : List (Option Attack.Resolution)}
    (h : run calls (start settings registry dice heroes keepsRecords) = .ok replies m) :
    (∀ e ∈ m.history, e.before ≠ e.after) ∧ ∀ (side : Side) (id : String),
      Event.Chain 0 (Event.about m.history side.name id) ((m.player side).statuses.count id) ∧
      (m.player side).statuses.get? id = Event.rebuilt (Event.about m.history side.name id) := by
  have hl := run_leads h (seated_start settings registry dice heroes keepsRecords)
  have hs : (start settings registry dice heroes keepsRecords).board.Fair := by
    intro side
    cases side <;> exact Stacks.positive_empty
  obtain ⟨⟨es, he, hm, hc⟩, hf⟩ := hl.tells hs
  obtain rfl : m.history = es := he
  refine ⟨hm, fun side id => ?_⟩
  have hn : ((start settings registry dice heroes keepsRecords).player side).statuses.count id =
      0 := by cases side <;> rfl
  have hchain : Event.Chain 0 (Event.about m.history side.name id)
      ((m.player side).statuses.count id) := hn ▸ (hc side).chain id
  refine ⟨hchain, ?_⟩
  rw [Event.rebuilt, Event.lastCount, hchain.getLast]
  exact (hf side).get?_eq id

/-- Two stacks that are granted, one of which wears off in the turn after. -/
theorem history_chains_burn : ∃ replies m,
    run [.startTurn .you, .attack { dice := [3, 3, 3, 1, 2] }, .endTurn, .startTurn .ai] monks =
      .ok replies m ∧ m.history.map (·.after) = [2, 1] ∧
      (∀ e ∈ m.history, e.before ≠ e.after) ∧ ∀ (side : Side) (id : String),
        Event.Chain 0 (Event.about m.history side.name id) ((m.player side).statuses.count id) ∧
        (m.player side).statuses.get? id =
          Event.rebuilt (Event.about m.history side.name id) := by
  have hk : (ended? (run [.startTurn .you, .attack { dice := [3, 3, 3, 1, 2] }, .endTurn,
      .startTurn .ai] monks)).any (·.2.history.map (·.after) == [2, 1]) = true := by
    decide +kernel
  obtain ⟨replies, m, hr, hm⟩ := ok_of_ended hk
  exact ⟨replies, m, hr, eq_of_beq hm, history_chains _ _ _ _ _ _ hr⟩

end Match

end Duel
