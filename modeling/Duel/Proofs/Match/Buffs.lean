import Duel.Proofs.Match.Life

namespace Duel

theorem Buff.fate_of_unlimited {b : Buff} (he : b.expires = none) (hn : b.turnsLeft = none)
    (t : Buff.Trigger) : b.fate t = (b, if b.isUsableAt t then .ready else .pending) := by
  have hc : b.countDown t = b := by simp [countDown, hn]
  simp [fate, hc, runsOut, hn, ending?, he]

namespace Standing

/-- Nothing has become of a buff yet, unless a knockout has ended it. -/
def Waits (x : Buff) (s : Standing) : Prop :=
  s = pending x ∨ ∃ why down, s = dropped x why down

theorem Waits.meet {x : Buff} {s : Standing} (h : Waits x s) (he : x.expires = none)
    (hn : x.turnsLeft = none) {d : Deed} (hd : ∀ t, d = .trigger t → x.isUsableAt t = false) :
    Waits x (s.meet d) := by
  obtain rfl | ⟨why, down, rfl⟩ := h
  · cases d with
    | trigger t =>
      refine .inl ?_
      simp [Standing.meet, trigger, Buff.fate_of_unlimited he hn, hd t rfl]
    | knockout down =>
      simp only [Standing.meet, knockout]
      cases x.fateAtKnockout (some down) with
      | expired why => exact .inr ⟨why, down, rfl⟩
      | _ => exact .inl rfl
    | _ => exact .inl rfl
  · exact .inr ⟨why, down, rfl⟩

theorem Waits.after {x : Buff} {s : Standing} (h : Waits x s) (he : x.expires = none)
    (hn : x.turnsLeft = none) {ds : List Deed}
    (hd : ∀ t, .trigger t ∈ ds → x.isUsableAt t = false) : Waits x (s.after ds) := by
  induction ds generalizing s with
  | nil => exact h
  | cons d ds ih =>
    rw [after_cons]
    refine ih (h.meet he hn fun t ht => hd t ?_) fun t ht => hd t (List.mem_cons_of_mem _ ht)
    rw [ht]
    exact List.mem_cons_self

end Standing

namespace Match

open Board (Leads Move Tracks)
open Standing (Waits)

variable {R G : Type}

variable [Scalar R] [Dice.Source G]

def guarded : Orders where
  dice := [3, 3, 3, 1, 2]
  defenseRoll := some 1
  grants := [{ status := "burn" }]

end Match

end Duel
