import Duel.Proofs.Ledger
import Duel.Stacks

namespace Duel

namespace Event

/-- Each event starts from the count that the last one has left. -/
def Chain : Int → List Event → Int → Prop
  | n, [], k => n = k
  | n, e :: es, k => e.before = n ∧ Chain e.after es k

theorem Chain.append {n k l : Int} {es fs : List Event} (h : Chain n es k) (h' : Chain k fs l) :
    Chain n (es ++ fs) l := by
  induction es generalizing n with
  | nil =>
    cases h
    exact h'
  | cons e es ih => exact ⟨h.1, ih h.2⟩

end Event

namespace Stacks

variable {R : Type} {reg : Registry R} {owner : String}

def Positive (held : Stacks) : Prop := ∀ e ∈ held.entries, 0 < e.2

theorem positive_empty : Positive .empty := by
  intro e he
  simp [Ledger.empty] at he

theorem Positive.count_nonneg {held : Stacks} (h : Positive held) (id : String) :
    0 ≤ held.count id := by
  unfold count
  cases hg : held.get? id with
  | none => simp
  | some n => exact Int.le_of_lt (h _ (Ledger.mem_of_get?_eq_some hg))

theorem Positive.get?_eq {held : Stacks} (h : Positive held) (id : String) :
    held.get? id = if held.count id = 0 then none else some (held.count id) := by
  unfold count
  cases hg : held.get? id with
  | none => simp
  | some n =>
    have hn : 0 < n := h _ (Ledger.mem_of_get?_eq_some hg)
    have hz : n ≠ 0 := by omega
    simp [hz]

theorem Positive.put {held : Stacks} (h : Positive held) (id : String) {n : Int} (hn : 0 < n) :
    Positive (held.put id n) := by
  intro e he
  rcases Ledger.mem_put he with rfl | he
  · exact hn
  · exact h e he

theorem Positive.write {held : Stacks} (h : Positive held) (id : String) (n : Int) :
    Positive (held.write id n) := by
  unfold Stacks.write
  split
  · exact fun e he => h e (Ledger.mem_erase he)
  · exact h.put id (by omega)

theorem count_write_self (held : Stacks) (id : String) {n : Int} (hn : 0 ≤ n) :
    (held.write id n).count id = n := by
  unfold write count
  split
  · rw [Ledger.get?_erase_self]
    exact Int.le_antisymm hn ‹_›
  · rw [Ledger.get?_put_self]
    rfl

theorem count_write_of_ne {id other : String} (h : other ≠ id) (held : Stacks) (n : Int) :
    (held.write id n).count other = held.count other := by
  unfold write count
  split
  · rw [Ledger.get?_erase_of_ne h]
  · rw [Ledger.get?_put_of_ne h]

theorem clamp_nonneg (status : Option (Status R)) (n : Int) : 0 ≤ Status.clamp status n := by
  unfold Status.clamp
  split
  · split <;> exact Int.le_max_left _ _
  · exact Int.le_max_left _ _

/-- The changes of a stack map that are told of under the name of its owner, one after the
other. -/
inductive Changes (reg : Registry R) (owner : String) : Stacks → List Event → Stacks → Prop
  | none (held : Stacks) : Changes reg owner held [] held
  | assign {held next : Stacks} {es : List Event} (id : String) (n : Int) {cause : Cause}
      (ho : cause.owner = some owner)
      (h : Changes reg owner (held.assign id n reg (some cause)).value es next) :
      Changes reg owner held ((held.assign id n reg (some cause)).events ++ es) next
  | add {held next : Stacks} {es : List Event} (id : String) (n : Int) {cause : Cause}
      (ho : cause.owner = some owner)
      (h : Changes reg owner (held.add id n reg (some cause)).value es next) :
      Changes reg owner held ((held.add id n reg (some cause)).events ++ es) next

theorem Changes.trans {held mid next : Stacks} {es fs : List Event}
    (h : Changes reg owner held es mid) (h' : Changes reg owner mid fs next) :
    Changes reg owner held (es ++ fs) next := by
  induction h with
  | none => exact h'
  | assign id n ho _ ih =>
    rw [List.append_assoc]
    exact .assign id n ho (ih h')
  | add id n ho _ ih =>
    rw [List.append_assoc]
    exact .add id n ho (ih h')

theorem Changes.of_assign (held : Stacks) (id : String) (n : Int) {cause : Cause}
    (ho : cause.owner = some owner) :
    Changes reg owner held (held.assign id n reg (some cause)).events
      (held.assign id n reg (some cause)).value := by
  simpa using Changes.assign id n ho (.none _)

theorem Changes.of_add (held : Stacks) (id : String) (n : Int) {cause : Cause}
    (ho : cause.owner = some owner) :
    Changes reg owner held (held.add id n reg (some cause)).events
      (held.add id n reg (some cause)).value := by
  simpa using Changes.add id n ho (.none _)

/-- Events of one owner that lead from the counts of a stack map to those of another. -/
structure Linked (owner : String) (held : Stacks) (es : List Event) (next : Stacks) : Prop where
  owned : ∀ e ∈ es, e.owner = some owner
  moved : ∀ e ∈ es, e.before ≠ e.after
  chain : ∀ id, Event.Chain (held.count id) (es.filter (·.status == id)) (next.count id)

theorem Linked.refl (held : Stacks) : Linked owner held [] held :=
  ⟨by simp, by simp, fun _ => rfl⟩

theorem Linked.trans {held mid next : Stacks} {es fs : List Event}
    (h : Linked owner held es mid) (h' : Linked owner mid fs next) :
    Linked owner held (es ++ fs) next where
  owned e he := (List.mem_append.mp he).elim (h.owned e) (h'.owned e)
  moved e he := (List.mem_append.mp he).elim (h.moved e) (h'.moved e)
  chain id := by
    rw [List.filter_append]
    exact (h.chain id).append (h'.chain id)

theorem linked_write (held : Stacks) (id : String) {n : Int} (hn : 0 ≤ n) {cause : Cause}
    (ho : cause.owner = some owner) :
    Linked owner held (Event.ofChange (some cause) id (held.count id) n) (held.write id n) := by
  unfold Event.ofChange
  by_cases hb : held.count id = n
  · refine ⟨by simp [hb], by simp [hb], fun other => ?_⟩
    simp only [hb, if_true, List.filter_nil]
    by_cases hi : other = id
    · subst hi
      exact hb.trans (count_write_self held other hn).symm
    · exact (count_write_of_ne hi held n).symm
  · simp only [hb, if_false]
    refine ⟨by simp [ho], by simp [hb], fun other => ?_⟩
    by_cases hi : other = id
    · subst hi
      simpa [Event.Chain] using (count_write_self held other hn).symm
    · simpa [Event.Chain, Ne.symm hi] using (count_write_of_ne hi held n).symm

theorem linked_assign (held : Stacks) (id : String) (n : Int) {cause : Cause}
    (ho : cause.owner = some owner) :
    Linked owner held (held.assign id n reg (some cause)).events
      (held.assign id n reg (some cause)).value := by
  unfold assign
  split
  · exact .refl held
  · exact linked_write held id (clamp_nonneg _ _) ho

theorem linked_add (held : Stacks) (id : String) (n : Int) {cause : Cause}
    (ho : cause.owner = some owner) :
    Linked owner held (held.add id n reg (some cause)).events
      (held.add id n reg (some cause)).value := by
  unfold add
  split
  · exact .refl held
  · exact linked_write held id (clamp_nonneg _ _) ho

theorem Changes.linked {held next : Stacks} {es : List Event}
    (h : Changes reg owner held es next) : Linked owner held es next := by
  induction h with
  | none held => exact .refl held
  | assign id n ho _ ih => exact (linked_assign _ id n ho).trans ih
  | add id n ho _ ih => exact (linked_add _ id n ho).trans ih

theorem positive_assign {held : Stacks} (h : Positive held) (id : String) (n : Int)
    (cause : Option Cause) : Positive (held.assign id n reg cause).value := by
  unfold assign
  split
  · exact h
  · exact h.write id _

theorem positive_add {held : Stacks} (h : Positive held) (id : String) (n : Int)
    (cause : Option Cause) : Positive (held.add id n reg cause).value := by
  unfold add
  split
  · exact h
  · exact h.write id _

theorem Changes.positive {held next : Stacks} {es : List Event}
    (h : Changes reg owner held es next) (hp : Positive held) : Positive next := by
  induction h with
  | none => exact hp
  | assign id n _ _ ih => exact ih (positive_assign hp id n _)
  | add id n _ _ ih => exact ih (positive_add hp id n _)

end Stacks

end Duel
