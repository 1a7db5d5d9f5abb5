import Duel.Cue.Queue
import Duel.Proofs.Field

namespace Duel

namespace Cue

variable {R : Type}

theorem measure_ok [Scalar R] {name : String} {x y : R} (h : measure name x = .ok y) :
    Scalar.measure? x = some y := by
  rw [measure] at h
  split at h
  next hx =>
    cases h
    exact hx
  next => cases h

theorem measure_of [Scalar R] {name : String} {x y : R} (h : Scalar.measure? x = some y) :
    measure name x = .ok y := by
  rw [measure, h]

namespace Queue

theorem insert_perm (c : Queued R) (pending : List (Queued R)) :
    (insert c pending).Perm (c :: pending) := by
  fun_induction insert c pending with
  | case1 => rfl
  | case2 => rfl
  | case3 d rest h ih => exact (ih.cons d).trans (.swap c d rest)

def isHeld (held : Cue R → Bool) (c : Queued R) : Bool := !c.inTransition && held c.toCue

theorem takeFirst_parts {held : Cue R → Bool} {pending rest : List (Queued R)} {c : Queued R}
    (h : takeFirst held pending = some (c, rest)) :
    ∃ before after, pending = before ++ c :: after ∧ rest = before ++ after ∧
      isHeld held c = false ∧ ∀ d ∈ before, isHeld held d = true := by
  induction pending generalizing rest with
  | nil => cases h
  | cons d pending ih =>
    rw [takeFirst] at h
    split at h
    · obtain ⟨⟨e, others⟩, ht, he⟩ := Option.map_eq_some_iff.mp h
      cases he
      obtain ⟨before, after, rfl, rfl, hc, hb⟩ := ih ht
      exact ⟨d :: before, after, rfl, rfl, hc, List.forall_mem_cons.mpr ⟨‹_›, hb⟩⟩
    · cases h
      exact ⟨[], pending, rfl, rfl, Bool.eq_false_iff.mpr ‹_›, List.forall_mem_nil _⟩

theorem takeFirst_perm {defers : Cue R → Bool} {pending rest : List (Queued R)} {c : Queued R}
    (h : takeFirst defers pending = some (c, rest)) : pending.Perm (c :: rest) := by
  obtain ⟨before, after, rfl, rfl, -⟩ := takeFirst_parts h
  exact List.perm_middle

theorem takeFirst_sublist {defers : Cue R → Bool} {pending rest : List (Queued R)} {c : Queued R}
    (h : takeFirst defers pending = some (c, rest)) : rest.Sublist pending := by
  obtain ⟨before, after, rfl, rfl, -⟩ := takeFirst_parts h
  exact (List.sublist_cons_self c after).append_left before

theorem takeFirst_none {held : Cue R → Bool} {pending : List (Queued R)}
    (h : takeFirst held pending = none) : ∀ c ∈ pending, isHeld held c = true := by
  induction pending with
  | nil => exact List.forall_mem_nil _
  | cons d pending ih =>
    rw [takeFirst] at h
    split at h
    · exact List.forall_mem_cons.mpr ⟨‹_›, ih (Option.map_eq_none_iff.mp h)⟩
    · cases h

theorem weakest_mem_cons (c : Queued R) (rest : List (Queued R)) :
    rest.foldl (fun least d => if weaker d least then d else least) c ∈ c :: rest := by
  induction rest generalizing c with
  | nil => exact List.mem_cons_self
  | cons d rest ih =>
    rw [List.foldl_cons]
    split
    · exact List.mem_cons_of_mem c (ih d)
    · exact List.cons_subset_cons c (List.subset_cons_self d rest) (ih c)

theorem weakest_mem {pending : List (Queued R)} {w : Queued R} (h : weakest? pending = some w) :
    w ∈ pending := by
  cases pending with
  | nil => cases h
  | cons c rest =>
    cases h
    exact weakest_mem_cons c rest

theorem filter_all (pending : List (Queued R)) :
    pending.filter (fun c => (fun _ => true) c.number) = pending :=
  List.filter_eq_self.mpr fun _ _ => rfl

theorem makeRoom_keeps {rank : Nat} {pending others : List (Queued R)}
    (h : makeRoom rank pending = some others) :
    ∃ keeps : Nat → Bool, others = pending.filter (keeps ·.number) ∧
      (0 < pending.length → others.length < pending.length) := by
  cases hw : weakest? pending with
  | none =>
    cases pending with
    | nil =>
      cases h
      exact ⟨fun _ => true, rfl, id⟩
    | cons c rest => cases hw
  | some w =>
    rw [makeRoom, hw] at h
    dsimp only at h
    split at h
    · cases h
    · cases h
      refine ⟨(· != w.number), rfl, fun _ => ?_⟩
      exact List.length_filter_lt_length_iff_exists.mpr ⟨w, weakest_mem hw, by simp⟩

variable [Scalar R] {q : Queue R}

theorem mergePending_parts {key : String} {now : R} {pending others : List (Queued R)}
    (h : q.mergePending key now pending = .ok (some others)) :
    ∃ before c after, pending = before ++ c :: after ∧
      others = before ++ { c with repeats := c.repeats + 1, mergedAt := now } :: after ∧
      q.merges c.toCue c.mergedAt key now = .ok true := by
  induction pending generalizing others with
  | nil => cases h
  | cons d pending ih =>
    rw [mergePending] at h
    obtain ⟨merges, hd, h⟩ := except_bind_ok h
    cases merges with
    | true =>
      cases h
      exact ⟨[], d, pending, rfl, rfl, hd⟩
    | false =>
      obtain ⟨merged, hm, h⟩ := except_bind_ok h
      cases merged with
      | none => cases h
      | some rest =>
        cases h
        obtain ⟨before, c, after, rfl, rfl, hc⟩ := ih hm
        exact ⟨d :: before, c, after, rfl, rfl, hc⟩

theorem mergePending_none {key : String} {now : R} {pending : List (Queued R)}
    (h : q.mergePending key now pending = .ok none) {c : Queued R} (hc : c ∈ pending) :
    q.merges c.toCue c.mergedAt key now = .ok false := by
  induction pending with
  | nil => cases hc
  | cons d pending ih =>
    rw [mergePending] at h
    obtain ⟨merges, hd, h⟩ := except_bind_ok h
    cases merges with
    | true => cases h
    | false =>
      obtain ⟨merged, hm, h⟩ := except_bind_ok h
      cases merged with
      | some rest => cases h
      | none =>
        obtain rfl | hc := List.mem_cons.mp hc
        · exact hd
        · exact ih hm hc

theorem mergeActive_parts {key : String} {now : R} {a : Active R}
    (h : q.mergeActive key now = .ok (some a)) :
    ∃ b, q.active = some b ∧ a = { b with repeats := b.repeats + 1, mergedAt := now } ∧
      q.merges b.toCue b.mergedAt key now = .ok true := by
  rw [mergeActive] at h
  split at h
  · cases h
  · obtain ⟨merges, hb, h⟩ := except_bind_ok h
    cases merges with
    | true =>
      cases h
      exact ⟨_, ‹_›, rfl, hb⟩
    | false => cases h

theorem mergePending_ok (q : Queue R) (key : String) (now : R) (pending : List (Queued R))
    (h : ∀ c ∈ pending, ∃ b, q.merges c.toCue c.mergedAt key now = .ok b) :
    ∃ merged, q.mergePending key now pending = .ok merged := by
  induction pending with
  | nil => exact ⟨none, rfl⟩
  | cons c rest ih =>
    obtain ⟨⟨b, hb⟩, hr⟩ := List.forall_mem_cons.mp h
    obtain ⟨merged, hm⟩ := ih hr
    rw [mergePending, hb, hm]
    cases b with
    | true => exact ⟨_, rfl⟩
    | false => exact ⟨_, rfl⟩

theorem mergeActive_ok (q : Queue R) (key : String) (now : R)
    (h : ∀ a, q.active = some a → ∃ b, q.merges a.toCue a.mergedAt key now = .ok b) :
    q.mergeActive key now = .ok none ∨ ∃ a, q.active = some a ∧
      q.mergeActive key now = .ok (some { a with repeats := a.repeats + 1, mergedAt := now }) := by
  rw [mergeActive]
  cases ha : q.active with
  | none => exact .inl rfl
  | some a =>
    obtain ⟨b, hb⟩ := h a ha
    dsimp only
    rw [hb]
    cases b with
    | true => exact .inr ⟨a, rfl, rfl⟩
    | false => exact .inl rfl

theorem mergeActive_none {key : String} {now : R} (h : q.mergeActive key now = .ok none)
    {b : Active R} (hb : q.active = some b) : q.merges b.toCue b.mergedAt key now = .ok false := by
  rw [mergeActive, hb] at h
  obtain ⟨merges, hm, h⟩ := except_bind_ok h
  cases merges with
  | true => cases h
  | false => exact hm

omit [Scalar R] in
theorem receive_keeps {q' : Queue R} {c : Cue R} (h : q.receive c = some q') :
    ∃ keeps : Nat → Bool,
      q' = { q with
        lastNumber := q.lastNumber + 1, pending := q.pending.filter (keeps ·.number) } ∧
      (0 < q.room → q.pending.length ≤ q.room → q'.pending.length < q.room) := by
  obtain ⟨others, ho, rfl⟩ := Option.map_eq_some_iff.mp h
  split at ho
  · cases ho
    exact ⟨fun _ => true, by rw [filter_all], fun _ _ => ‹_›⟩
  · obtain ⟨keeps, rfl, hl⟩ := makeRoom_keeps ho
    refine ⟨keeps, rfl, fun h0 hf => ?_⟩
    have := hl (by omega)
    dsimp only
    omega

theorem queued_ok {c : Cue R} {now : R} {w : Queued R} (h : q.queued c now = .ok w) :
    w.number = q.lastNumber ∧ w.repeats = 1 := by
  obtain ⟨_, _, -, -, hw⟩ := Field.both_ok (mapError_ok h)
  rw [hw]
  exact ⟨rfl, rfl⟩

theorem activate_repeats {c : Queued R} {now ends : R} {a : Active R}
    (h : q.activate c now ends = .ok a) : a.repeats = c.repeats := by
  obtain ⟨_, _, -, -, ha⟩ := Field.both_ok (mapError_ok h)
  rw [ha]

theorem activate_cue {c : Queued R} {now ends : R} {a : Active R}
    (h : q.activate c now ends = .ok a) : a.toCue = c.toCue := by
  obtain ⟨_, _, -, -, ha⟩ := Field.both_ok (mapError_ok h)
  rw [ha]

theorem activate_starts {c : Queued R} {now ends : R} {a : Active R}
    (h : q.activate c now ends = .ok a) :
    a.id = q.lastId ∧ Scalar.measure? now = some a.startedAt := by
  obtain ⟨⟨_, start⟩, _, hl, -, rfl⟩ := Field.both_ok (mapError_ok h)
  obtain ⟨_, _, -, hs, he⟩ := Field.both_ok hl
  obtain ⟨-, rfl⟩ := Prod.mk.inj he
  exact ⟨rfl, measure_ok hs⟩

end Queue

end Cue

end Duel
