import Duel.Audience
import Mathlib.Data.List.Induction

namespace Duel.Hall

variable {S W : Type}

/-- Calls that leave someone among the audience. -/
def Call.Brings (l : Listener S) : Call S → Prop
  | register m => m = some l
  | replaceBy m => l = .log ∨ m = some l
  | dispose _ | publish _ => False

/-- Calls that send someone away, when these registrations were made before. -/
def Call.Dismisses (registered : List (Option (Listener S))) (l : Listener S) : Call S → Prop
  | dispose number => registered[number]? = some (some l)
  | replaceBy _ => True
  | register _ | publish _ => False

def registrations (calls : List (Call S)) : List (Option (Listener S)) :=
  calls.filterMap fun
    | .register l => some l
    | _ => none

/-- No call, made after some others, sends someone away. -/
def Spares (l : Listener S) (made calls : List (Call S)) : Prop :=
  ∀ before c, before ++ [c] <+: calls → ¬c.Dismisses (registrations (made ++ before)) l

/-- A call has brought someone in, and none after it has sent that one away. -/
structure Brought (calls : List (Call S)) (l : Listener S) (before : List (Call S)) (c : Call S)
    (later : List (Call S)) : Prop where
  split : calls = before ++ c :: later
  brings : c.Brings l
  spared : Spares l (before ++ [c]) later

def Stays (calls : List (Call S)) (l : Listener S) : Prop :=
  ∃ before c later, Brought calls l before c later

variable {l : Listener S} {calls made before later : List (Call S)} {c d : Call S}

theorem registrations_append (calls more : List (Call S)) :
    registrations (calls ++ more) = registrations calls ++ registrations more :=
  List.filterMap_append

theorem spares_nil (l : Listener S) (made : List (Call S)) : Spares l made [] := by
  intro before c h
  simpa using List.prefix_nil.mp h

theorem spares_concat : Spares l made (calls ++ [c]) ↔
    Spares l made calls ∧ ¬c.Dismisses (registrations (made ++ calls)) l := by
  constructor
  · intro h
    exact ⟨fun before d hd => h before d (hd.trans (List.prefix_append calls [c])),
      h calls c List.prefix_rfl⟩
  · rintro ⟨hs, hc⟩ before d hd
    obtain he | hp := List.prefix_concat_iff.mp hd
    · obtain ⟨rfl, rfl⟩ := List.append_singleton_inj.mp he
      exact hc
    · exact hs before d hp

theorem brought_concat : Brought (calls ++ [c]) l before d later ↔
    (before = calls ∧ d = c ∧ later = [] ∧ c.Brings l) ∨
      ∃ since, later = since ++ [c] ∧ Brought calls l before d since ∧
        ¬c.Dismisses (registrations calls) l := by
  constructor
  · rintro ⟨hsplit, hbrings, hspared⟩
    obtain rfl | ⟨since, e, rfl⟩ := later.eq_nil_or_concat
    · obtain ⟨rfl, rfl⟩ := List.append_singleton_inj.mp hsplit
      exact .inl ⟨rfl, rfl, rfl, hbrings⟩
    · rw [List.concat_eq_append] at hsplit hspared
      obtain ⟨rfl, rfl⟩ := List.append_singleton_inj.mp
        (hsplit.trans (List.append_assoc before (d :: since) [e]).symm)
      obtain ⟨hs, he⟩ := spares_concat.mp hspared
      rw [List.append_assoc] at he
      exact .inr ⟨since, List.concat_eq_append, ⟨rfl, hbrings, hs⟩, he⟩
  · rintro (⟨rfl, rfl, rfl, h⟩ | ⟨since, rfl, ⟨rfl, hbrings, hs⟩, hc⟩)
    · exact ⟨rfl, h, spares_nil _ _⟩
    · refine ⟨List.append_assoc before (d :: since) [c], hbrings, spares_concat.mpr ⟨hs, ?_⟩⟩
      rwa [List.append_assoc]

theorem not_stays_nil (l : Listener S) : ¬Stays [] l := by
  rintro ⟨before, c, later, h⟩
  cases before <;> cases h.split

theorem stays_concat : Stays (calls ++ [c]) l ↔
    c.Brings l ∨ (Stays calls l ∧ ¬c.Dismisses (registrations calls) l) := by
  constructor
  · rintro ⟨before, d, later, h⟩
    obtain ⟨-, -, -, hb⟩ | ⟨since, -, hd, hc⟩ := brought_concat.mp h
    · exact .inl hb
    · exact .inr ⟨⟨before, d, since, hd⟩, hc⟩
  · rintro (hb | ⟨⟨before, d, since, hd⟩, hc⟩)
    · exact ⟨calls, c, [], brought_concat.mpr (.inl ⟨rfl, rfl, rfl, hb⟩)⟩
    · exact ⟨before, d, since ++ [c], brought_concat.mpr (.inr ⟨since, rfl, hd, hc⟩)⟩

variable [DecidableEq S] {hear : Listener S → Event → W → Except W W} {h : Hall S W}

theorem run_concat (hear : Listener S → Event → W → Except W W) (h : Hall S W)
    (calls : List (Call S)) (c : Call S) :
    h.run hear (calls ++ [c]) = (h.run hear calls).perform hear c :=
  List.foldl_append

theorem perform_registered (hear : Listener S → Event → W → Except W W) (h : Hall S W)
    (c : Call S) : (h.perform hear c).registered = h.registered ++ registrations [c] := by
  cases c with
  | register l => rfl
  | dispose number =>
    unfold perform
    dsimp only
    split <;> exact (List.append_nil _).symm
  | replaceBy l => exact (List.append_nil _).symm
  | publish e => exact (List.append_nil _).symm

theorem mem_perform (l : Listener S) (c : Call S) :
    l ∈ (h.perform hear c).audience.listeners ↔
      c.Brings l ∨ (l ∈ h.audience.listeners ∧ ¬c.Dismisses h.registered l) := by
  cases c with
  | register m =>
    cases m with
    | none => simp [perform, Audience.register, Call.Brings, Call.Dismisses]
    | some m =>
      simp only [perform, Audience.register, Call.Brings, Call.Dismisses]
      grind
  | dispose number =>
    simp only [perform, Call.Brings, Call.Dismisses, false_or]
    cases hr : h.registered[number]? with
    | none => simp
    | some m =>
      cases m with
      | none => simp [Audience.dispose]
      | some m =>
        simp only [Audience.dispose]
        grind
  | replaceBy m =>
    cases m with
    | none => simp [perform, Audience.replaceBy, Audience.register, Call.Brings, Call.Dismisses]
    | some m =>
      simp only [perform, Audience.replaceBy, Audience.register, Call.Brings, Call.Dismisses]
      grind
  | publish e => simp [perform, Call.Brings, Call.Dismisses]

theorem registered_run (h : Hall S W) (calls : List (Call S)) :
    (h.run hear calls).registered = h.registered ++ registrations calls := by
  induction calls using List.reverseRecOn with
  | nil => exact (List.append_nil _).symm
  | append_singleton calls c ih =>
    rw [run_concat, perform_registered, ih, registrations_append, List.append_assoc]

/-- Where those who are there are the ones who stay, it is so after any more calls. -/
theorem mem_run_iff (hr : h.registered = registrations made)
    (hl : l ∈ h.audience.listeners ↔ Stays made l) (calls : List (Call S)) :
    l ∈ (h.run hear calls).audience.listeners ↔ Stays (made ++ calls) l := by
  induction calls using List.reverseRecOn with
  | nil => rw [List.append_nil]; exact hl
  | append_singleton calls c ih =>
    rw [run_concat, mem_perform, registered_run, hr, ← registrations_append, ih,
      ← List.append_assoc, stays_concat]

def opened (w : W) : Hall S W := { world := w }

theorem sink_mem_iff (w : W) (calls : List (Call S)) (s : S) :
    .sink s ∈ ((opened w).run hear calls).audience.listeners ↔ Stays calls (.sink s) := by
  have hr : (opened w : Hall S W).registered = registrations [] := rfl
  refine mem_run_iff hr (iff_of_false ?_ (not_stays_nil _)) calls
  change .sink s ∉ [Listener.log]
  simp

theorem log_mem (w : W) (calls : List (Call S)) (hc : .register (some .log) ∉ calls) :
    .log ∈ ((opened w).run hear calls).audience.listeners := by
  induction calls using List.reverseRecOn with
  | nil => exact List.mem_cons_self
  | append_singleton calls c ih =>
    rw [List.mem_append, not_or, List.mem_singleton] at hc
    have hr : ((opened w).run hear calls).registered = registrations calls :=
      registered_run _ calls
    rw [run_concat, mem_perform, hr]
    cases c with
    | register m => exact .inr ⟨ih hc.1, id⟩
    | dispose number =>
      refine .inr ⟨ih hc.1, fun hd => hc.1 ?_⟩
      obtain ⟨c, hm, hl⟩ := List.mem_filterMap.mp (List.mem_of_getElem? hd)
      cases c with
      | register m =>
        cases hl
        exact hm
      | dispose | replaceBy | publish => cases hl
    | replaceBy m => exact .inl (.inl rfl)
    | publish e => exact .inr ⟨ih hc.1, id⟩

theorem perform_dispose_of_absent {number : Nat}
    (ha : ∀ l ∈ h.audience.listeners, h.registered[number]? ≠ some (some l)) :
    h.perform hear (.dispose number) = h := by
  unfold perform
  dsimp only
  split
  · rename_i m hm
    cases m with
    | none => rfl
    | some l =>
      have hl : h.audience.listeners.filter (· ≠ l) = h.audience.listeners := by
        refine List.filter_eq_self.mpr fun k hk => decide_eq_true fun he => ?_
        exact ha k hk (he ▸ hm)
      simp only [Audience.dispose, hl]
  · rfl

/-- A sink is there as long as no disposer of it was called, and all were not sent away, since
some call has brought it in. Disposers do nothing while the one they are for is not there. -/
theorem sinks_stay_until_disposed (hear : Listener S → Event → W → Except W W) (w : W)
    (calls : List (Call S)) :
    (∀ s, .sink s ∈ ((opened w).run hear calls).audience.listeners ↔ Stays calls (.sink s)) ∧
      (∀ number, (∀ l ∈ ((opened w).run hear calls).audience.listeners,
        (registrations calls)[number]? ≠ some (some l)) →
        (opened w).run hear (calls ++ [.dispose number]) = (opened w).run hear calls) ∧
      (.register (some .log) ∉ calls →
        .log ∈ ((opened w).run hear calls).audience.listeners) := by
  refine ⟨sink_mem_iff w calls, fun number ha => ?_, log_mem w calls⟩
  have hr : ((opened w).run hear calls).registered = registrations calls :=
    registered_run _ calls
  rw [run_concat]
  exact perform_dispose_of_absent fun l hl => hr ▸ ha l hl

def deaf : Listener Bool → Event → Unit → Except Unit Unit := fun _ _ w => .ok w

def comings : List (Call Bool) :=
  [.register (some (.sink true)), .register (some (.sink false)),
    .register (some (.sink true)), .dispose 0]

theorem sinks_stay_until_disposed_comings :
    ((opened ()).run deaf comings).audience.listeners = [.log, .sink false] ∧
      Stays comings (.sink false) ∧ ¬Stays comings (.sink true) ∧
      (opened ()).run deaf (comings ++ [.dispose 0]) = (opened ()).run deaf comings ∧
      .log ∈ ((opened ()).run deaf comings).audience.listeners := by
  obtain ⟨hs, hd, hl⟩ := sinks_stay_until_disposed deaf () comings
  exact ⟨rfl, (hs false).mp (by decide), fun h => absurd ((hs true).mpr h) (by decide),
    hd 0 (by decide), hl (by simp [comings])⟩

/-- Since all were sent away, a call has brought someone in, and if that was a registration, it
was not disposed of by its own number. -/
def Standing (calls : List (Call S)) (l : Listener S) : Prop :=
  ∃ before c later, calls = before ++ c :: later ∧ c.Brings l ∧ (∀ m, .replaceBy m ∉ later) ∧
    ∀ m, c = .register m → .dispose (registrations before).length ∉ later

/-- Disposing of one registration ends another of the same sink, made earlier or later. -/
theorem not_present_while_standing :
    (∃ calls : List (Call Bool), calls = [.register (some (.sink true)),
        .register (some (.sink true)), .dispose 0] ∧ Standing calls (.sink true) ∧
      .sink true ∉ ((opened ()).run deaf calls).audience.listeners) ∧
    ∃ calls : List (Call Bool), calls = [.register (some (.sink true)), .dispose 0,
        .register (some (.sink true)), .dispose 0] ∧ Standing calls (.sink true) ∧
      .sink true ∉ ((opened ()).run deaf calls).audience.listeners := by
  refine ⟨⟨_, rfl, ⟨[.register (some (.sink true))], .register (some (.sink true)), [.dispose 0],
    rfl, rfl, by simp, ?_⟩, by decide⟩, ⟨_, rfl, ⟨[.register (some (.sink true)), .dispose 0],
    .register (some (.sink true)), [.dispose 0], rfl, rfl, by simp, ?_⟩, by decide⟩⟩
  · intro m _
    simp [registrations]
  · intro m _
    simp [registrations]

end Duel.Hall
