import Duel.Proofs.Audience.Membership

namespace Duel

variable {S W : Type}

/-- Hears as before, and enters who was told of what, before anything can fail. -/
def noting (hear : Listener S → Event → W → Except W W) (l : Listener S) (e : Event)
    (w : List (Listener S × Event) × W) :
    Except (List (Listener S × Event) × W) (List (Listener S × Event) × W) :=
  match hear l e w.2 with
  | .ok v => .ok (w.1 ++ [(l, e)], v)
  | .error v => .error (w.1 ++ [(l, e)], v)

theorem outcome_noting (hear : Listener S → Event → W → Except W W) (l : Listener S) (e : Event)
    (told : List (Listener S × Event)) (w : W) :
    Audience.outcome (noting hear l e (told, w)) =
      (told ++ [(l, e)], Audience.outcome (hear l e w)) := by
  unfold noting
  cases hear l e w <;> rfl

theorem publish_noting (a : Audience S) (hear : Listener S → Event → W → Except W W) (e : Event)
    (told : List (Listener S × Event)) (w : W) :
    a.publish (noting hear) e (told, w) =
      (told ++ a.listeners.map (·, e), a.publish hear e w) := by
  obtain ⟨ls⟩ := a
  unfold Audience.publish
  dsimp only
  induction ls generalizing told w with
  | nil => rw [List.map_nil, List.append_nil]; rfl
  | cons l ls ih =>
    have hassoc : told ++ (l :: ls).map (·, e) = (told ++ [(l, e)]) ++ ls.map (·, e) :=
      List.append_cons told (l, e) (ls.map (·, e))
    rw [hassoc, List.foldl_cons, List.foldl_cons, outcome_noting, ih]

namespace Hall

variable {l m : Listener S} {calls made : List (Call S)} {c : Call S}
  {n k : Nat}

/-- The call of a number has brought in someone who is there ever since and was not there before,
or had just been sent away with all the others. -/
def Arrives (calls : List (Call S)) (l : Listener S) (n : Nat) : Prop :=
  ∃ before c later, Brought calls l before c later ∧ before.length = n ∧
    (Stays before l → ∃ m, c = .replaceBy m)

theorem Arrives.lt_length (h : Arrives calls l n) : n < calls.length := by
  obtain ⟨before, c, later, h, rfl, -⟩ := h
  rw [h.split, List.length_append, List.length_cons]
  omega

theorem arrives_concat : Arrives (calls ++ [c]) l n ↔
    (n = calls.length ∧ c.Brings l ∧ (Stays calls l → ∃ m, c = .replaceBy m)) ∨
      (Arrives calls l n ∧ ¬c.Dismisses (registrations calls) l) := by
  constructor
  · rintro ⟨before, d, later, h, rfl, hnew⟩
    obtain ⟨rfl, rfl, rfl, hb⟩ | ⟨since, -, hd, hc⟩ := brought_concat.mp h
    · exact .inl ⟨rfl, hb, hnew⟩
    · exact .inr ⟨⟨before, d, since, hd, rfl, hnew⟩, hc⟩
  · rintro (⟨rfl, hb, hnew⟩ | ⟨⟨before, d, since, hd, rfl, hnew⟩, hc⟩)
    · exact ⟨calls, c, [], brought_concat.mpr (.inl ⟨rfl, rfl, rfl, hb⟩), rfl, hnew⟩
    · exact ⟨before, d, since ++ [c], brought_concat.mpr (.inr ⟨since, rfl, hd, hc⟩), rfl, hnew⟩

theorem Arrives.stays (h : Arrives calls l n) : Stays calls l := by
  obtain ⟨before, c, later, h, -⟩ := h
  exact ⟨before, c, later, h⟩

/-- Whoever is there came in at some time: no call brings in those who are there already, unless
it sends all away first. -/
theorem Stays.arrives (h : Stays calls l) : ∃ n, Arrives calls l n := by
  induction calls using List.reverseRecOn with
  | nil => exact absurd h (not_stays_nil l)
  | append_singleton calls c ih =>
    by_cases hnew : c.Brings l ∧ (Stays calls l → ∃ m, c = .replaceBy m)
    · exact ⟨calls.length, arrives_concat.mpr (.inl ⟨rfl, hnew⟩)⟩
    · have hkept : Stays calls l ∧ ¬c.Dismisses (registrations calls) l := by
        rcases stays_concat.mp h with hb | hkept
        · have hs : Stays calls l := by
            by_contra hs
            exact hnew ⟨hb, fun h => absurd h hs⟩
          refine ⟨hs, fun hd => ?_⟩
          cases c with
          | replaceBy m => exact hnew ⟨hb, fun _ => ⟨m, rfl⟩⟩
          | register => exact hd
          | dispose => exact hb
          | publish => exact hb
        · exact hkept
      obtain ⟨n, hn⟩ := ih hkept.1
      exact ⟨n, arrives_concat.mpr (.inr ⟨hn, hkept.2⟩)⟩

/-- One has come before another; the log comes before one that is put in place of the others. -/
def Precedes (calls : List (Call S)) (l m : Listener S) : Prop :=
  ∀ n k, Arrives calls l n → Arrives calls m k → n < k ∨ (n = k ∧ l = .log)

theorem Precedes.concat (h : Precedes calls l m)
    (hl : ∀ n, Arrives (calls ++ [c]) l n → Arrives calls l n)
    (hm : ∀ k, Arrives (calls ++ [c]) m k → Arrives calls m k) : Precedes (calls ++ [c]) l m :=
  fun n k hn hk => h n k (hl n hn) (hm k hk)

theorem Arrives.earlier (hc : ∀ m, c ≠ .replaceBy m) (hl : c.Brings l → Stays calls l)
    (h : Arrives (calls ++ [c]) l n) : Arrives calls l n := by
  rcases arrives_concat.mp h with ⟨-, hb, hnew⟩ | ⟨h, -⟩
  · obtain ⟨m, hm⟩ := hnew (hl hb)
    exact absurd hm (hc m)
  · exact h

variable [DecidableEq S] {hear : Listener S → Event → W → Except W W} {h : Hall S W}

/-- Those who are there stand in the order in which they have come. -/
structure InOrder (made : List (Call S)) (h : Hall S W) : Prop where
  registered : h.registered = registrations made
  present : ∀ l, l ∈ h.audience.listeners ↔ Stays made l
  distinct : h.audience.listeners.Nodup
  ordered : h.audience.listeners.Pairwise (Precedes made)

theorem InOrder.thin (hs : InOrder calls h) (hc : ∀ m, c ≠ .replaceBy m)
    (hb : ∀ l, c.Brings l → Stays calls l)
    (hl : (h.perform hear c).audience.listeners.Sublist h.audience.listeners) :
    (h.perform hear c).audience.listeners.Nodup ∧
      (h.perform hear c).audience.listeners.Pairwise (Precedes (calls ++ [c])) := by
  refine ⟨hs.distinct.sublist hl, (hs.ordered.sublist hl).imp fun {l m} hp => ?_⟩
  exact hp.concat (fun _ => .earlier hc (hb l)) fun _ => .earlier hc (hb m)

theorem InOrder.perform (hs : InOrder calls h) (c : Call S) :
    InOrder (calls ++ [c]) (h.perform hear c) := by
  have hr : (h.perform hear c).registered = registrations (calls ++ [c]) := by
    rw [perform_registered, hs.registered, registrations_append]
  have hp (l : Listener S) :
      l ∈ (h.perform hear c).audience.listeners ↔ Stays (calls ++ [c]) l := by
    rw [mem_perform, hs.present, hs.registered, stays_concat]
  suffices ho : (h.perform hear c).audience.listeners.Nodup ∧
      (h.perform hear c).audience.listeners.Pairwise (Precedes (calls ++ [c])) from
    ⟨hr, hp, ho.1, ho.2⟩
  cases c with
  | register m =>
    cases m with
    | none => exact hs.thin (by simp) (fun l hb => by cases hb) (List.Sublist.refl _)
    | some l =>
      by_cases hl : l ∈ h.audience.listeners
      · refine hs.thin (by simp) (fun m hb => ?_) ?_
        · obtain rfl := Option.some.inj hb
          exact (hs.present l).mp hl
        · simp only [Hall.perform, Audience.register, hl, if_true]
          exact List.Sublist.refl _
      · have he : (h.perform hear (.register (some l))).audience.listeners =
            h.audience.listeners ++ [l] := by
          simp only [Hall.perform, Audience.register, hl, if_false]
        have hold {m : Listener S} (hm : m ∈ h.audience.listeners) (n : Nat) :
            Arrives (calls ++ [.register (some l)]) m n → Arrives calls m n :=
          .earlier (by simp) fun _ => (hs.present m).mp hm
        rw [he]
        refine ⟨List.nodup_append.mpr ⟨hs.distinct, by simp, ?_⟩,
          List.pairwise_append.mpr ⟨?_, by simp, ?_⟩⟩
        · intro m hm k hk hmk
          obtain rfl := List.mem_singleton.mp hk
          exact hl (hmk ▸ hm)
        · refine hs.ordered.imp_of_mem fun {m k} hm hk hmk => ?_
          exact hmk.concat (hold hm) (hold hk)
        · intro m hm k hk n i hn hi
          obtain rfl := List.mem_singleton.mp hk
          rcases arrives_concat.mp hi with ⟨rfl, -⟩ | ⟨hi, -⟩
          · exact .inl (hold hm n hn).lt_length
          · exact absurd ((hs.present k).mpr hi.stays) hl
  | dispose number =>
    refine hs.thin (by simp) (fun l hb => hb.elim) ?_
    unfold Hall.perform
    dsimp only
    split
    · rename_i m hm
      cases m with
      | none => exact List.Sublist.refl _
      | some l => exact List.filter_sublist
    · exact List.Sublist.refl _
  | replaceBy m =>
    -- All have come with this very call, the log before the other one.
    have hnow {l : Listener S} {n : Nat} (hn : Arrives (calls ++ [.replaceBy m]) l n) :
        n = calls.length := by
      rcases arrives_concat.mp hn with ⟨hn, -⟩ | ⟨-, hd⟩
      · exact hn
      · exact absurd trivial hd
    cases m with
    | none => exact ⟨List.pairwise_singleton _ _, List.pairwise_singleton _ _⟩
    | some l =>
      by_cases hl : l = .log
      · have he : (h.perform hear (.replaceBy (some l))).audience.listeners = [.log] := by
          simp [Hall.perform, Audience.replaceBy, Audience.register, hl]
        rw [he]
        exact ⟨List.pairwise_singleton _ _, List.pairwise_singleton _ _⟩
      · have he : (h.perform hear (.replaceBy (some l))).audience.listeners = [.log, l] := by
          simp [Hall.perform, Audience.replaceBy, Audience.register, hl]
        rw [he]
        refine ⟨by simpa using Ne.symm hl, List.pairwise_pair.mpr fun n k hn hk => ?_⟩
        exact .inr ⟨(hnow hn).trans (hnow hk).symm, rfl⟩
  | publish e => exact hs.thin (by simp) (fun l hb => hb.elim) (List.Sublist.refl _)

theorem InOrder.run (hs : InOrder made h) (calls : List (Call S)) :
    InOrder (made ++ calls) (h.run hear calls) := by
  induction calls using List.reverseRecOn with
  | nil => rw [List.append_nil]; exact hs
  | append_singleton calls c ih =>
    rw [run_concat, ← List.append_assoc]
    exact ih.perform c

omit [DecidableEq S] in
theorem inOrder_opened (w : W) : InOrder [.replaceBy none] (opened w : Hall S W) := by
  refine ⟨rfl, fun l => ?_, List.pairwise_singleton _ _, List.pairwise_singleton _ _⟩
  have hs : Stays [.replaceBy none] l ↔ l = .log := by
    rw [← List.nil_append [Call.replaceBy none], stays_concat]
    simp [Call.Brings, Call.Dismisses]
  rw [hs]
  exact List.mem_singleton

def noted (hear : Listener S → Event → W → Except W W) (w : W) (calls : List (Call S)) :
    Hall S (List (Listener S × Event) × W) :=
  (opened ([], w)).run (noting hear) calls

def told (h : Hall S (List (Listener S × Event) × W)) : List (Listener S × Event) := h.world.1

theorem told_publish (h : Hall S (List (Listener S × Event) × W)) (e : Event) :
    (h.perform (noting hear) (.publish e)).told =
      h.told ++ h.audience.listeners.map (·, e) := by
  obtain ⟨a, r, told, w⟩ := h
  exact congrArg Prod.fst (publish_noting a hear e told w)

/-- Two halls where the same people were told of the same, whatever they made of it. -/
structure Alike (h k : Hall S (List (Listener S × Event) × W)) : Prop where
  audience : h.audience = k.audience
  registered : h.registered = k.registered
  told : h.told = k.told

theorem Alike.perform {hear' : Listener S → Event → W → Except W W}
    {h k : Hall S (List (Listener S × Event) × W)} (ha : Alike h k) (c : Call S) :
    Alike (h.perform (noting hear) c) (k.perform (noting hear') c) := by
  cases c with
  | register l =>
    exact ⟨congrArg (·.register l) ha.audience, congrArg (· ++ [l]) ha.registered, ha.told⟩
  | dispose number =>
    unfold Hall.perform
    dsimp only
    rw [ha.registered]
    cases k.registered[number]? with
    | none => exact ha
    | some l => exact ⟨congrArg (·.dispose l) ha.audience, rfl, ha.told⟩
  | replaceBy l => exact ⟨rfl, ha.registered, ha.told⟩
  | publish e =>
    refine ⟨ha.audience, ha.registered, ?_⟩
    rw [told_publish, told_publish, ha.told, ha.audience]

theorem Alike.run {hear' : Listener S → Event → W → Except W W}
    {h k : Hall S (List (Listener S × Event) × W)} (ha : Alike h k) (calls : List (Call S)) :
    Alike (h.run (noting hear) calls) (k.run (noting hear') calls) := by
  induction calls generalizing h k with
  | nil => exact ha
  | cons c calls ih => exact ih (ha.perform c)

/-- An event comes once to each who is there, in the order in which they have come, and leaves
them there. Who fails on hearing something makes no difference to what anyone is told. -/
theorem publish_tells_in_order (hear : Listener S → Event → W → Except W W) (w : W)
    (calls : List (Call S)) (e : Event) :
    (noted hear w (calls ++ [.publish e])).audience = (noted hear w calls).audience ∧
      (noted hear w (calls ++ [.publish e])).told =
        (noted hear w calls).told ++ (noted hear w calls).audience.listeners.map (·, e) ∧
      (noted hear w calls).audience.listeners.Nodup ∧
      (∀ l, l ∈ (noted hear w calls).audience.listeners ↔
        ∃ n, Arrives (.replaceBy none :: calls) l n) ∧
      (noted hear w calls).audience.listeners.Pairwise (Precedes (.replaceBy none :: calls)) ∧
      ∀ (hear' : Listener S → Event → W → Except W W) (w' : W),
        Alike (noted hear' w' calls) (noted hear w calls) := by
  have ho : InOrder (.replaceBy none :: calls) (noted hear w calls) :=
    (inOrder_opened ([], w)).run calls
  have he : noted hear w (calls ++ [.publish e]) =
      (noted hear w calls).perform (noting hear) (.publish e) :=
    run_concat (noting hear) (opened ([], w)) calls (.publish e)
  rw [he]
  refine ⟨rfl, told_publish _ e, ho.distinct, fun l => ?_, ho.ordered, fun hear' w' => ?_⟩
  · rw [ho.present]
    exact ⟨Stays.arrives, fun ⟨n, hn⟩ => hn.stays⟩
  · have hstart : Alike (opened ([], w') : Hall S (List (Listener S × Event) × W))
        (opened ([], w)) := ⟨rfl, rfl, rfl⟩
    exact hstart.run calls

end Hall

end Duel
