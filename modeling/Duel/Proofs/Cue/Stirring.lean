import Duel.Match.Basic
import Duel.Proofs.Cue.Inner
import Duel.Proofs.Cue.Lasting

namespace Duel.Cue.Desk

variable {R : Type} {d e u : Desk R (Stage R)} {a b : Active R} {k : Nat}

def noted (d : Desk R (Stage R)) (notice : Option (Active R)) : Desk R (Stage R) :=
  { d with state.listener := Listener.note d.listener notice }

def showings (d : Desk R (Stage R)) : List (Active R) := d.listener.shown ++ d.active.toList

def Again (b a : Active R) : Prop :=
  a.id = b.id ∧ a.startedAt = b.startedAt ∧ a.inTransition = b.inTransition

/-- The timer for the end of a cue is not one for the end of a pause. -/
structure Keyed (d : Desk R (Stage R)) : Prop where
  below : ∀ t ∈ d.clock.timers, t.number < d.clock.next
  timer : ∀ n, d.queue.timer = some n → n < d.clock.next ∧
    ∀ t ∈ d.clock.timers, t.number = n → t.job ≠ .resume

variable [Scalar R]

theorem tell_eq (k : Nat) (notice : Option (Active R)) (d : Desk R (Stage R)) :
    tell k notice d = .ok () (d.noted notice) := by
  cases k <;> rfl

/-- A cue starts now; in a pause it has to be one that can. -/
structure Starts (d : Desk R (Stage R)) (a : Active R) : Prop where
  id : d.queue.lastId < a.id
  now : Scalar.measure? d.clock.now = some a.startedAt
  free : a.inTransition = true ∨ d.listener.paused = false

/-- What is done at a desk without moving the clock, and without calling off any timer. -/
structure Stirs (d u : Desk R (Stage R)) : Prop where
  now : u.clock.now = d.clock.now
  cancelled : u.clock.cancelled = d.clock.cancelled
  timers : ∀ t ∈ u.clock.timers, t ∈ d.clock.timers ∨ t.job ≠ .resume ∧
    ∃ ms, Scalar.add d.clock.now (Scalar.positivePart ms) = .ok t.due
  keyed : d.Keyed → u.Keyed
  paused : u.listener.paused = d.listener.paused
  starting : u.queue.starting = d.queue.starting
  room : u.queue.room = d.queue.room
  lastId : d.queue.lastId ≤ u.queue.lastId
  grows : ∀ a ∈ d.listener.shown, a ∈ u.listener.shown
  shows : ∀ a ∈ u.showings, (∃ b ∈ d.showings, Again b a) ∨ d.Starts a ∧ a.id ≤ u.queue.lastId

abbrev Stirring {α : Type} (x : Work R (Stage R) α) (d : Desk R (Stage R)) : Prop :=
  Comes x d (fun _ => d.Stirs) d.Stirs

namespace Stirs

theorem refl (d : Desk R (Stage R)) : d.Stirs d :=
  ⟨rfl, rfl, fun _ h => .inl h, id, rfl, rfl, rfl, Nat.le_refl _, fun _ h => h,
    fun a h => .inl ⟨a, h, rfl, rfl, rfl⟩⟩

theorem trans (h : d.Stirs e) (h' : e.Stirs u) : d.Stirs u where
  now := h'.now.trans h.now
  cancelled := h'.cancelled.trans h.cancelled
  timers t ht := by
    obtain ht | ht := h'.timers t ht
    · exact h.timers t ht
    · exact .inr (h.now ▸ ht)
  keyed hk := h'.keyed (h.keyed hk)
  paused := h'.paused.trans h.paused
  starting := h'.starting.trans h.starting
  room := h'.room.trans h.room
  lastId := Nat.le_trans h.lastId h'.lastId
  grows a ha := h'.grows a (h.grows a ha)
  shows a ha := by
    obtain ⟨b, hb, hab⟩ | ⟨hs, hid⟩ := h'.shows a ha
    · obtain ⟨c, hc, hbc⟩ | ⟨hs, hid⟩ := h.shows b hb
      · exact .inl ⟨c, hc, hab.1.trans hbc.1, hab.2.1.trans hbc.2.1, hab.2.2.trans hbc.2.2⟩
      · refine .inr ⟨⟨hab.1 ▸ hs.id, hab.2.1 ▸ hs.now, ?_⟩, hab.1 ▸ Nat.le_trans hid h'.lastId⟩
        exact hab.2.2 ▸ hs.free
    · exact .inr ⟨⟨Nat.lt_of_le_of_lt h.lastId hs.id, h.now ▸ hs.now, h.paused ▸ hs.free⟩, hid⟩

theorem comes {α : Type} {x : Work R (Stage R) α} (h : d.Stirs e) (hx : Stirring x e) :
    Comes x e (fun _ => d.Stirs) d.Stirs :=
  hx.mono (fun _ _ hu => h.trans hu) fun _ hu => h.trans hu

end Stirs

theorem stirs_withQueue {q : Queue R} (ha : q.active = d.queue.active)
    (hp : q.starting = d.queue.starting) (hr : q.room = d.queue.room)
    (hi : d.queue.lastId ≤ q.lastId) (ht : ∀ n, q.timer = some n → d.queue.timer = some n) :
    d.Stirs { d with state.queue := q } := by
  refine ⟨rfl, rfl, fun _ h => .inl h, fun h => ⟨h.below, fun n hn => h.timer n (ht n hn)⟩, rfl,
    hp, hr, hi, fun _ h => h, fun a h => ?_⟩
  rw [showings, active, queue, ha] at h
  exact .inl ⟨a, h, rfl, rfl, rfl⟩

theorem stirs_awaiting {ms due : R}
    (hd : Scalar.add d.clock.now (Scalar.positivePart ms) = .ok due) (id : Nat) :
    d.Stirs ⟨d.clock.withTimer due (.finish id),
      { d.state with queue := { d.queue with timer := some d.clock.next } }⟩ := by
  refine ⟨rfl, rfl, fun t ht => ?_, fun h => ⟨fun t ht => ?_, ?_⟩, rfl, rfl, rfl, Nat.le_refl _,
    fun _ h => h, fun b h => .inl ⟨b, h, rfl, rfl, rfl⟩⟩
  · obtain ht | ht := List.mem_append.mp ht
    · exact .inl ht
    · obtain rfl := List.mem_singleton.mp ht
      exact .inr ⟨Job.noConfusion, ms, hd⟩
  · obtain ht | ht := List.mem_append.mp ht
    · exact Nat.lt_succ_of_lt (h.below t ht)
    · obtain rfl := List.mem_singleton.mp ht
      exact Nat.lt_succ_self _
  · rintro n ⟨⟩
    refine ⟨Nat.lt_succ_self _, fun t ht hn => ?_⟩
    obtain ht | ht := List.mem_append.mp ht
    · exact absurd hn (Nat.ne_of_lt (h.below t ht))
    · obtain rfl := List.mem_singleton.mp ht
      exact Job.noConfusion

theorem await_stirring (length : R) (a : Active R) : Stirring (await length a) d := by
  refine Comes.bind (Q := fun n (u : Desk R (Stage R)) =>
    d.Stirs { u with state.queue := { u.queue with timer := some n } }) ?_ fun n u hu => ?_
  · exact Timed.schedule_comes _ _ (fun _ hd => stirs_awaiting hd a.id) (.refl d)
  · exact hu

theorem stirs_retired (d : Desk R (Stage R)) : d.Stirs ((d.withActive none).noted none) := by
  refine ⟨rfl, rfl, fun _ h => .inl h, fun h => ⟨h.below, h.timer⟩, rfl, rfl, rfl, Nat.le_refl _,
    fun a h => List.mem_append_left _ h, fun a h => .inl ⟨a, ?_, rfl, rfl, rfl⟩⟩
  have h : a ∈ (d.listener.shown ++ []) ++ [] := h
  rw [List.append_nil, List.append_nil] at h
  exact List.mem_append_left _ h

theorem stirs_again (ha : d.active = some a) (n : Nat) (t : R) :
    d.Stirs ((d.withActive (some { a with repeats := n, mergedAt := t })).noted
      (some { a with repeats := n, mergedAt := t })) := by
  refine ⟨rfl, rfl, fun _ h => .inl h, fun h => ⟨h.below, h.timer⟩, rfl, rfl, rfl, Nat.le_refl _,
    fun a h => List.mem_append_left _ h, fun b hb => ?_⟩
  have hmem : a ∈ d.showings := List.mem_append_right _ (by simp [ha])
  have hb : b ∈ (d.listener.shown ++ [{ a with repeats := n, mergedAt := t }]) ++
    [{ a with repeats := n, mergedAt := t }] := hb
  simp only [List.mem_append, List.mem_singleton] at hb
  obtain (hb | rfl) | rfl := hb
  · exact .inl ⟨b, List.mem_append_left _ hb, rfl, rfl, rfl⟩
  · exact .inl ⟨a, hmem, rfl, rfl, rfl⟩
  · exact .inl ⟨a, hmem, rfl, rfl, rfl⟩

def started (d : Desk R (Stage R)) (a : Active R) : Desk R (Stage R) :=
  { d with state.queue := { d.queue with lastId := d.queue.lastId + 1, active := some a } }

theorem stirs_started {c : Queued R} (hc : c.inTransition = true ∨ d.listener.paused = false)
    {q : Queue R} (hq : q.lastId = d.queue.lastId + 1) {ends : R}
    (ha : q.activate c d.clock.now ends = .ok a) : d.Stirs ((d.started a).noted (some a)) := by
  refine ⟨rfl, rfl, fun _ h => .inl h, fun h => ⟨h.below, h.timer⟩, rfl, rfl, rfl, Nat.le_succ _,
    fun a h => List.mem_append_left _ h, fun b hb => ?_⟩
  obtain ⟨hid, hnow⟩ := Queue.activate_starts ha
  have hid : a.id = d.queue.lastId + 1 := hid.trans hq
  have hfree : a.inTransition = c.inTransition :=
    congrArg Cue.inTransition (Queue.activate_cue ha)
  have hnew : d.Starts a := ⟨hid ▸ Nat.lt_succ_self _, hnow, hfree ▸ hc⟩
  have hb : b ∈ (d.listener.shown ++ [a]) ++ [a] := hb
  simp only [List.mem_append, List.mem_singleton] at hb
  obtain (hb | rfl) | rfl := hb
  · exact .inl ⟨b, List.mem_append_left _ hb, rfl, rfl, rfl⟩
  · exact .inr ⟨hnew, Nat.le_of_eq hid⟩
  · exact .inr ⟨hnew, Nat.le_of_eq hid⟩

theorem retire_stirring (d : Desk R (Stage R)) : Stirring (retire (tell k)) d :=
  Comes.modify (Ends.comes ⟨_, _, tell_eq k none _, stirs_retired d⟩)

def follow (k : Nat) (length : R) (a : Active R) : Work R (Stage R) Unit := do
  if !(← desk).queue.shows a then return ()
  if Scalar.atMost length Scalar.zero && Scalar.atMost Scalar.zero length then retire (tell k)
  else await length a

theorem follow_stirring (length : R) (a : Active R) : Stirring (follow k length a) d := by
  refine Comes.get ?_
  split
  · exact Comes.pure (.refl d)
  · split
    · exact retire_stirring d
    · exact await_stirring length a

theorem present_stirring {c : Queued R}
    (hc : c.inTransition = true ∨ d.listener.paused = false) : Stirring (present (tell k) c) d := by
  have hlost : d.Stirs { d with state.queue := { d.queue with lastId := d.queue.lastId + 1 } } :=
    stirs_withQueue rfl rfl rfl (Nat.le_succ _) fun _ h => h
  refine Comes.get (Comes.modify (Comes.get (Timed.reckon_comes (fun ends _ => ?_) hlost)))
  refine valid_comes (fun a ha => Comes.modify (Comes.after (tell_eq k _ _) ?_)) hlost
  exact (stirs_started hc rfl ha).comes (follow_stirring _ a)

omit [Scalar R] in
theorem free_of_takeFirst {s : Stage R} {pending rest : List (Queued R)} {c : Queued R}
    (h : Queue.takeFirst (Listener.defers s) pending = some (c, rest)) :
    c.inTransition = true ∨ s.paused = false := by
  obtain ⟨-, -, -, -, hc, -⟩ := Queue.takeFirst_parts h
  change (!c.inTransition && s.paused) = false at hc
  cases hi : c.inTransition with
  | true => exact .inl rfl
  | false => exact .inr (by simpa [hi] using hc)

theorem startLoop_stirring (fuel : Nat) (d : Desk R (Stage R)) :
    Stirring (startLoop (tell k) fuel) d := by
  induction fuel generalizing d with
  | zero => exact Comes.pure (.refl d)
  | succ fuel ih =>
    refine Comes.get ?_
    split
    · exact Comes.pure (.refl d)
    · split
      · exact Comes.pure (.refl d)
      next c pending hf =>
        have hline : d.Stirs { d with state.queue := { d.queue with pending } } :=
          stirs_withQueue rfl rfl rfl (Nat.le_refl _) fun _ h => h
        refine Comes.modify ((hline.comes (present_stirring (free_of_takeFirst hf))).bind ?_)
        exact fun _ t ht => ht.comes (ih t)

theorem startNext_stirring (d : Desk R (Stage R)) : Stirring (startNext (tell k)) d := by
  refine Comes.get ?_
  split
  · exact Comes.pure (.refl d)
  next hs =>
    -- The phase is entered before the loop and left after it.
    have hleft {u : Desk R (Stage R)} (h : Stirs (d.withStarting true) u) :
        d.Stirs (u.withStarting false) := by
      refine ⟨h.now, h.cancelled, h.timers, fun hk => ?_, h.paused, (Bool.eq_false_iff.mpr hs).symm,
        h.room, h.lastId, h.grows, fun a ha => (h.shows a ha).imp_right fun ⟨hn, hi⟩ => ⟨?_, hi⟩⟩
      · have hu := h.keyed ⟨hk.below, hk.timer⟩
        exact ⟨hu.below, hu.timer⟩
      · exact ⟨hn.id, hn.now, hn.free⟩
    refine Comes.modify (lastly_comes ?_)
    exact (startLoop_stirring _ (d.withStarting true)).mono (fun _ _ => hleft) fun _ => hleft

theorem finish_stirring (d : Desk R (Stage R)) (id : Nat) : Stirring (finish (tell k) id) d := by
  refine Comes.get ?_
  split
  · have htimer : d.Stirs { d with state.queue := { d.queue with timer := none } } :=
      stirs_withQueue rfl rfl rfl (Nat.le_refl _) fun n h => by cases h
    refine Comes.modify ((htimer.comes (retire_stirring _)).bind fun _ t ht => ?_)
    exact ht.comes (startNext_stirring t)
  · exact Comes.pure (.refl d)

theorem enqueue_stirring (d : Desk R (Stage R)) (c : Cue R) :
    Stirring (enqueue (tell k) c) d := by
  have hline {q : Queue R} (ha : q.active = d.queue.active)
      (hp : q.starting = d.queue.starting) (hr : q.room = d.queue.room)
      (hi : d.queue.lastId = q.lastId) (ht : q.timer = d.queue.timer) :
      d.Stirs { d with state.queue := q } :=
    stirs_withQueue ha hp hr (Nat.le_of_eq hi) fun _ h => ht ▸ h
  refine Comes.get (Timed.reckon_comes (fun merged hm => ?_) (.refl d))
  cases merged with
  | some b =>
    obtain ⟨a, ha, rfl, -⟩ := Queue.mergeActive_parts hm
    exact Comes.modify (Ends.comes ⟨_, _, tell_eq k _ _, stirs_again ha _ _⟩)
  | none =>
    refine Timed.reckon_comes (fun merged _ => ?_) (.refl d)
    cases merged with
    | some pending => exact hline rfl rfl rfl rfl rfl
    | none =>
      dsimp only
      split
      · exact Comes.pure (.refl d)
      next q hr =>
        obtain ⟨pending, rfl⟩ := Queue.receive_eq hr
        refine Comes.modify (valid_comes (fun w _ => Comes.modify ?_) (hline rfl rfl rfl rfl rfl))
        refine Stirs.comes ?_ (startNext_stirring _)
        exact hline rfl rfl rfl rfl rfl

def CallsOff (d e : Desk R (Stage R)) : Prop :=
  e = d ∨ ∃ n, d.queue.timer = some n ∧ e = d.callOff n

omit [Scalar R] in
theorem cancelTimer_callsOff (d : Desk R (Stage R)) :
    Ends cancelTimer d fun _ => d.CallsOff := by
  cases h : d.queue.timer with
  | none => exact ⟨_, _, cancelTimer_of_none h, .inl rfl⟩
  | some n => exact ⟨_, _, cancelTimer_of_some h, .inr ⟨n, h, rfl⟩⟩

def Quits (d u : Desk R (Stage R)) : Prop := ∃ e, d.CallsOff e ∧ e.Stirs u

theorem interrupt_quits (d : Desk R (Stage R)) :
    Comes (interrupt (tell k)) d (fun _ => d.Quits) d.Quits := by
  refine Comes.get ?_
  split
  · exact Comes.pure ⟨d, .inl rfl, .refl d⟩
  · refine (cancelTimer_callsOff d).comes.bind fun _ e he => ?_
    refine Comes.mono ((retire_stirring e).bind fun _ t ht => ht.comes (startNext_stirring t)) ?_ ?_
    · exact fun _ _ hu => ⟨e, he, hu⟩
    · exact fun _ hu => ⟨e, he, hu⟩

theorem clear_quits (d : Desk R (Stage R)) :
    Comes (clear (tell k)) d (fun _ => d.Quits) d.Quits := by
  refine (cancelTimer_callsOff d).comes.bind fun _ (e : Desk R (Stage R)) he =>
    Comes.modify (Comes.get ?_)
  have hline : e.Stirs { e with state.queue := { e.queue with pending := [] } } :=
    stirs_withQueue rfl rfl rfl (Nat.le_refl _) fun _ h => h
  split
  · exact (retire_stirring _).mono (fun _ _ hu => ⟨e, he, hline.trans hu⟩)
      fun _ hu => ⟨e, he, hline.trans hu⟩
  · exact Comes.pure ⟨e, he, hline⟩

def facing (d : Desk R (Stage R)) : Job → Desk R (Stage R)
  | .finish _ => d
  | .resume => { d with state.listener := Listener.resume d.listener }

theorem fire_stirs (d : Desk R (Stage R)) (job : Job) :
    Comes (fire (tell k) job) d (fun _ => (d.facing job).Stirs) (d.facing job).Stirs := by
  cases job with
  | finish id => exact finish_stirring d id
  | resume => exact Comes.get (Comes.modify (startNext_stirring (d.facing .resume)))

/-- What is asked for from outside stirs, after a timer has been called off at most, or else it
moves the clock. -/
theorem run_keeps {P : Desk R (Stage R) → Prop} (hs : ∀ {d u}, P d → d.Stirs u → P u)
    (hc : ∀ {d e}, P d → d.CallsOff e → P e)
    (ha : ∀ k fuel ms {d}, P d → Comes (Timed.advance (fire (tell k)) fuel ms) d (fun _ => P) P)
    (hr : ∀ k fuel limit {d}, P d →
      Comes (Timed.runAll (fire (tell k)) fuel limit) d (fun _ => P) P)
    (hd : P d) (r : Request R) : Comes (run r) d (fun _ => P) P := by
  have hoff {u : Desk R (Stage R)} : d.Quits u → P u := by
    rintro ⟨e, he, hu⟩
    exact hs (hc hd he) hu
  refine Comes.get ?_
  cases r with
  | enqueue c => exact (enqueue_stirring d c).mono (fun _ _ => hs hd) fun _ => hs hd
  | interrupt => exact (interrupt_quits d).mono (fun _ _ => hoff) fun _ => hoff
  | clear => exact (clear_quits d).mono (fun _ _ => hoff) fun _ => hoff
  | poke => exact (startNext_stirring d).mono (fun _ _ => hs hd) fun _ => hs hd
  | advance ms => exact Comes.get (ha _ _ ms hd)
  | runAll limit => exact Comes.get (hr _ _ limit hd)
  | nothing => exact Comes.pure hd
  | refuse cause => exact hd

end Duel.Cue.Desk
