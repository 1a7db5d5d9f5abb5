import Duel.Cue.Reactor
import Duel.Proofs.Cue.Diary
import Duel.Proofs.Cue.Pending

namespace Duel.Cue

open Desk Diary

variable {L : Type}

/-- How many cues are shown or wait. -/
def Desk.load {K : Type} (d : Desk Rat K) : Nat :=
  d.queue.pending.length + d.active.toList.length

/-- What has been told is all about one cue after the other, and the cue that is shown is not over
yet. -/
structure Tells (n : Nat) (time : Rat) (d : Desk Rat (Diary L)) : Prop where
  load : d.load ≤ n
  now : d.clock.now = time
  told : ∃ closed current, Told closed current d
  ahead : ∀ a, d.active = some a → time < a.endsAt

variable [Listener Rat L]

structure Timely (s : Bool) (n : Nat) (time : Rat) (d : Desk Rat (Diary L)) : Prop extends
    Tells n time d where
  steady : d.Steady False s 0 0

variable {r : Request Rat} {s : Bool} {n : Nat} {time : Rat} {d : Desk Rat (Diary L)}

namespace Tells

omit [Listener Rat L] in
theorem of_eq (h : Tells n time d) {t : Desk Rat (Diary L)} {m : Nat} {now : Rat}
    (hl : t.load ≤ m) (hn : t.clock.now = now) (ht : t.listener.told = d.listener.told)
    (hi : t.queue.lastId = d.queue.lastId) (ha : t.active = d.active)
    (he : ∀ a, d.active = some a → now < a.endsAt) : Tells m now t :=
  ⟨hl, hn, h.told.imp fun _ ⟨_, hd⟩ => ⟨_, hd.of_eq ht hi ha⟩, ha ▸ he⟩

theorem present_ends (h : Tells n time d) (hs : d.queue.starting = true)
    (hl : 0 ≤ d.queue.defaultLength) (ha : d.active = none) {c : Queued Rat}
    {pending : List (Queued Rat)}
    (hf : Queue.takeFirst (Listener.defers d.listener) d.queue.pending = some (c, pending)) :
    Ends (present (tell r) c) (d.withLine pending d.queue.lastNumber) fun _ => Tells n time := by
  obtain ⟨closed, current, ht⟩ := h.told
  obtain rfl := ht.current_none ha
  have hload : pending.length + 1 ≤ n := by
    rw [← List.length_cons, ← (Queue.takeFirst_perm hf).length_eq]
    exact Nat.le_trans (Nat.le_add_right _ _) h.load
  have hl : 0 ≤ (d.shownAs c).length := Queue.length_nonneg hl _
  have hn : (d.shownAs c).endsAt = time + (d.shownAs c).length := congrArg (· + _) h.now
  have ht := ht.shows (a := d.shownAs c) (m := moment r d)
    (t := heard r (some (d.shownAs c)) (d.showing c pending)) rfl rfl rfl rfl rfl rfl
  have hk : (heard r (some (d.shownAs c)) (d.showing c pending)).queue.shows (d.shownAs c) =
      true := by
    simp [Queue.shows, Desk.queue, heard, withListener, showing, shownAs]
  rw [Ends, present_eq c pending hs]
  refine Ends.after rfl (Ends.get ?_)
  rw [hk]
  by_cases hz : (d.shownAs c).length = 0
  · rw [hz]
    have he : (moment r d).time = (d.shownAs c).endsAt := by
      rw [hn, hz, Rat.add_zero]
      exact h.now
    exact ⟨_, _, rfl, Nat.le_of_succ_le hload, h.now,
      ⟨_, _, ht.ended (.inl he) (fun _ => rfl) rfl rfl rfl⟩, fun _ ha => by cases ha⟩
  · have hc : Scalar.atMost (d.shownAs c).length Scalar.zero = false :=
      decide_eq_false fun h => hz (Rat.le_antisymm h hl)
    rw [hc, Bool.false_and]
    refine ⟨_, _, await_eq _, hload, h.now, ⟨_, _, ht.of_eq rfl rfl rfl⟩, ?_⟩
    rintro _ ⟨⟩
    rw [hn]
    grind

theorem of_ended {closed : List Block} {b : Block} (h : Told closed (some b) d)
    (hl : d.load ≤ n + 1) (hn : d.clock.now = time)
    (he : time = b.cue.endsAt ∨ time < b.cue.endsAt ∧ (r = .interrupt ∨ r = .clear))
    (hz : 0 < b.cue.length) : Tells n time (heard r none (Desk.withActive d none)) := by
  have hload : d.queue.pending.length + 1 ≤ n + 1 := by
    rw [Desk.load, h.active] at hl
    exact hl
  have ht : Told (closed ++ [{ b with ended := some (moment r d) }]) none
      (heard r none (Desk.withActive d none)) := by
    refine h.ended ?_ (fun h0 => absurd h0 (Rat.ne_of_gt hz)) rfl rfl rfl
    rw [← hn] at he
    exact he
  exact ⟨Nat.le_of_succ_le_succ hload, hn, ⟨_, _, ht⟩, fun _ ha => by cases ha⟩

end Tells

namespace Timely

theorem withPhase (h : Timely s n time d) (s' : Bool) : Timely s' n time (d.withPhase s') :=
  ⟨h.of_eq h.load h.now rfl rfl rfl h.ahead, h.steady.withPhase s'⟩

theorem mono (h : Timely s n time d) {m : Nat} (hm : n ≤ m) : Timely s m time d :=
  ⟨⟨Nat.le_trans h.load hm, h.now, h.told, h.ahead⟩, h.steady⟩

theorem withClock (h : Timely s n time d) {c : Clock Rat Job} (hl : c.live = d.clock.live)
    (hn : c.next = d.clock.next) (hk : c.cancelled = d.clock.cancelled)
    (ha : ∀ a, d.active = some a → c.now < a.endsAt) : Timely s n c.now (d.withClock c) :=
  ⟨h.of_eq h.load rfl rfl rfl rfl ha, h.steady.withClock hl hn hk⟩

theorem startLoop_ends (fuel : Nat) (h : Timely true n time d) :
    Ends (startLoop (tell r) fuel) d fun _ => Timely true n time := by
  induction fuel generalizing d with
  | zero => exact Ends.pure h
  | succ fuel ih =>
    cases ha : d.active with
    | some a => exact ⟨_, _, startLoop_of_active (by rw [ha]; rfl) _, h⟩
    | none =>
      cases hf : Queue.takeFirst (Listener.defers d.listener) d.queue.pending with
      | none =>
        refine Ends.get ?_
        rw [if_neg (by simp [ha]), hf]
        exact Ends.pure h
      | some p =>
        obtain ⟨c, pending⟩ := p
        rw [Ends, startLoop_of_takeFirst ha hf]
        have hs := Desk.present_ends (fair_tell r) h.steady ha hf
        have ht := h.toTells.present_ends (r := r) h.steady.phase h.steady.sound.length ha hf
        exact (ht.and hs).bind fun _ t ht => ih ⟨ht.1, ht.2⟩

theorem startNext_ends (h : Timely false n time d) :
    Ends (startNext (tell r)) d fun _ => Timely false n time := by
  refine Ends.get ?_
  rw [h.steady.phase]
  refine Ends.modify (lastly_ends ?_)
  exact (startLoop_ends _ (h.withPhase true)).mono fun _ _ ht => ht.withPhase false

theorem of_quiet (hs : d.Sound 0) (hp : d.queue.starting = false) (hq : d.Quiet)
    (ht : Tells n time (heard r none (Desk.withActive d none))) :
    Timely false n time (heard r none (Desk.withActive d none)) :=
  ⟨ht, ⟨⟨hs.cancelled, hs.length, Nat.zero_le _, fun _ ha => by cases ha⟩, Nat.le_refl 0, hp,
    .inl hq⟩⟩

theorem replace_ends (hs : d.Sound 0) (hp : d.queue.starting = false) (hq : d.Quiet)
    (ht : Tells n time (heard r none (Desk.withActive d none))) :
    Ends (do retire (tell r); startNext (tell r)) d fun _ => Timely false n time :=
  Ends.after rfl (of_quiet hs hp hq ht).startNext_ends

theorem due (h : Timely s n time d) : d.Due := h.steady.due.resolve_right fun hb => hb.1

theorem length_pos (h : Timely s n time d) {a : Active Rat} (ha : d.active = some a) :
    0 < a.length :=
  ((due_of_some ha).mp h.due).2

theorem cancelTimer_ends (h : Timely false n time d) :
    Ends cancelTimer d fun _ (t : Desk Rat (Diary L)) =>
      t.Steady True false 0 0 ∧ t.Quiet ∧ Tells n time t ∧ t.active = d.active := by
  have ht : Ends cancelTimer d fun _ (t : Desk Rat (Diary L)) =>
      Tells n time t ∧ t.active = d.active := by
    cases ha : d.active with
    | none => exact ⟨_, _, cancelTimer_of_none ((due_of_none ha).mp h.due).1, h.toTells, ha⟩
    | some a =>
      obtain ⟨⟨k, hk, -⟩, -⟩ := (due_of_some ha).mp h.due
      exact ⟨_, _, cancelTimer_of_some hk, h.of_eq h.load h.now rfl rfl rfl h.ahead, ha⟩
  exact ((Desk.cancelTimer_ends h.steady).and ht).mono
    fun _ _ ⟨⟨hs, hq⟩, ht, ha⟩ => ⟨hs, hq, ht, ha⟩

theorem cut {a : Active Rat} (h : Tells n time d) (ha : d.active = some a) (hl : 0 < a.length)
    (hr : r = .interrupt ∨ r = .clear) : Tells n time (heard r none (Desk.withActive d none)) := by
  obtain ⟨closed, current, ht⟩ := h.told
  obtain ⟨b, rfl, -, -, hend, hlen⟩ := ht.current_some ha
  refine .of_ended ht (Nat.le_succ_of_le h.load) h.now (.inr ⟨?_, hr⟩) (hlen ▸ hl)
  rw [← hend]
  exact h.ahead a ha

theorem interrupt_ends (h : Timely false n time d) :
    Ends (interrupt (tell .interrupt)) d fun _ => Timely false n time := by
  refine Ends.get ?_
  cases ha : d.active with
  | none => exact Ends.pure h
  | some a =>
    refine h.cancelTimer_ends.bind fun _ (t : Desk Rat (Diary L)) ⟨hs, hq, ht, hta⟩ => ?_
    exact replace_ends hs.sound hs.phase hq (cut ht (hta.trans ha) (h.length_pos ha) (.inl rfl))

theorem clear_ends (h : Timely false n time d) :
    Ends (clear (tell .clear)) d fun _ => Timely false n time := by
  refine h.cancelTimer_ends.bind fun _ (t : Desk Rat (Diary L)) ⟨hs, hq, ht, hta⟩ =>
    Ends.modify (Ends.get ?_)
  have hl : (t.withLine [] t.queue.lastNumber).load ≤ n :=
    Nat.le_trans (Nat.add_le_add_right (Nat.zero_le _) _) ht.load
  have hw : Tells n time (t.withLine [] t.queue.lastNumber) :=
    ht.of_eq hl ht.now rfl rfl rfl ht.ahead
  have hs' : (t.withLine [] t.queue.lastNumber).Sound 0 := hs.sound.withLine [] _
  split
  · rename_i hsome
    obtain ⟨a, ha⟩ : ∃ a, t.active = some a := Option.isSome_iff_exists.mp hsome
    have hl : 0 < a.length := h.length_pos (hta ▸ ha)
    exact ⟨_, _, rfl, of_quiet hs' hs.phase hq (cut hw ha hl (.inr rfl))⟩
  · rename_i hnone
    have ha : t.active = none := Option.not_isSome_iff_eq_none.mp hnone
    have hw : Timely false n time (t.withLine [] t.queue.lastNumber) :=
      ⟨hw, hs', Nat.le_refl 0, hs.phase, .inl ((due_of_none ha).mpr hq)⟩
    exact Ends.pure hw

theorem withLine (h : Timely s n time d) {pending : List (Queued Rat)} (number : Nat)
    (hp : pending.length ≤ d.queue.pending.length + 1) :
    Timely s (n + 1) time (d.withLine pending number) := by
  refine ⟨h.of_eq ?_ h.now rfl rfl rfl h.ahead, h.steady.withLine pending number⟩
  have hl : d.queue.pending.length + d.active.toList.length ≤ n := h.load
  change pending.length + d.active.toList.length ≤ n + 1
  omega

theorem again (h : Timely false n time d) {a : Active Rat} (ha : d.active = some a) :
    Timely false n time (heard r (some (a.again d.clock.now))
      (Desk.withActive d (some (a.again d.clock.now)))) := by
  obtain ⟨closed, current, ht⟩ := h.told
  obtain ⟨b, rfl, rfl, -⟩ := ht.current_some ha
  have ht := ht.again (m := moment r d)
    (t := heard r (some (b.latest.again d.clock.now))
      (Desk.withActive d (some (b.latest.again d.clock.now)))) rfl rfl rfl
  have hl : d.queue.pending.length + 1 ≤ n := by
    have hl := h.load
    rwa [Desk.load, ha] at hl
  have hs := h.steady.sound
  refine ⟨⟨hl, h.now, ⟨_, _, ht⟩, ?_⟩, ⟨hs.cancelled, hs.length, hs.above, ?_⟩, Nat.le_refl 0,
    h.steady.phase, .inl ((due_of_some ha).mp h.due)⟩
  · rintro _ ⟨⟩
    exact h.ahead b.latest ha
  · rintro _ ⟨⟩
    exact hs.ids b.latest ha

theorem enqueue_ends (h : Timely false n time d) (c : Cue Rat) :
    Ends (enqueue (tell r) c) d fun _ => Timely false (n + 1) time := by
  refine Ends.get ?_
  obtain hn | ⟨a, ha, he⟩ := d.queue.mergeActive_ok c.key d.clock.now
    fun _ _ => Queue.merges_ok
  · refine Ends.after (reckon_of_ok hn d) ?_
    obtain ⟨merged, hp⟩ := d.queue.mergePending_ok c.key d.clock.now d.queue.pending
      fun _ _ => Queue.merges_ok
    refine Ends.after (reckon_of_ok hp d) ?_
    cases merged with
    | some pending =>
      obtain ⟨before, e, after, hq, rfl, -⟩ := Queue.mergePending_parts hp
      refine ⟨_, _, rfl, h.withLine d.queue.lastNumber (Nat.le_succ_of_le (Nat.le_of_eq ?_))⟩
      rw [hq, List.length_append, List.length_append]
      rfl
    | none =>
      cases hr : d.queue.receive c with
      | none => exact ⟨_, _, rfl, h.mono (Nat.le_succ n)⟩
      | some q =>
        obtain ⟨keeps, rfl, -⟩ := Queue.receive_keeps hr
        refine (h.withLine (d.queue.lastNumber + 1) ?_).startNext_ends
        rw [(Queue.insert_perm _ _).length_eq]
        exact Nat.succ_le_succ (List.length_filter_le _ _)
  · refine Ends.after (reckon_of_ok he d) ?_
    exact ⟨_, _, rfl, (h.again ha).mono (Nat.le_succ n)⟩

theorem load_pos (h : Timely s n time d) {a : Active Rat} (ha : d.active = some a) : 0 < n := by
  have hl := h.load
  rw [Desk.load, ha] at hl
  exact Nat.lt_of_lt_of_le (Nat.succ_pos _) hl

theorem finish_ends (h : Timely false (n + 1) time d) {a : Active Rat} (ha : d.active = some a) :
    Ends (finish (tell r) a.id) (d.withClock
      { d.clock with timers := [], now := Scalar.larger d.clock.now a.endsAt })
      fun _ => Timely false n a.endsAt := by
  obtain ⟨closed, current, ht⟩ := h.told
  obtain ⟨b, rfl, -, -, hend, hlen⟩ := ht.current_some ha
  have hlt : d.clock.now < a.endsAt := h.now ▸ h.ahead a ha
  have hn : Scalar.larger d.clock.now a.endsAt = a.endsAt := if_pos (decide_eq_true hlt)
  have hs := h.steady.sound
  have hany : d.active.any (·.id == a.id) = true := by simp [ha]
  refine Ends.get ?_
  change Ends (if d.active.any (·.id == a.id) = true then _ else _) _ _
  rw [if_pos hany, hn]
  have hw : Tells n a.endsAt (heard r none (Desk.withActive
      { clock := { d.clock with timers := [], now := a.endsAt }
        state := { d.state with queue := { d.queue with timer := none } } } none)) :=
    .of_ended (ht.of_eq rfl rfl rfl) h.load rfl (.inl hend) (hlen ▸ h.length_pos ha)
  exact Ends.modify (replace_ends ⟨hs.cancelled, hs.length, hs.above, hs.ids⟩ h.steady.phase
    ⟨rfl, rfl⟩ hw)

theorem drainAll_ends {limit : Rat} {fuel : Nat} (hf : n ≤ fuel) (h : Timely false n time d)
    (hl : time ≤ limit) :
    Ends (Timed.drainAll (fire (tell r)) limit fuel) d fun _ (t : Desk Rat (Diary L)) =>
      (∃ time, Timely false n time t) ∧ ∀ a, t.active = some a → limit < a.endsAt := by
  -- Each cue that is over takes one from the load, as its batch takes one from the fuel.
  induction fuel generalizing d n time with
  | zero =>
    refine Ends.pure ⟨⟨_, h⟩, fun a ha => ?_⟩
    exact absurd (Nat.lt_of_lt_of_le (h.load_pos ha) hf) (Nat.lt_irrefl 0)
  | succ fuel ih =>
    have hq (ha : ∀ a, d.active = some a → limit < a.endsAt) (c : Clock Rat Job)
        (hc : c.live = d.clock.live) (hn : c.next = d.clock.next)
        (hk : c.cancelled = d.clock.cancelled) (ht : c.now = d.clock.now) :
        (∃ time, Timely false n time (d.withClock c)) ∧ ∀ a, d.active = some a → limit < a.endsAt :=
      ⟨⟨_, h.withClock hc hn hk (by rw [ht, h.now]; exact h.ahead)⟩, ha⟩
    cases ha : d.active with
    | none =>
      refine drainAll_stops (.inl ((due_of_none ha).mp h.due).2) fuel (hq fun a hs => ?_)
      rw [ha] at hs
      cases hs
    | some a =>
      obtain ⟨⟨k, -, hlive, -⟩, -⟩ := (due_of_some ha).mp h.due
      by_cases he : a.endsAt ≤ limit
      · obtain ⟨m, rfl⟩ := Nat.exists_eq_add_one.mpr (h.load_pos ha)
        refine drainAll_fires hlive he (h.finish_ends ha) fun u hu => ?_
        refine (ih (Nat.le_of_succ_le_succ hf) hu he).mono fun _ t ⟨⟨_, ht⟩, ha⟩ => ?_
        exact ⟨⟨_, ht.mono (Nat.le_succ m)⟩, ha⟩
      · refine drainAll_stops (.inr ⟨_, hlive, Rat.not_le.mp he⟩) fuel (hq fun b hs => ?_)
        rw [ha] at hs
        cases hs
        exact Rat.not_le.mp he

theorem advance_ends {fuel : Nat} (hf : n ≤ fuel) (h : Timely false n time d) (ms : Rat) :
    Ends (Timed.advance (fire (tell r)) fuel ms) d fun _ t => ∃ time, Timely false n time t := by
  have hl : time ≤ d.clock.now + Scalar.positivePart ms := h.now ▸ Clock.le_add_positivePart _ _
  refine Ends.get (Ends.after rfl ((drainAll_ends hf h hl).bind fun _ t ⟨⟨_, ht⟩, ha⟩ => ?_))
  exact ⟨_, _, rfl, _, ht.withClock rfl rfl rfl ha⟩

theorem runAll_ends {fuel : Nat} (hf : n ≤ fuel) (h : Timely false n time d) (limit : Nat) :
    Ends (Timed.runAll (fire (tell r)) fuel limit) d fun _ t => ∃ time, Timely false n time t := by
  induction limit generalizing d time with
  | zero => exact Ends.pure ⟨_, h⟩
  | succ limit ih =>
    refine Ends.get ?_
    dsimp only
    split
    · exact Ends.pure ⟨_, h⟩
    · exact Ends.after rfl ((advance_ends hf h _).bind fun _ t ⟨_, ht⟩ => ih ht)

theorem withDiary (h : Timely s n time d) {k : Diary L} (hk : k.told = d.listener.told) :
    Timely s n time (d.withListener k) :=
  ⟨h.of_eq h.load h.now hk rfl rfl h.ahead, h.steady.withListener (Nat.le_refl 0)⟩

theorem load_le_fuel (d : Desk Rat (Diary L)) : d.load ≤ d.fuel := by
  rw [Desk.load, fuel, supply]
  cases d.active with
  | none => exact Nat.le_succ_of_le (Nat.le_trans (Nat.le_add_right _ _) (Nat.le_add_left _ _))
  | some a => exact Nat.succ_le_succ (Nat.le_trans (Nat.le_add_right _ _) (Nat.le_add_left _ _))

variable {P : L → Prop}

theorem visit_ends (h : Timely false n time d) {v : Visit Rat L} (hv : v.Lone P) :
    Ends (Diary.visit v) d fun _ t => ∃ n time, Timely false n time t := by
  have hd : Timely false d.load time d := ⟨⟨Nat.le_refl _, h.now, h.told, h.ahead⟩, h.steady⟩
  have hs : Ends (serve v) d fun _ t => ∃ n time, Timely false n time t := by
    have hr {x : Work Rat (Diary L) Unit} {n : Nat} (hx : Ends x d fun _ => Timely false n time) :
        Ends x d fun _ t => ∃ n time, Timely false n time t := hx.mono fun _ _ ht => ⟨_, _, ht⟩
    cases hv with
    | ask ho =>
      cases ho with
      | inner hi =>
        cases hi with
        | enqueue c => exact hr (h.enqueue_ends c)
        | interrupt => exact hr h.interrupt_ends
        | clear => exact hr h.clear_ends
        | poke => exact hr h.startNext_ends
        | nothing => exact hr (Ends.pure h)
      | advance ms =>
        exact Ends.get ((advance_ends (load_le_fuel d) hd ms).mono fun _ _ ht => ⟨_, ht⟩)
    | runAll limit =>
      exact Ends.get ((runAll_ends (load_le_fuel d) hd limit).mono fun _ _ ht => ⟨_, ht⟩)
    | change f => exact ⟨_, _, rfl, _, _, h.withDiary rfl⟩
  exact hs.bind fun _ t ⟨n, time, ht⟩ => ⟨_, _, rfl, n, time, ht.withDiary rfl⟩

theorem visits_end (h : Timely false n time d) {vs : List (Visit Rat L)}
    (hvs : ∀ v ∈ vs, v.Lone P) :
    Ends (vs.forM Diary.visit) d fun _ t => ∃ n time, Timely false n time t := by
  refine Ends.forM (fun v hv t ⟨_, _, ht⟩ => ?_) ⟨n, time, h⟩
  exact ht.visit_ends (hvs v hv)

end Timely

theorem timely_opened (now : Rat) (room : Int) {length : Rat} (h : 0 ≤ length) (window : Rat)
    (l : L) : Timely false 0 now (opened (Desk.empty now room length window l)) := by
  have hs : (opened (Desk.empty now room length window l)).Sound 0 :=
    ⟨by simp [opened, Desk.empty], h, Nat.le_refl 0, by rintro _ ⟨⟩⟩
  have ht : Told [] none (opened (Desk.empty now room length window l)) :=
    ⟨rfl, rfl, by simp, by simp, by simp, rfl⟩
  exact ⟨⟨Nat.le_refl 0, rfl, ⟨_, _, ht⟩, by rintro _ ⟨⟩⟩,
    ⟨hs, Nat.le_refl 0, rfl, .inl ⟨rfl, rfl⟩⟩⟩

/-- An empty desk. However its clock is moved on, a mute listener is told all about one cue, with
the id 1, then about the next one, and so on. A cue is over when it has lasted its length, unless
it is interrupted or cleared away before; and none but the last is not over. -/
theorem plays_in_turn {P : L → Prop} (hP : Mute P) (now : Rat) (room : Int) {length : Rat}
    (hlen : 0 ≤ length) (window : Rat) {l : L} (hl : P l) {vs : List (Visit Rat L)}
    (hvs : ∀ v ∈ vs, v.Lone P) :
    ∃ (u : PUnit) (t : Desk Rat (Diary L)),
      vs.forM Diary.visit (opened (Desk.empty now room length window l)) = .ok u t ∧
      vs.forM Desk.visit (Desk.empty now room length window l) = .ok u (t.via Diary.listener) ∧
      ∃ blocks : List Block, t.listener.told = blocks.flatMap Block.tellings ∧
        blocks.map (·.cue.id) = List.range' 1 blocks.length ∧ (∀ b ∈ blocks, b.Proper) ∧
        (∀ b ∈ blocks.dropLast, b.ended.isSome = true) ∧
        ∀ b ∈ blocks, b.ended = none →
          Desk.active t = some b.latest ∧ 0 < b.cue.length ∧ t.clock.now < b.cue.endsAt := by
  obtain ⟨u, t, hr, n, time, ht⟩ := (timely_opened now room hlen window l).visits_end hvs
  refine ⟨u, t, hr, ?_, ?_⟩
  · rw [visits_eq hP hvs (d := Desk.empty now room length window l) hl, hr]
    rfl
  · obtain ⟨closed, current, hc⟩ := ht.told
    refine ⟨closed ++ current.toList, hc.told, hc.ids_eq, hc.proper, hc.dropLast, fun b hb ho => ?_⟩
    have hb : current = some b := hc.current_of_open hb ho
    have ha : Desk.active t = some b.latest := by
      rw [hc.active, hb]
      rfl
    obtain ⟨-, hend, hlen⟩ := b.latest_same
    refine ⟨ha, hlen ▸ ht.length_pos ha, ?_⟩
    rw [← hend, ht.now]
    exact ht.ahead b.latest ha

theorem mute_reactor : Mute fun l : Reactor Rat => l.reactions = [] where
  asks h := by simp [Listener.credit, h]
  notes h _ := h
  resumes h := h

def gong (last : Rat) : Cue Rat := { kind := .status, title := "gong", duration := some last }

def ping : Cue Rat := { kind := .turn, title := "ping", duration := some 0 }

/-- Two gongs that merge, a ping that does not last, and a bell that is cut short. -/
def medley : List (Visit Rat (Reactor Rat)) :=
  [.ask (.enqueue (gong 500)), .ask (.enqueue ping), .ask (.enqueue bell), .ask (.advance 300),
    .ask (.enqueue (gong 900)), .change fun l => { l with deferred := [.defense] },
    .ask (.advance 250), .ask .interrupt, .ask (.runAll 10)]

theorem lone_medley : ∀ v ∈ medley, v.Lone fun l => l.reactions = [] := by
  have hi {r : Request Rat} (h : r.Inner) :
      (Visit.ask r).Lone fun l : Reactor Rat => l.reactions = [] := .ask (.inner h)
  simp only [medley, List.forall_mem_cons, List.not_mem_nil, false_imp_iff, implies_true, and_true]
  exact ⟨hi (.enqueue _), hi (.enqueue _), hi (.enqueue _), .ask (.advance _), hi (.enqueue _),
    .change _ fun _ h => h, .ask (.advance _), hi .interrupt, .runAll 10⟩

def Telling.brief (told : Telling) : Option (String × Nat) × Rat :=
  (told.1.map fun a => (a.title, a.repeats), told.2.time)

theorem plays_in_turn_medley : (Mute fun l : Reactor Rat => l.reactions = []) ∧
    (∀ v ∈ medley, v.Lone fun l => l.reactions = []) ∧
    ∃ (t : Desk Rat (Diary (Reactor Rat))) (blocks : List Block),
      medley.forM Desk.visit (Desk.empty 0 8 1600 1200 {}) = .ok ⟨⟩ (t.via Diary.listener) ∧
      t.listener.told = blocks.flatMap Block.tellings ∧ (∀ b ∈ blocks, b.Proper) ∧
      t.listener.told.map Telling.brief =
        [(some ("gong", 1), 0), (some ("gong", 2), 300), (none, 500), (some ("ping", 1), 500),
          (none, 500), (some ("bell", 1), 500), (none, 550)] := by
  have h0 : (0 : Rat) ≤ 1600 := by decide +kernel
  obtain ⟨⟨⟩, t, hr, hv, blocks, ht, -, hp, -⟩ :=
    plays_in_turn mute_reactor 0 8 h0 1200 (l := {}) rfl lone_medley
  refine ⟨mute_reactor, lone_medley, t, blocks, hv, ht, hp, ?_⟩
  have htold := congrArg (fun r => (ended? r).map fun p : PUnit × Desk Rat (Diary (Reactor Rat)) =>
    p.2.listener.told.map Telling.brief) hr
  refine Option.some.inj (htold.symm.trans ?_)
  decide +kernel

end Duel.Cue
