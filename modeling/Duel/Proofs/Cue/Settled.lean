import Duel.Proofs.Cue.Alike
import Duel.Proofs.Cue.Starting

namespace Duel.Cue

namespace Desk

variable {L : Type} [Listener Rat L] {B : Prop} {floor most : Nat} {time : Rat}
  {P : Active Rat → Prop} {d : Desk Rat L} {notice : Option (Active Rat)} {place : Nat}

omit [Listener Rat L] in
theorem Sound.withListener (h : d.Sound floor) (l : L) : (d.withListener l).Sound floor :=
  ⟨h.cancelled, h.length, h.above, h.ids⟩

theorem Busy.withListener (h : d.Busy time P floor most) {l : L} {most' : Nat}
    (hl : Listener.credit l ≤ most') : (d.withListener l).Busy time P floor most' :=
  ⟨h.sound.withListener l, hl, h.phase, h.quiet, h.now, h.shown⟩

theorem Steady.withListener {s : Bool} (h : d.Steady B s floor most) {l : L} {most' : Nat}
    (hl : Listener.credit l ≤ most') : (d.withListener l).Steady B s floor most' :=
  ⟨h.sound.withListener l, hl, h.phase, h.due⟩

end Desk

section

open Desk

variable {L : Type} [Listener Rat L] {B : Prop}

/-- A listener is polite if, whenever a cue is shown, it leaves it as it is or takes it away while
it is told so; it never lets another cue merge into it. -/
def Polite (L : Type) [Listener Rat L] : Prop :=
  ∀ (d : Desk Rat L) (c : Queued Rat) (pending : List (Queued Rat)), d.Settled → d.active = none →
    Queue.takeFirst (Listener.defers d.listener) d.queue.pending = some (c, pending) →
    Ends (tell (Listener.credit d.listener) (some (d.shownAs c))) (d.showing c pending)
      fun _ (t : Desk Rat L) => t.Leaves (d.shownAs c)

theorem tell_keeps (hL : Modest L) {k : Nat} {notice : Option (Active Rat)}
    (h : Keeps B k (answer k notice 0 : Work Rat L Unit)) :
    Keeps B k (tell k notice : Work Rat L Unit) where
  busy hP hd :=
    Ends.after rfl (h.busy hP (hd.withListener (Nat.le_trans (hL.notes _ notice) hd.credit)))
  steady hd :=
    Ends.after rfl (h.steady (hd.withListener (Nat.le_trans (hL.notes _ notice) hd.credit)))

theorem tell_leaves (hL : Modest L) (hp : Polite L) {k : Nat} {d : Desk Rat L} {c : Queued Rat}
    {pending : List (Queued Rat)} (hs : d.Sound 0) (hk : Listener.credit d.listener ≤ k)
    (hq : d.Quiet) (ha : d.active = none)
    (hf : Queue.takeFirst (Listener.defers d.listener) d.queue.pending = some (c, pending)) :
    Ends (tell k (some (d.shownAs c))) (d.showing c pending) fun _ (t : Desk Rat L) =>
      t.Leaves (d.shownAs c) := by
  have hd : (d.withPhase false).Settled :=
    ⟨hs.withPhase false, rfl, (due_of_none (d := d.withPhase false) ha).mpr hq⟩
  have he := (tell_agree hL (Nat.le_refl _) hk (some (d.shownAs c)) (d.showing c pending)
    (Nat.le_refl _)).1
  rw [Ends, ← he]
  exact hp (d.withPhase false) c pending hd ha hf

theorem answer_rule {k place : Nat} {notice : Option (Active Rat)} {d : Desk Rat L}
    {Q : Unit → Desk Rat L → Prop} (hn : Q () d)
    (hs : ∀ r after l, Listener.next d.listener notice place = some (r, after, l) →
      Ends (do perform (tell k) r; answer k notice after) (d.withListener l) Q) :
    Ends (answer (k + 1) notice place) d Q := by
  cases h : Listener.next d.listener notice place with
  | none => exact ⟨_, _, answer_of_none h _, hn⟩
  | some p =>
    rw [Ends, answer_of_some h]
    exact hs _ _ _ h

theorem answer_keeps (hL : Modest L) (hp : ¬B → Polite L) (k : Nat)
    (notice : Option (Active Rat)) (place : Nat) :
    Keeps B k (answer k notice place : Work Rat L Unit) := by
  -- The credit that is left bounds the depth of the calls from within.
  induction k generalizing notice place with
  | zero => exact ⟨fun _ h => Ends.pure h, fun h => Ends.pure h⟩
  | succ k ih =>
    have hT : Fair B k (tell k : Tell Rat L) :=
      ⟨fun notice => tell_keeps hL (ih notice 0), fun hB => tell_leaves hL (hp hB)⟩
    constructor
    · intro time P floor d hP h
      refine answer_rule h fun r after l hn => ?_
      have hl : Listener.credit l ≤ k :=
        Nat.le_of_lt_succ (Nat.lt_of_lt_of_le (hL.pays hn) h.credit)
      refine ((perform_keeps hT (hL.asks hn)).busy hP (h.withListener hl)).bind fun _ t ht => ?_
      refine ((ih notice after).busy hP ht).mono fun _ _ hu => ?_
      exact hu.mono (fun _ hb => hb) (Nat.le_succ k)
    · intro floor d h
      refine answer_rule h fun r after l hn => ?_
      have hl : Listener.credit l ≤ k :=
        Nat.le_of_lt_succ (Nat.lt_of_lt_of_le (hL.pays hn) h.credit)
      refine ((perform_keeps hT (hL.asks hn)).steady (h.withListener hl)).bind fun _ t ht => ?_
      exact ((ih notice after).steady ht).mono fun _ _ hu => hu.mono (Nat.le_refl _) (Nat.le_succ k)

theorem tell_fair (hL : Modest L) (hp : ¬B → Polite L) (k : Nat) :
    Fair B k (tell k : Tell Rat L) :=
  ⟨fun notice => tell_keeps hL (answer_keeps hL hp k notice 0),
    fun hB => tell_leaves hL (hp hB)⟩

theorem fair_of_modest (hL : Modest L) (k : Nat) : Fair True k (tell k : Tell Rat L) :=
  tell_fair hL (fun hB => absurd trivial hB) k

end

/-- A request from outside may also move the clock. -/
inductive Request.Outer {R : Type} : Request R → Prop
  | inner {r : Request R} (h : r.Inner) : Outer r
  | advance (ms : R) : Outer (.advance ms)

namespace Desk

variable {L : Type} [Listener Rat L] {B : Prop} {d : Desk Rat L}

/-- The cue that is shown is over once the clock has been moved to its end. -/
def Passes (d : Desk Rat L) : Prop :=
  ∀ a ms, d.active = some a → 0 ≤ ms → a.endsAt ≤ d.clock.now + ms →
    Ends (run (.advance ms)) d fun _ (t : Desk Rat L) => ∀ b, t.active = some b → a.id < b.id

/-- A cue is shown that no timer ends. -/
structure Stuck (d : Desk Rat L) : Prop where
  sound : d.Sound 0
  phase : d.queue.starting = false
  shown : d.active.isSome = true
  quiet : d.Quiet

theorem run_ends (hL : Modest L) (hp : ¬B → Polite L) {floor most : Nat}
    (h : d.Steady B false floor most) {r : Request Rat} (hr : r.Outer) :
    Ends (run r) d fun _ (t : Desk Rat L) =>
      t.Steady B false floor (Listener.credit d.listener) := by
  have hT := tell_fair hL hp (Listener.credit d.listener)
  have h : d.Steady B false floor (Listener.credit d.listener) :=
    ⟨h.sound, Nat.le_refl _, h.phase, h.due⟩
  refine Ends.get ?_
  cases hr with
  | inner hr => exact h.perform_ends hT hr
  | advance ms => exact Ends.get (advance_ends hT h _ ms)

theorem runs_end (hL : Modest L) (hp : ¬B → Polite L) {rs : List (Request Rat)}
    (hrs : ∀ r ∈ rs, r.Outer) {floor most : Nat} (h : d.Steady B false floor most) :
    Ends (rs.forM run) d fun _ (t : Desk Rat L) => ∃ most, t.Steady B false floor most := by
  refine Ends.forM (fun r hr (t : Desk Rat L) ⟨_, ht⟩ => ?_) ⟨most, h⟩
  exact (run_ends hL hp ht (hrs r hr)).mono fun _ _ hu => ⟨_, hu⟩

theorem Settled.steady (h : d.Settled) (B : Prop) :
    d.Steady B false 0 (Listener.credit d.listener) :=
  ⟨h.sound, Nat.le_refl _, h.phase, .inl h.due⟩

theorem Settled.passes (hL : Modest L) (h : d.Settled) : d.Passes := by
  intro a ms ha hms he
  have hT := fair_of_modest hL (Listener.credit d.listener)
  have hw : d.Awaits a := ((due_of_some ha).mp h.due).1
  rw [← Clock.positivePart_of_nonneg hms] at he
  refine Ends.get (Ends.get ?_)
  refine (advance_passes hT (h.steady True) ha hw _ he).mono fun _ (t : Desk Rat L) ht b hb => ?_
  exact (ht.sound.ids b hb).1

theorem Steady.settled_or_stuck {most : Nat} (h : d.Steady True false 0 most) :
    d.Settled ∨ d.Stuck := by
  by_cases hd : d.Due
  · exact .inl ⟨h.sound, h.phase, hd⟩
  · have hq : d.Quiet := (h.due.resolve_left hd).2
    cases ha : d.active with
    | none => exact absurd ((due_of_none ha).mpr hq) hd
    | some a => exact .inr ⟨h.sound, h.phase, by rw [ha]; rfl, hq⟩

omit [Listener Rat L] in
theorem Stuck.not_due (h : d.Stuck) : ¬d.Due := by
  obtain ⟨a, ha⟩ := Option.isSome_iff_exists.mp h.shown
  intro hd
  obtain ⟨⟨n, hn, -⟩, -⟩ := (due_of_some ha).mp hd
  exact absurd (hn.symm.trans h.quiet.1) (by simp)

/-- A cue that another one merges into while it is told of stays without a timer. -/
theorem poke_stuck (hd : d.Settled) (ha : d.active = none) {c : Queued Rat}
    {pending : List (Queued Rat)}
    (hf : Queue.takeFirst (Listener.defers d.listener) d.queue.pending = some (c, pending))
    {t : Desk Rat L}
    (ht : tell (Listener.credit d.listener) (some (d.shownAs c)) (d.showing c pending) = .ok () t)
    {P : Active Rat → Prop} {most : Nat} (hb : t.Busy d.clock.now P 0 most)
    (hn : ¬t.Leaves (d.shownAs c)) : Ends (run .poke) d fun _ (t : Desk Rat L) => t.Stuck := by
  have hs : t.active.isSome = true := by
    rw [Option.isSome_iff_ne_none]
    exact fun h => hn (.inl h)
  have hk : t.queue.shows (d.shownAs c) = false := by
    simpa using fun h => hn (.inr h)
  have hp : Ends (startLoop (tell (Listener.credit d.listener)) (d.supply + 1)) (d.withPhase true)
      fun _ (u : Desk Rat L) => (u.withPhase false).Stuck := by
    rw [Ends, startLoop_of_takeFirst (d := d.withPhase true) ha hf]
    refine Ends.after (present_of_lost rfl ht hk) ⟨_, _, startLoop_of_active hs _, ?_⟩
    exact ⟨hb.sound.withPhase false, rfl, hs, hb.quiet⟩
  refine Ends.get (Ends.get ?_)
  rw [hd.phase]
  exact Ends.modify (lastly_ends hp)

end Desk

open Desk

section

variable {L : Type} [Listener Rat L]

def Desk.fresh (now : Rat) (room : Int) (length window : Rat) (l : L) : Desk Rat L :=
  ⟨{ now }, ⟨.empty room length window, l⟩⟩

omit [Listener Rat L] in
theorem settled_fresh {now length window : Rat} {room : Int} {l : L} (h : 0 ≤ length) :
    (Desk.fresh now room length window l).Settled :=
  ⟨⟨by simp [fresh], h, Nat.le_refl _, by rintro _ ⟨⟩⟩, rfl, rfl, rfl⟩

theorem settles (hL : Modest L) (hp : Polite L) {d : Desk Rat L} (hd : d.Settled)
    {rs : List (Request Rat)} (hrs : ∀ r ∈ rs, r.Outer) :
    Ends (rs.forM run) d fun _ (t : Desk Rat L) => t.Settled ∧ t.Passes := by
  refine (runs_end hL (fun _ => hp) hrs (hd.steady False)).mono
    fun _ (t : Desk Rat L) ⟨_, ht⟩ => ?_
  have ht : t.Settled := ⟨ht.sound, ht.phase, ht.due.resolve_right fun h => h.1⟩
  exact ⟨ht, ht.passes hL⟩

theorem settles_or_sticks (hL : Modest L) {d : Desk Rat L} (hd : d.Settled)
    {rs : List (Request Rat)} (hrs : ∀ r ∈ rs, r.Outer) :
    Ends (rs.forM run) d fun _ (t : Desk Rat L) => t.Settled ∧ t.Passes ∨ t.Stuck := by
  refine (runs_end hL (fun hB => absurd trivial hB) hrs (hd.steady True)).mono
    fun _ (t : Desk Rat L) ⟨_, ht⟩ => ?_
  exact ht.settled_or_stuck.imp_left fun ht => ⟨ht, ht.passes hL⟩

theorem polite_of_poke (hL : Modest L)
    (h : ∀ d : Desk Rat L, d.Settled → Ends (run .poke) d fun _ (t : Desk Rat L) => t.Settled) :
    Polite L := by
  intro d c pending hd ha hf
  have hT := fair_of_modest hL (Listener.credit d.listener)
  obtain ⟨_, t, ht, hb⟩ := (hT.keeps (some (d.shownAs c))).busy (same_closed _)
    ((hd.steady True).showing ha c pending)
  refine ⟨_, t, ht, Classical.byContradiction fun hn => ?_⟩
  obtain ⟨_, u, hu, hs⟩ := poke_stuck hd ha hf ht hb hn
  exact hs.not_due ((h d hd).of_ok hu).due

/-- Whatever is asked of a desk, it comes to rest; and it always has a timer for the cue that it
shows, if and only if its listener is polite. -/
theorem settled_iff_polite (hL : Modest L) :
    (∀ now room length window l, 0 ≤ length →
      (Desk.fresh now room length window l : Desk Rat L).Settled) ∧
    (∀ (d : Desk Rat L) (rs : List (Request Rat)), d.Settled → (∀ r ∈ rs, r.Outer) →
      Ends (rs.forM run) d fun _ (t : Desk Rat L) => t.Settled ∧ t.Passes ∨ t.Stuck) ∧
    (Polite L ↔ ∀ (d : Desk Rat L) (rs : List (Request Rat)), d.Settled → (∀ r ∈ rs, r.Outer) →
      Ends (rs.forM run) d fun _ (t : Desk Rat L) => t.Settled ∧ t.Passes) := by
  refine ⟨fun _ _ _ _ _ => settled_fresh, fun d rs hd => settles_or_sticks hL hd, ?_⟩
  refine ⟨fun hp d rs hd => settles hL hp hd, fun h => polite_of_poke hL fun d hd => ?_⟩
  have hrs : ∀ r ∈ [Request.poke (R := Rat)], r.Outer := by
    simpa using Request.Outer.inner .poke
  obtain ⟨_, t, ht, hs⟩ := h d [.poke] hd hrs
  obtain ⟨_, u, hu, ht⟩ := bind_ok ht
  obtain ⟨-, rfl⟩ := pure_ok ht
  exact ⟨_, _, hu, hs.1⟩

end

def bell : Cue Rat := { kind := .status, title := "bell", duration := some 500 }

def ring : List (Request Rat) := [.enqueue bell, .advance 5000]

theorem outer_ring : ∀ r ∈ ring, r.Outer := by
  simpa [ring] using ⟨Request.Outer.inner (.enqueue bell), Request.Outer.advance (5000 : Rat)⟩

structure Silent

instance : Listener Rat Silent where
  defers _ _ := false
  note l _ := l
  next _ _ _ := none
  credit _ := 0
  resume l := l

theorem polite_silent : Polite Silent :=
  fun d c _ _ _ _ => ⟨_, _, rfl, .inr (by simp [Queue.shows, Desk.queue, showing, shownAs])⟩

theorem settled_iff_polite_silent : Modest Silent ∧ Polite Silent ∧
    Ends (ring.forM run) (Desk.fresh 0 8 1600 1200 Silent.mk)
      fun _ (t : Desk Rat Silent) => t.Settled ∧ t.Passes := by
  have hm : Modest Silent := ⟨nofun, fun _ _ => Nat.le_refl _, nofun⟩
  refine ⟨hm, polite_silent, ?_⟩
  obtain ⟨hf, -, hi⟩ := settled_iff_polite hm
  exact hi.mp polite_silent _ ring (hf _ _ _ _ _ (by decide +kernel)) outer_ring

structure Echo where
  cue : Option (Cue Rat)

instance : Listener Rat Echo where
  defers _ _ := false
  note l _ := l
  next l notice place :=
    match l.cue, notice with
    | some c, some _ => some (.enqueue c, place + 1, ⟨none⟩)
    | _, _ => none
  credit l := if l.cue.isSome then 1 else 0
  resume l := l

theorem echo_next {l l' : Echo} {notice : Option (Active Rat)} {place after : Nat}
    {r : Request Rat} (h : Listener.next l notice place = some (r, after, l')) :
    ∃ c, l.cue = some c ∧ l' = ⟨none⟩ ∧ r = .enqueue c := by
  obtain ⟨cue⟩ := l
  cases cue with
  | none => cases h
  | some c =>
    cases notice with
    | none => cases h
    | some a =>
      cases h
      exact ⟨c, rfl, rfl, rfl⟩

theorem modest_echo : Modest Echo where
  pays h := by
    obtain ⟨c, hc, rfl, -⟩ := echo_next h
    simp [Listener.credit, hc]
  notes _ _ := Nat.le_refl _
  asks h := by
    obtain ⟨c, -, -, rfl⟩ := echo_next h
    exact .enqueue c

theorem echo_stays : (ended? (ring.forM run (Desk.fresh 0 8 1600 1200 (Echo.mk (some bell))))).any
    (fun r => r.2.state.queue.active.map (·.endsAt) == some 500 && r.2.clock.live.isEmpty) =
      true := by
  decide +kernel

/-- The echo of a cue merges into it before it has got its timer; so it is still shown long after
its end. -/
theorem not_settled : ¬∀ (L : Type) [Listener Rat L], Modest L → ∀ (d : Desk Rat L)
    (rs : List (Request Rat)), d.Settled → (∀ r ∈ rs, r.Outer) →
    Ends (rs.forM run) d fun _ (t : Desk Rat L) => t.Settled := by
  intro h
  obtain ⟨_, t, ht, hs⟩ := h Echo modest_echo (Desk.fresh 0 8 1600 1200 ⟨some bell⟩) ring
    (settled_fresh (by decide +kernel)) outer_ring
  have he := echo_stays
  rw [ht] at he
  obtain ⟨ha, hl⟩ := Bool.and_eq_true_iff.mp he
  obtain ⟨a, ha, -⟩ := Option.map_eq_some_iff.mp (eq_of_beq ha)
  obtain ⟨⟨n, -, hl', -⟩, -⟩ := (due_of_some (d := t) ha).mp hs.due
  rw [hl'] at hl
  exact Bool.false_ne_true hl

end Duel.Cue
