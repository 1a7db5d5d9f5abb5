import Duel.Cue.Reactor
import Duel.Proofs.Cue.Lasting
import Duel.Proofs.Cue.Pending

namespace Duel.Cue

variable {R L : Type}

/-- How many cues came in for those that wait. -/
def repeatsOf : List (Queued R) → Nat
  | [] => 0
  | c :: rest => c.repeats + repeatsOf rest

def repeatsShown (a : Option (Active R)) : Nat := a.elim 0 (·.repeats)

theorem repeatsOf_append (pending others : List (Queued R)) :
    repeatsOf (pending ++ others) = repeatsOf pending + repeatsOf others := by
  induction pending with
  | nil => exact (Nat.zero_add _).symm
  | cons c rest ih => rw [List.cons_append, repeatsOf, repeatsOf, ih, Nat.add_assoc]

theorem repeatsOf_perm {pending others : List (Queued R)} (h : pending.Perm others) :
    repeatsOf pending = repeatsOf others := by
  induction h with
  | nil => rfl
  | cons c _ ih => rw [repeatsOf, repeatsOf, ih]
  | swap c d rest =>
    rw [repeatsOf, repeatsOf, repeatsOf, repeatsOf]
    omega
  | trans _ _ ih ih' => exact ih.trans ih'

theorem repeatsOf_filter (keeps : Queued R → Bool) (pending : List (Queued R)) :
    repeatsOf (pending.filter keeps) + repeatsOf (pending.filter (!keeps ·)) =
      repeatsOf pending := by
  rw [← repeatsOf_append]
  exact repeatsOf_perm (List.filter_append_perm keeps pending)

namespace Queue

def held (q : Queue R) : Nat := repeatsShown q.active + repeatsOf q.pending

def without (q q' : Queue R) : List (Queued R) :=
  q.pending.filter fun d => !q'.pending.any (·.number == d.number)

variable [Scalar R]

/-- Whether a cue that comes in is counted to one that is there. -/
def joins (q : Queue R) (c : Cue R) (now : R) : Bool :=
  match q.mergeActive c.key now, q.mergePending c.key now q.pending with
  | .ok none, .ok none => false
  | _, _ => true

/-- The cues that make room for one that comes in. -/
def displaced (q : Queue R) (c : Cue R) (now : R) : List (Queued R) :=
  match q.joins c now, q.receive c with
  | false, some q' => q.without q'
  | _, _ => []

def turnsAway (q : Queue R) (c : Cue R) (now : R) : Bool :=
  !q.joins c now && (q.receive c).isNone

end Queue

/-- What has become of the cues that have come in. -/
structure Account (R : Type) where
  asked : Nat := 0
  /-- What the cues stood for that were shown and have come to their end. -/
  ended : Nat := 0
  evicted : Nat := 0
  cleared : Nat := 0
  dropped : Nat := 0
  /-- The cue that is shown, as it was told of last. -/
  current : Option (Active R) := none

namespace Account

variable [Scalar R]

def enter (a : Account R) : Entry R → Account R
  | .asked (.enqueue c) now q => { a with
      asked := a.asked + 1
      evicted := a.evicted + repeatsOf (q.displaced c now)
      dropped := a.dropped + (q.turnsAway c now).toNat }
  | .asked .clear _ q => { a with cleared := a.cleared + repeatsOf q.pending }
  | .asked .. => a
  | .told none _ => { a with ended := a.ended + repeatsShown a.current, current := none }
  | .told (some b) _ => { a with current := some b }

def of (m : Minutes R) : Account R := m.foldl enter {}

structure Even (a : Account R) (q : Queue R) : Prop where
  current : a.current = q.active
  balance : a.asked = q.held + a.ended + a.evicted + a.cleared + a.dropped

theorem of_append (m : Minutes R) (e : Entry R) : of (m ++ [e]) = (of m).enter e :=
  List.foldl_append

theorem enter_of_plain (a : Account R) {r : Request R} (hr : r.isPlain = true) (now : R)
    (q : Queue R) : a.enter (.asked r now q) = a := by
  cases r with
  | enqueue c => cases hr
  | clear => cases hr
  | interrupt | poke | advance | runAll | nothing | refuse => rfl

end Account

namespace Queue

variable [Scalar R] {q q' : Queue R} {c : Cue R} {now : R}

omit [Scalar R] in
theorem without_filter {keeps : Nat → Bool} (h : q'.pending = q.pending.filter (keeps ·.number)) :
    q.without q' = q.pending.filter (!keeps ·.number) := by
  rw [without, h]
  refine List.filter_congr fun d hd => ?_
  congr 1
  rw [Bool.eq_iff_iff, List.any_eq_true]
  refine ⟨fun ⟨e, he, hn⟩ => ?_, fun hk => ⟨d, List.mem_filter.mpr ⟨hd, hk⟩, beq_self_eq_true _⟩⟩
  exact eq_of_beq hn ▸ (List.mem_filter.mp he).2

omit [Scalar R] in
theorem repeatsOf_receive (h : q.receive c = some q') :
    repeatsOf q'.pending + repeatsOf (q.without q') = repeatsOf q.pending := by
  -- Who stays goes by numbers, so that the others are those whose numbers are no longer there.
  obtain ⟨keeps, he, -⟩ := receive_keeps h
  have hq : q'.pending = q.pending.filter (keeps ·.number) := by rw [he]
  rw [without_filter hq, hq]
  exact repeatsOf_filter (keeps ·.number) q.pending

theorem mergePending_repeats {key : String} {pending others : List (Queued R)}
    (h : q.mergePending key now pending = .ok (some others)) :
    repeatsOf others = repeatsOf pending + 1 := by
  obtain ⟨before, d, after, rfl, rfl, -⟩ := mergePending_parts h
  rw [repeatsOf_append, repeatsOf_append, repeatsOf, repeatsOf]
  dsimp only
  omega

theorem joins_of_merged {pending : List (Queued R)}
    (hp : q.mergePending c.key now q.pending = .ok (some pending)) : q.joins c now = true := by
  rw [joins, hp]
  cases q.mergeActive c.key now with
  | ok a => cases a <;> rfl
  | error e => rfl

theorem joins_of_active {a : Active R} (ha : q.mergeActive c.key now = .ok (some a)) :
    q.joins c now = true := by
  rw [joins, ha]

theorem not_joins (hn : q.mergeActive c.key now = .ok none)
    (hp : q.mergePending c.key now q.pending = .ok none) : q.joins c now = false := by
  rw [joins, hn, hp]

theorem displaced_of_joins (h : q.joins c now = true) : q.displaced c now = [] := by
  rw [displaced, h]

theorem turnsAway_of_joins (h : q.joins c now = true) : q.turnsAway c now = false := by
  rw [turnsAway, h]
  rfl

theorem takes_active (h : q.Takes c now q') : q'.active = q.active := by
  cases h with
  | merged hn hp => rfl
  | dropped hn hp hr => rfl
  | entered hn hp hr hw =>
    obtain ⟨keeps, rfl, -⟩ := receive_keeps hr
    rfl

/-- A cue that comes in is counted to those at hand, unless it is turned away; and the cues that
make room for it are no longer counted. -/
theorem repeatsOf_takes (h : q.Takes c now q') :
    repeatsOf q'.pending + repeatsOf (q.displaced c now) + (q.turnsAway c now).toNat =
      repeatsOf q.pending + 1 := by
  cases h with
  | merged hn hp =>
    have hj := joins_of_merged hp
    rw [displaced_of_joins hj, turnsAway_of_joins hj]
    exact mergePending_repeats hp
  | dropped hn hp hr =>
    rw [displaced, turnsAway, not_joins hn hp, hr]
    rfl
  | entered hn hp hr hw =>
    rename_i q' w
    have hi : repeatsOf (q'.insertPending w).pending = 1 + repeatsOf q'.pending := by
      rw [insertPending, repeatsOf_perm (insert_perm w q'.pending), repeatsOf, (queued_ok hw).2]
    have hr' := repeatsOf_receive hr
    rw [displaced, turnsAway, not_joins hn hp, hr, hi]
    change 1 + repeatsOf q'.pending + repeatsOf (q.without q') + 0 = _
    omega

end Queue

namespace Account

variable [Scalar R] {q q' : Queue R} {m : Minutes R} {c : Cue R} {now : R}

theorem Even.takes (h : (of m).Even q) (hq : q.Takes c now q') :
    (of (m ++ [.asked (.enqueue c) now q])).Even q' := by
  have hb := h.balance
  have hr := Queue.repeatsOf_takes hq
  have ha := Queue.takes_active hq
  rw [of_append]
  refine ⟨h.current.trans ha.symm, ?_⟩
  dsimp only [enter]
  rw [Queue.held, ha]
  rw [Queue.held] at hb
  omega

theorem Even.joins (h : (of m).Even q) {a : Active R}
    (ha : q.mergeActive c.key now = .ok (some a)) :
    (of (m ++ [.asked (.enqueue c) now q] ++ [.told (some a) (q.withActive a)])).Even
      (q.withActive a) := by
  have hb := h.balance
  have hj := Queue.joins_of_active ha
  obtain ⟨b, hqb, rfl, -⟩ := Queue.mergeActive_parts ha
  rw [of_append, of_append]
  refine ⟨rfl, ?_⟩
  dsimp only [enter]
  rw [Queue.displaced_of_joins hj, Queue.turnsAway_of_joins hj]
  rw [Queue.held, hqb] at hb
  change _ = b.repeats + 1 + repeatsOf q.pending + _ + (_ + 0) + _ + (_ + 0)
  change _ = b.repeats + repeatsOf q.pending + _ + _ + _ + _ at hb
  omega

theorem Even.clears (h : (of m).Even q) (now : R) :
    (of (m ++ [.asked .clear now q])).Even { q with pending := [] } := by
  have hb := h.balance
  rw [of_append]
  refine ⟨h.current, ?_⟩
  rw [Queue.held] at hb
  dsimp only [enter, Queue.held, repeatsOf]
  omega

theorem Even.shows (h : (of m).Even q) {defers : Cue R → Bool} {c : Queued R}
    {pending : List (Queued R)} {ends : R} {a : Active R} (hn : q.active = none)
    (hf : Queue.takeFirst defers q.pending = some (c, pending))
    (ha : (q.popped pending).activate c now ends = .ok a) :
    (of (m ++ [.told (some a) ((q.popped pending).withActive a)])).Even
      ((q.popped pending).withActive a) := by
  have hb := h.balance
  have hr : a.repeats = c.repeats := Queue.activate_repeats ha
  have hp : repeatsOf q.pending = c.repeats + repeatsOf pending :=
    repeatsOf_perm (Queue.takeFirst_perm hf)
  rw [of_append]
  refine ⟨rfl, ?_⟩
  rw [Queue.held, hn] at hb
  dsimp only [enter, Queue.held, repeatsShown, Queue.popped, Queue.withActive, Option.elim] at hb ⊢
  omega

theorem Even.retires (h : (of m).Even q) :
    (of (m ++ [.told none (q.withActive none)])).Even (q.withActive none) := by
  have hb := h.balance
  have hc := h.current
  rw [of_append]
  refine ⟨rfl, ?_⟩
  dsimp only [enter]
  rw [hc]
  rw [Queue.held] at hb
  change _ = 0 + repeatsOf q.pending + _ + _ + _ + _
  omega

theorem even_lasting [Listener R L] : Lasting L (fun q m => (of m).Even q) fun _ _ => True where
  -- Where work breaks off, the cue that it was about may be lost.
  weaken _ := trivial
  aside _ _ h := ⟨h.current, h.balance⟩
  broken _ _ := trivial
  asks now hr h := by rwa [of_append, enter_of_plain _ hr]
  clears now h := h.clears now
  joins ha h := h.joins ha
  takes hq h := h.takes hq
  refuses _ _ _ := trivial
  spoils _ _ _ := trivial
  shows hn hf ha h := h.shows hn hf ha
  loses _ _ := trivial
  retires h := h.retires

end Account

/-- Whoever visits a desk, whatever its timers do and whatever the listener asks for meanwhile: once
all is done, the cues that have come in are those that are shown or wait, those that have come to
their end, those that made room or were cleared away, and those that found no room. A cue keeps its
repeats when it is shown. -/
theorem repeats_conserved [Scalar R] [Listener R L] {now : R} {room : Int} {length window : R}
    {l : L} {os : List (Occasion R L)} {u : PUnit} {t : Desk R L}
    (h : os.forM Desk.occur (Desk.empty now room length window l) = .ok u t) :
    (∃ s : Desk R (Scribe R L),
      os.forM Scribe.occur (Desk.empty now room length window l).noting = .ok u s ∧
      s.forget = t ∧
      let a := Account.of s.minutes
      a.asked = repeatsShown t.active + repeatsOf t.queue.pending + a.ended + a.evicted +
        a.cleared + a.dropped) ∧
    ∀ (q : Queue R) (c : Queued R) (now ends : R) (a : Active R),
      q.activate c now ends = .ok a → a.repeats = c.repeats := by
  refine ⟨?_, fun q c now ends a => Queue.activate_repeats⟩
  obtain ⟨s, hs, ht⟩ :=
    ok_of_seen ((occasions_mirror os (Desk.empty now room length window l).noting).symm.trans h)
  have he : Desk.Holds (fun q m => (Account.of m).Even q) s :=
    Scribe.holds_occasions Account.even_lasting
      (d := (Desk.empty now room length window l).noting) ⟨rfl, rfl⟩ hs
  subst ht
  exact ⟨s, hs, rfl, he.balance⟩

def notice [Scalar R] (title : String) (priority : Priority) : Request R :=
  .enqueue
    { kind := .status, title, duration := some (Scalar.ofInt 500), priority := some priority }

def narrowDesk : Desk Rat (Reactor Rat) :=
  .empty 0 1 1600 1200 { reactions := [⟨some "a", .request (notice "a" .normal), 1⟩] }

/-- One cue after another: `b` merges, makes room for `c` and is then turned away; `d` is cleared
away; and the end of `e` is due. -/
def rush : List (Occasion Rat (Reactor Rat)) :=
  [notice "a" .normal, notice "b" .low, notice "b" .low, notice "c" .normal, notice "b" .low,
    .interrupt, notice "d" .high, .clear, notice "e" .normal, notice "f" .normal].map
      (.visit ∘ .ask) ++ [.clock { now := 900 }, .due (.finish 3)]

theorem repeats_conserved_rush : ∃ (u : PUnit) (s : Desk Rat (Scribe Rat (Reactor Rat))),
    rush.forM Desk.occur narrowDesk = .ok u (Desk.forget s) ∧
      rush.forM Scribe.occur narrowDesk.noting = .ok u s ∧
      let a := Account.of s.minutes
      a.asked = repeatsShown s.active + repeatsOf s.queue.pending + a.ended + a.evicted +
        a.cleared + a.dropped ∧
      (a.asked, repeatsShown s.active, s.queue.pending.length) = (9, 1, 0) ∧
      (a.ended, a.evicted, a.cleared, a.dropped) = (4, 2, 1, 1) := by
  obtain ⟨u, s, hs, hf⟩ := ok_of_ended (r := rush.forM Scribe.occur narrowDesk.noting)
    (f := fun (_, s) =>
      let a := Account.of s.state.listener.minutes
      (a.asked, repeatsShown s.state.queue.active, s.state.queue.pending.length) == (9, 1, 0) &&
        (a.ended, a.evicted, a.cleared, a.dropped) == (4, 2, 1, 1)) (by decide +kernel)
  obtain ⟨hn, hr⟩ := Bool.and_eq_true_iff.mp hf
  have ht : rush.forM Desk.occur narrowDesk = .ok u (Desk.forget s) :=
    (occasions_mirror rush narrowDesk.noting).trans (congrArg (seen Desk.forget) hs)
  obtain ⟨s', hs', -, ha⟩ := (repeats_conserved ht).1
  cases hs'.symm.trans hs
  exact ⟨u, s, ht, hs, ha, eq_of_beq hn, eq_of_beq hr⟩

end Duel.Cue
