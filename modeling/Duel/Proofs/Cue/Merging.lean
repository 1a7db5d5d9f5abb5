import Duel.Proofs.Cue.Account
import Duel.Proofs.Double.Times

namespace Duel.Cue

open Scalar (Dated Same atMost within)
open Scalar.Dated (IsTime)

/-- A cue at hand, with the time at which one like it came last. -/
structure Mark (R : Type) where
  cue : Cue R
  last : R

def Minutes.times {R : Type} (m : Minutes R) : List R :=
  m.filterMap fun
    | .asked _ now _ => some now
    | .told .. => none

theorem Minutes.times_asked {R : Type} (m : Minutes R) (r : Request R) (now : R) (q : Queue R) :
    times (m ++ [.asked r now q]) = m.times ++ [now] :=
  List.filterMap_append

theorem Minutes.times_told {R : Type} (m : Minutes R) (notice : Option (Active R)) (q : Queue R) :
    times (m ++ [.told notice q]) = m.times :=
  List.filterMap_append.trans (List.append_nil _)

variable {R : Type} [Scalar R]

def Active.mark (a : Active R) : Mark R := ⟨a.toCue, a.mergedAt⟩

def Queued.mark (c : Queued R) : Mark R := ⟨c.toCue, c.mergedAt⟩

theorem countP_le_one {α : Type} {p : α → Bool} {l : List α}
    (h : l.Pairwise fun a b => p a = true → p b = false) : l.countP p ≤ 1 := by
  induction l with
  | nil => exact Nat.zero_le _
  | cons a l ih =>
    obtain ⟨ha, hl⟩ := List.pairwise_cons.mp h
    rw [List.countP_cons]
    split
    · have hz : l.countP p = 0 :=
        List.countP_eq_zero.mpr fun b hb => Bool.eq_false_iff.mp (ha b hb ‹_›)
      omega
    · exact ih hl

namespace Queue

def marks (q : Queue R) : List (Mark R) :=
  q.active.toList.map Active.mark ++ q.pending.map Queued.mark

/-- Whether a cue of a key that comes at a time can merge into one at hand. -/
def isOpen (q : Queue R) (key : String) (time : R) (e : Mark R) : Bool :=
  e.cue.key == key && within time e.last (q.window e.cue)

variable {q q' : Queue R} {key : String} {now time last : R} {c : Cue R} {e f : Mark R}

theorem isOpen_iff : q.isOpen key now e = true ↔
    e.cue.key = key ∧ within now e.last (q.window e.cue) = true := by
  rw [isOpen, Bool.and_eq_true, beq_iff_eq]

theorem isOpen_of_merges {b : Bool} (h : q.merges c last key now = .ok b) :
    q.isOpen key now ⟨c, last⟩ = b := by
  rw [merges] at h
  rw [isOpen]
  dsimp only
  split at h
  next hk =>
    obtain ⟨d, hd, h⟩ := except_bind_ok h
    rw [hk, within, hd]
    exact Except.ok.inj h
  next hk =>
    rw [Bool.eq_false_of_not_eq_true hk]
    exact Except.ok.inj h

omit [Scalar R] in
theorem marks_perm {d : Queued R} {rest : List (Queued R)} (hp : q.pending.Perm (d :: rest)) :
    q.marks.Perm (d.mark :: marks { q with pending := rest }) :=
  ((hp.map Queued.mark).append_left _).trans List.perm_middle

omit [Scalar R] in
theorem insertPending_marks (q : Queue R) (w : Queued R) :
    (q.insertPending w).marks.Perm (w.mark :: q.marks) :=
  marks_perm (q := q.insertPending w) (insert_perm w q.pending)

theorem receive_marks (h : q.receive c = some q') :
    q'.window = q.window ∧ q'.marks.Sublist q.marks := by
  obtain ⟨keeps, rfl, -⟩ := receive_keeps h
  exact ⟨rfl, (List.filter_sublist.map Queued.mark).append_left _⟩

theorem isOpen_of_none (hn : q.mergeActive key now = .ok none)
    (hp : q.mergePending key now q.pending = .ok none) (he : e ∈ q.marks) :
    q.isOpen key now e = false := by
  obtain he | he := List.mem_append.mp he
  · obtain ⟨b, hb, rfl⟩ := List.mem_map.mp he
    exact isOpen_of_merges (mergeActive_none hn (Option.mem_toList.mp hb))
  · obtain ⟨d, hd, rfl⟩ := List.mem_map.mp he
    exact isOpen_of_merges (mergePending_none hp hd)

theorem measure_eq {name : String} {x y : R} (h : measure name x = .ok y) :
    y = Scalar.measured x := by
  have h := measure_ok h
  rw [Scalar.measure?] at h
  split at h
  · cases h
  · exact (Option.some.inj h).symm

theorem queued_mark {w : Queued R} (h : q.queued c now = .ok w) :
    w.mark.last = Scalar.measured now ∧ w.mark.cue.key = c.key := by
  obtain ⟨_, last, -, hl, rfl⟩ := Field.both_ok (mapError_ok h)
  exact ⟨measure_eq hl, rfl⟩

theorem activate_mark {d : Queued R} {ends : R} {a : Active R}
    (h : q.activate d now ends = .ok a) : a.mark = ⟨d.toCue, Scalar.measured d.mergedAt⟩ := by
  obtain ⟨_, ⟨_, last⟩, -, hl, rfl⟩ := Field.both_ok (mapError_ok h)
  obtain ⟨_, _, -, hl, he⟩ := Field.both_ok hl
  obtain ⟨-, rfl⟩ := Prod.mk.inj he
  rw [Active.mark, ← measure_eq hl]

theorem countP_isOpen_le (h : q.marks.Pairwise fun e f => e.cue.key = f.cue.key →
    q.isOpen e.cue.key time e = false ∨ q.isOpen f.cue.key time f = false) :
    q.marks.countP (q.isOpen key time) ≤ 1 := by
  refine countP_le_one (h.imp fun {e f} hef he => Bool.eq_false_iff.mpr fun hf => ?_)
  have hek := (isOpen_iff.mp he).1
  have hfk := (isOpen_iff.mp hf).1
  subst hek
  obtain hef | hef := hef hfk.symm
  · exact Bool.eq_false_iff.mp hef he
  · exact Bool.eq_false_iff.mp hef (hfk ▸ hf)

end Queue

variable [Dated R]

/-- Times of a clock that never goes back. -/
structure Forward (ts : List R) : Prop where
  times : ∀ t ∈ ts, IsTime t
  sorted : ts.Pairwise fun t u => atMost t u = true

namespace Forward

variable {ts : List R} {now t : R}

theorem before (h : Forward (ts ++ [now])) : Forward ts :=
  ⟨fun t ht => h.times t (List.mem_append_left _ ht), (List.pairwise_append.mp h.sorted).1⟩

theorem now_isTime (h : Forward (ts ++ [now])) : IsTime now :=
  h.times now (List.mem_append_right ts (List.mem_singleton_self now))

theorem le_now (h : Forward (ts ++ [now])) (ht : t ∈ ts) : atMost t now = true :=
  (List.pairwise_append.mp h.sorted).2.2 t ht now (List.mem_singleton_self now)

end Forward

namespace Mark

variable {window : Cue R → R} {ts : List R} {now : R} {e f : Mark R} {es fs : List (Mark R)}

/-- The window of a cue was over at one of the times. -/
def Spent (window : Cue R → R) (ts : List R) (e : Mark R) : Prop :=
  ∃ t ∈ ts, IsTime t ∧ atMost e.last t = true ∧ within t e.last (window e.cue) = false

/-- Of two cues with one key, the one that came last earlier is spent. -/
def Apart (window : Cue R → R) (ts : List R) (e f : Mark R) : Prop :=
  e.cue.key = f.cue.key →
    atMost e.last f.last = true ∧ e.Spent window ts ∨
      atMost f.last e.last = true ∧ f.Spent window ts

def Stamped (ts : List R) (e : Mark R) : Prop := IsTime e.last ∧ ∃ t ∈ ts, Same e.last t

structure Spread (window : Cue R → R) (ts : List R) (es : List (Mark R)) : Prop where
  stamped : ∀ e ∈ es, e.Stamped ts
  apart : es.Pairwise (Apart window ts)

theorem Spent.since (h : e.Spent window ts) (now : R) : e.Spent window (ts ++ [now]) := by
  obtain ⟨t, ht, he⟩ := h
  exact ⟨t, List.mem_append_left _ ht, he⟩

/-- A window that was over does not open again. -/
theorem Spent.within_eq (h : e.Spent window ts) (hl : IsTime e.last) (ht : IsTime now)
    (hts : ∀ t ∈ ts, atMost t now = true) : within now e.last (window e.cue) = false := by
  obtain ⟨t, htm, htt, hle, hw⟩ := h
  refine Bool.eq_false_iff.mpr fun ho => Bool.eq_false_iff.mp hw ?_
  exact Dated.within_mono htt ht hl hl (Same.refl hl) hle (hts t htm) ho

theorem Apart.since (h : Apart window ts e f) (now : R) : Apart window (ts ++ [now]) e f :=
  fun hk => (h hk).imp (fun he => ⟨he.1, he.2.since now⟩) fun hf => ⟨hf.1, hf.2.since now⟩

theorem Apart.symm (h : Apart window ts e f) : Apart window ts f e :=
  fun hk => (h hk.symm).symm

theorem Stamped.since (h : e.Stamped ts) (now : R) : e.Stamped (ts ++ [now]) := by
  obtain ⟨hl, t, ht, hs⟩ := h
  exact ⟨hl, t, List.mem_append_left _ ht, hs⟩

theorem Stamped.le_now (h : e.Stamped ts) (hf : Forward (ts ++ [now])) :
    atMost e.last now = true := by
  obtain ⟨hl, t, ht, hs⟩ := h
  exact Dated.atMost_trans hs.1 (hf.le_now ht)

namespace Spread

theorem since (h : Spread window ts es) (now : R) : Spread window (ts ++ [now]) es :=
  ⟨fun e he => (h.stamped e he).since now, h.apart.imp fun ha => ha.since now⟩

theorem thin (h : Spread window ts es) (hs : fs.Sublist es) : Spread window ts fs :=
  ⟨fun e he => h.stamped e (hs.subset he), h.apart.sublist hs⟩

theorem perm (h : Spread window ts es) (hp : es.Perm fs) : Spread window ts fs :=
  ⟨fun e he => h.stamped e (hp.mem_iff.mpr he), (hp.pairwise_iff Apart.symm).mp h.apart⟩

theorem put (h : Spread window ts es) (hf : Forward (ts ++ [now])) (hl : IsTime e.last)
    (he : Same e.last now)
    (hs : ∀ f ∈ es, f.cue.key = e.cue.key → f.Spent window (ts ++ [now])) :
    Spread window (ts ++ [now]) (e :: es) := by
  have hnow : now ∈ ts ++ [now] := List.mem_append_right ts (List.mem_singleton_self now)
  refine ⟨List.forall_mem_cons.mpr ⟨⟨hl, now, hnow, he⟩, (h.since now).stamped⟩, ?_⟩
  refine List.pairwise_cons.mpr ⟨fun f hfm hk => .inr ⟨?_, hs f hfm hk.symm⟩, (h.since now).apart⟩
  exact Dated.atMost_trans ((h.stamped f hfm).le_now hf) he.2

theorem renew (h : Spread window ts (e :: es)) (hf : Forward (ts ++ [now]))
    (ho : within now e.last (window e.cue) = true) :
    Spread window (ts ++ [now]) (⟨e.cue, now⟩ :: es) := by
  refine (h.thin (List.sublist_cons_self e es)).put hf hf.now_isTime (Same.refl hf.now_isTime)
    fun f hfm hk => ?_
  obtain ⟨-, he⟩ | ⟨-, hs⟩ := (List.pairwise_cons.mp h.apart).1 f hfm hk.symm
  · -- Its window would have been over at a time before now.
    have hl := (h.stamped e List.mem_cons_self).1
    exact absurd ho (Bool.eq_false_iff.mp (he.within_eq hl hf.now_isTime fun t => hf.le_now))
  · exact hs.since now

theorem restamp (h : Spread window ts (e :: es)) {last : R} (ht : IsTime last)
    (hs : Same e.last last) : Spread window ts (⟨e.cue, last⟩ :: es) := by
  obtain ⟨⟨hl, t, htm, hse⟩, hes⟩ := List.forall_mem_cons.mp h.stamped
  obtain ⟨ha, hap⟩ := List.pairwise_cons.mp h.apart
  refine ⟨List.forall_mem_cons.mpr ⟨⟨ht, t, htm, hs.symm.trans hse⟩, hes⟩, ?_⟩
  refine List.pairwise_cons.mpr ⟨fun f hfm hk => ?_, hap⟩
  obtain ⟨hle, u, hu, hut, hlu, hw⟩ | ⟨hle, hf⟩ := ha f hfm hk
  · refine .inl ⟨Dated.atMost_trans hs.2 hle, u, hu, hut, Dated.atMost_trans hs.2 hlu, ?_⟩
    refine Bool.eq_false_iff.mpr fun ho => Bool.eq_false_iff.mp hw ?_
    exact Dated.within_mono hut hut hl ht hs hlu (Dated.atMost_refl hut) ho
  · exact .inr ⟨Dated.atMost_trans hle hs.1, hf⟩

end Spread

end Mark

namespace Queue

variable {q : Queue R} {key : String} {now time : R} {e : Mark R}

theorem merges_ok_of_isTime {c : Cue R} {last : R} (hl : IsTime last) (hn : IsTime now) :
    ∃ b, q.merges c last key now = .ok b := by
  obtain ⟨d, hd⟩ := Dated.sub_isTime hn hl
  rw [merges, hd]
  split
  · exact ⟨_, rfl⟩
  · exact ⟨_, rfl⟩

theorem joins_eq (c : Cue R) (hn : IsTime now) (h : ∀ e ∈ q.marks, IsTime e.last) :
    q.joins c now = q.marks.any (q.isOpen c.key now) := by
  obtain ⟨merged, hp⟩ := q.mergePending_ok c.key now q.pending fun d hd =>
    merges_ok_of_isTime (h d.mark (List.mem_append_right _ (List.mem_map_of_mem hd))) hn
  obtain ha | ⟨a, -, ha⟩ := q.mergeActive_ok c.key now fun a hqa =>
    merges_ok_of_isTime
      (h a.mark (List.mem_append_left _ (List.mem_map_of_mem (Option.mem_toList.mpr hqa)))) hn
  · cases merged with
    | none =>
      rw [not_joins ha hp, eq_comm, List.any_eq_false]
      exact fun e he => Bool.eq_false_iff.mp (isOpen_of_none ha hp he)
    | some pending =>
      obtain ⟨before, d, after, hq, -, hd⟩ := mergePending_parts hp
      rw [joins_of_merged hp, eq_comm, List.any_eq_true]
      refine ⟨d.mark, List.mem_append_right _ (List.mem_map_of_mem ?_), isOpen_of_merges hd⟩
      rw [hq]
      exact List.mem_append_right before List.mem_cons_self
  · obtain ⟨b, hb, -, ho⟩ := mergeActive_parts ha
    rw [joins_of_active ha, eq_comm, List.any_eq_true]
    refine ⟨b.mark, List.mem_append_left _ (List.mem_map_of_mem ?_), isOpen_of_merges ho⟩
    exact Option.mem_toList.mpr hb

theorem isOpen_of_spent {ts : List R} (h : e.Spent q.window ts) (hl : IsTime e.last)
    (ht : IsTime time) (hf : ∀ t ∈ ts, atMost t time = true) : q.isOpen key time e = false := by
  rw [isOpen, h.within_eq hl ht hf, Bool.and_false]

end Queue

/-- As long as the clock has not gone back, cues of one key are apart. -/
def Queue.Sparse (q : Queue R) (m : Minutes R) : Prop :=
  Forward m.times → Mark.Spread q.window m.times q.marks

namespace Queue.Sparse

variable {q q' : Queue R} {m : Minutes R} {c : Cue R} {now : R}

theorem thin (h : q.Sparse m) (hw : q'.window = q.window) (hs : q'.marks.Sublist q.marks) :
    q'.Sparse m := by
  intro hf
  rw [hw]
  exact (h hf).thin hs

theorem asked (h : q.Sparse m) (r : Request R) (now : R) (p : Queue R) :
    q.Sparse (m ++ [.asked r now p]) := by
  intro hf
  rw [Minutes.times_asked] at hf ⊢
  exact (h hf.before).since now

theorem told (h : q.Sparse m) (notice : Option (Active R)) (p : Queue R) :
    q.Sparse (m ++ [.told notice p]) := by
  intro hf
  rw [Minutes.times_told] at hf ⊢
  exact h hf

theorem joins (h : q.Sparse m) {a : Active R} (ha : q.mergeActive c.key now = .ok (some a)) :
    (q.withActive a).Sparse (m ++ [.asked (.enqueue c) now q]) := by
  intro hf
  rw [Minutes.times_asked] at hf ⊢
  obtain ⟨b, hb, rfl, hm⟩ := mergeActive_parts ha
  have hs := h hf.before
  rw [marks, hb] at hs
  exact hs.renew hf (isOpen_iff.mp (isOpen_of_merges hm)).2

theorem takes (h : q.Sparse m) (hq : q.Takes c now q') :
    q'.Sparse (m ++ [.asked (.enqueue c) now q]) := by
  cases hq with
  | merged hn hp =>
    intro hf
    rw [Minutes.times_asked] at hf ⊢
    obtain ⟨before, d, after, hq, rfl, hm⟩ := mergePending_parts hp
    have hd : q.pending.Perm (d :: (before ++ after)) := hq ▸ List.perm_middle
    have hs := (h hf.before).perm (marks_perm hd)
    have ho := (isOpen_iff.mp (isOpen_of_merges hm)).2
    let d' : Queued R := { d with repeats := d.repeats + 1, mergedAt := now }
    exact (hs.renew hf ho).perm
      (marks_perm (q := { q with pending := before ++ d' :: after }) List.perm_middle).symm
  | dropped hn hp hr => exact h.asked _ now q
  | entered hn hp hr hw =>
    rename_i q' w
    intro hf
    rw [Minutes.times_asked] at hf ⊢
    obtain ⟨hl, hk⟩ := queued_mark hw
    obtain ⟨hw, ht⟩ := receive_marks hr
    have hs := h hf.before
    -- All that could have taken the cue in are closed to it, now and from now on.
    have hc : ∀ f ∈ q'.marks, f.cue.key = w.mark.cue.key → f.Spent q.window (m.times ++ [now]) := by
      intro f hfm hfk
      have hclosed := isOpen_of_none hn hp (ht.subset hfm)
      rw [isOpen, hfk.trans hk, beq_self_eq_true, Bool.true_and] at hclosed
      have hle := (hs.stamped f (ht.subset hfm)).le_now hf
      exact ⟨now, List.mem_append_right _ (List.mem_singleton_self now), hf.now_isTime, hle,
        hclosed⟩
    have hs := (hs.thin ht).put hf (hl ▸ Dated.isTime_measured hf.now_isTime)
      (hl ▸ (Dated.same_measured hf.now_isTime).symm) hc
    rw [← hw] at hs
    exact hs.perm (insertPending_marks q' w).symm

theorem shows (h : q.Sparse m) {defers : Cue R → Bool} {d : Queued R}
    {pending : List (Queued R)} {ends : R} {a : Active R} (hn : q.active = none)
    (hf : takeFirst defers q.pending = some (d, pending))
    (ha : (q.popped pending).activate d now ends = .ok a) :
    ((q.popped pending).withActive (some a)).Sparse m := by
  intro hm
  have hs := (h hm).perm (marks_perm (takeFirst_perm hf))
  have hd := (hs.stamped _ List.mem_cons_self).1
  have hs := hs.restamp (Dated.isTime_measured hd) (Dated.same_measured hd)
  rw [marks, hn] at hs
  rw [marks, withActive, Option.toList, List.map_singleton, activate_mark ha]
  exact hs

theorem lasting {L : Type} [Listener R L] :
    Lasting L (Queue.Sparse (R := R)) (Queue.Sparse (R := R)) where
  weaken h := h
  aside _ _ h := h.thin rfl (List.Sublist.refl _)
  broken _ h := h.thin rfl (List.Sublist.refl _)
  asks now _ h := h.asked _ now _
  clears now h := (h.asked .clear now _).thin rfl ((List.nil_sublist _).append_left _)
  joins ha h := (h.joins ha).told _ _
  takes hq h := h.takes hq
  refuses c now h := h.asked (.enqueue c) now _
  spoils now hr h := by
    obtain ⟨hw, ht⟩ := receive_marks hr
    exact (h.asked _ now _).thin hw ht
  shows hn hf ha h := (h.shows hn hf ha).told _ _
  loses hf h := h.thin rfl (((takeFirst_sublist hf).map Queued.mark).append_left _)
  retires {q m} h := by
    have hs : (q.withActive none).Sparse m := h.thin rfl (List.sublist_append_right _ _)
    exact hs.told none _

end Queue.Sparse

theorem sparse_empty (room : Int) (length window : R) :
    (Queue.empty room length window).Sparse [] :=
  fun _ => ⟨List.forall_mem_nil _, .nil⟩

variable {L : Type} [Listener R L]

/-- Whoever visits a desk and whatever its timers do, as long as its clock does not go back: at any
moment, from then on, at most one cue at hand is open to those of a key, which is the one that they
merge into. Of two cues with one key, the one that came last earlier is closed for good. The clock
may be one of doubles: a later time is not nearer to an earlier one when their difference is
rounded. -/
theorem merges_into_one (now : R) (room : Int) (length window : R) (l : L)
    (os : List (Occasion R L)) :
    let t := Scribe.afterOccasions (Desk.empty now room length window l).noting os
    t.forget = (Desk.empty now room length window l).afterOccasions os ∧
      ∀ q m, Minutes.Shows t.queue t.minutes q m → ∀ time, Forward (Minutes.times m ++ [time]) →
        (∀ key, q.marks.countP (q.isOpen key time) ≤ 1) ∧
        (∀ c, q.joins c time = q.marks.any (q.isOpen c.key time)) ∧
        q.marks.Pairwise fun e f => e.cue.key = f.cue.key →
          atMost e.last f.last = true ∧ (∀ later, IsTime later → atMost time later = true →
            q.isOpen e.cue.key later e = false) ∨
          atMost f.last e.last = true ∧ (∀ later, IsTime later → atMost time later = true →
            q.isOpen f.cue.key later f = false) := by
  have ht := Scribe.holds_afterOccasions (d := (Desk.empty now room length window l).noting)
    (Ever.lasting Queue.Sparse.lasting fun _ _ r now h => h.asked r now _) os
    (Ever.nil (sparse_empty room length window))
  refine ⟨forget_afterOccasions _ os, fun q m hq time hf => ?_⟩
  have hs := ht q m hq hf.before
  have hpast (later : R) (hl : atMost time later = true) :
      ∀ t ∈ Minutes.times m, atMost t later = true :=
    fun t htm => Dated.atMost_trans (hf.le_now htm) hl
  have hclosed {e : Mark R} (he : e ∈ q.marks) (h : e.Spent q.window m.times) :
      ∀ later, IsTime later → atMost time later = true → q.isOpen e.cue.key later e = false :=
    fun later hlt hl => Queue.isOpen_of_spent h (hs.stamped e he).1 hlt (hpast later hl)
  have hp : q.marks.Pairwise fun e f => e.cue.key = f.cue.key →
      atMost e.last f.last = true ∧ (∀ later, IsTime later → atMost time later = true →
        q.isOpen e.cue.key later e = false) ∨
      atMost f.last e.last = true ∧ (∀ later, IsTime later → atMost time later = true →
        q.isOpen f.cue.key later f = false) :=
    hs.apart.imp_of_mem fun {e f} he hf h hk => (h hk).imp (fun h => ⟨h.1, hclosed he h.2⟩)
      fun h => ⟨h.1, hclosed hf h.2⟩
  have hnow := hf.now_isTime
  refine ⟨fun key => Queue.countP_isOpen_le (hp.imp fun h hk => ?_),
    fun c => Queue.joins_eq c hnow fun e he => (hs.stamped e he).1, hp⟩
  exact (h hk).imp (fun he => he.2 time hnow (Dated.atMost_refl hnow))
    fun hf => hf.2 time hnow (Dated.atMost_refl hnow)

def pairDesk : Desk Number (Reactor Number) :=
  .empty (.double 0.2) 8 5000 1200 { reactions := [⟨some "a", .request (notice "b" .normal), 1⟩] }

/-- A cue comes three times; the first two are a rounded window apart and merge, and the third one
comes too late for that. -/
def latecomers : List (Occasion Number (Reactor Number)) :=
  [.visit (.ask (notice "a" .normal)), .clock { now := .double 1200.2 }, .due .resume,
    .visit (.ask (notice "a" .normal)), .clock { now := .double 2400.5 },
    .visit (.ask (notice "a" .normal))]

theorem merges_into_one_latecomers :
    let t := Scribe.afterOccasions pairDesk.noting latecomers
    Forward (Minutes.times t.minutes ++ [Number.double 2500]) ∧
      t.queue.marks.map (fun e => (e.cue.title, e.last.toDouble.toBits)) =
        [("a", Float.toBits 1200.2), ("b", Float.toBits 0.2), ("a", Float.toBits 2400.5)] ∧
      ∀ key, t.queue.marks.countP (t.queue.isOpen key (.double 2500)) ≤ 1 := by
  have ht : ∀ t ∈ Minutes.times (Scribe.afterOccasions pairDesk.noting latecomers).minutes ++
      [.double 2500], Number.IsTime t := by
    decide +kernel
  have hf : Forward (Minutes.times (Scribe.afterOccasions pairDesk.noting latecomers).minutes ++
      [Number.double 2500]) :=
    ⟨ht, by decide +kernel⟩
  have hm := (merges_into_one (.double 0.2) 8 5000 1200 pairDesk.listener latecomers).2
  exact ⟨hf, by decide +kernel, (hm _ _ .now _ hf).1⟩

end Duel.Cue
