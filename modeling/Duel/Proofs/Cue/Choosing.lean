import Duel.Proofs.Cue.Lasting
import Duel.Proofs.Cue.Pending
import Duel.Proofs.Cue.Account
import Duel.Proofs.Cue.Restarting

namespace Duel.Cue

variable {R L : Type}

section Line

variable {n : Nat} {q : Queue R}

/-- A cue waits in front of those of a lower rank, and of those of its rank that came later. -/
def Queued.Ahead (c d : Queued R) : Prop :=
  d.rank < c.rank ∨ c.rank = d.rank ∧ c.number < d.number

theorem Queued.Ahead.rank_le {c d : Queued R} (h : c.Ahead d) : d.rank ≤ c.rank := by
  obtain h | ⟨h, -⟩ := h
  · exact Nat.le_of_lt h
  · exact Nat.le_of_eq h.symm

structure Queue.InLine (n : Nat) (q : Queue R) : Prop where
  sorted : q.pending.Pairwise Queued.Ahead
  distinct : (q.pending.map (·.number)).Nodup
  counted : ∀ c ∈ q.pending, c.number ≤ q.lastNumber
  room : q.room = n
  fits : q.pending.length ≤ n

namespace Queue

theorem insert_sorted {c : Queued R} {pending : List (Queued R)}
    (h : pending.Pairwise Queued.Ahead) (hn : ∀ d ∈ pending, d.number < c.number) :
    (insert c pending).Pairwise Queued.Ahead := by
  induction pending with
  | nil => exact List.pairwise_singleton _ _
  | cons d rest ih =>
    obtain ⟨hd, hrest⟩ := List.pairwise_cons.mp h
    obtain ⟨hdn, hn⟩ := List.forall_mem_cons.mp hn
    rw [insert]
    split
    · rename_i hc
      refine List.pairwise_cons.mpr ⟨fun e he => .inl ?_, h⟩
      obtain rfl | he := List.mem_cons.mp he
      · exact hc
      · exact Nat.lt_of_le_of_lt (hd e he).rank_le hc
    · rename_i hc
      -- Within its rank `c` goes last, since it has the highest number.
      refine List.pairwise_cons.mpr ⟨fun e he => ?_, ih hrest hn⟩
      obtain rfl | he := List.mem_cons.mp ((insert_perm c rest).mem_iff.mp he)
      · obtain hr | hr := Nat.lt_or_eq_of_le (Nat.le_of_not_lt hc)
        · exact .inl hr
        · exact .inr ⟨hr.symm, hdn⟩
      · exact hd e he

namespace InLine

theorem thin (h : q.InLine n) {q' : Queue R} (hs : q'.pending.Sublist q.pending)
    (hr : q'.room = q.room) (hl : q.lastNumber ≤ q'.lastNumber) : q'.InLine n where
  sorted := h.sorted.sublist hs
  distinct := h.distinct.sublist (hs.map _)
  counted c hc := Nat.le_trans (h.counted c (hs.subset hc)) hl
  room := hr.trans h.room
  fits := Nat.le_trans hs.length_le h.fits

theorem withActive (h : q.InLine n) (a : Option (Active R)) : (q.withActive a).InLine n :=
  h.thin (List.Sublist.refl _) rfl (Nat.le_refl _)

theorem popped (h : q.InLine n) {defers : Cue R → Bool} {c : Queued R} {rest : List (Queued R)}
    (hf : takeFirst defers q.pending = some (c, rest)) : (q.popped rest).InLine n :=
  h.thin (takeFirst_sublist hf) rfl (Nat.le_refl _)

theorem insertPending (h : q.InLine n) {c : Queued R} (hc : c.number = q.lastNumber)
    (hn : ∀ d ∈ q.pending, d.number < c.number) (hf : q.pending.length < n) :
    (q.insertPending c).InLine n := by
  have hp : (insert c q.pending).Perm (c :: q.pending) := insert_perm c q.pending
  refine ⟨insert_sorted h.sorted hn, ?_, fun d hd => ?_, h.room, ?_⟩
  · refine ((hp.map (·.number)).nodup_iff).mpr (List.nodup_cons.mpr ⟨fun hm => ?_, h.distinct⟩)
    obtain ⟨d, hd, he⟩ := List.mem_map.mp hm
    exact absurd he (Nat.ne_of_lt (hn d hd))
  · obtain rfl | hd := List.mem_cons.mp (hp.mem_iff.mp hd)
    · exact Nat.le_of_eq hc
    · exact h.counted d hd
  · exact Nat.le_trans (Nat.le_of_eq hp.length_eq) hf

theorem replace (h : q.InLine n) {before after : List (Queued R)} {c d : Queued R}
    (hq : q.pending = before ++ c :: after) (hr : d.rank = c.rank) (hn : d.number = c.number) :
    InLine n { q with pending := before ++ d :: after } := by
  have hs := h.sorted
  have hd := h.distinct
  have hc := h.counted
  have hf := h.fits
  rw [hq] at hs hd hc hf
  refine ⟨?_, ?_, fun e he => ?_, h.room, ?_⟩
  · rw [List.pairwise_append, List.pairwise_cons] at hs ⊢
    obtain ⟨hb, ⟨hca, ha⟩, hba⟩ := hs
    refine ⟨hb, ⟨fun e he => ?_, ha⟩, fun e he => List.forall_mem_cons.mpr ⟨?_, fun f hf => ?_⟩⟩
    · have := hca e he
      rwa [Queued.Ahead, ← hr, ← hn] at this
    · have := hba e he c List.mem_cons_self
      rwa [Queued.Ahead, ← hr, ← hn] at this
    · exact hba e he f (List.mem_cons_of_mem c hf)
  · rwa [List.map_append, List.map_cons, ← hn, ← List.map_cons, ← List.map_append] at hd
  · obtain he | he := List.mem_append.mp he
    · exact hc e (List.mem_append_left _ he)
    · obtain rfl | he := List.mem_cons.mp he
      · exact hn ▸ hc c (List.mem_append_right before List.mem_cons_self)
      · exact hc e (List.mem_append_right before (List.mem_cons_of_mem c he))
  · rwa [List.length_append, List.length_cons] at hf ⊢

variable [Scalar R] {c : Cue R} {now : R}

omit [Scalar R] in
theorem receive (h : q.InLine n) {q' : Queue R} (hr : q.receive c = some q') : q'.InLine n := by
  obtain ⟨keeps, rfl, -⟩ := receive_keeps hr
  exact h.thin List.filter_sublist rfl (Nat.le_succ _)

theorem takes (h : q.InLine n) (h0 : 0 < n) {q' : Queue R} (hq : q.Takes c now q') :
    q'.InLine n := by
  cases hq with
  | merged hn hp =>
    obtain ⟨before, d, after, hq, rfl, -⟩ := mergePending_parts hp
    exact h.replace hq rfl rfl
  | dropped hn hp hr => exact h
  | entered hn hp hr hw =>
    rename_i q' w
    have hl : w.number = q'.lastNumber := (queued_ok hw).1
    have hi : q'.InLine n := h.receive hr
    obtain ⟨keeps, rfl, hf⟩ := receive_keeps hr
    refine hi.insertPending hl (fun d hd => ?_) ?_
    · rw [hl]
      exact Nat.lt_succ_of_le (h.counted d (List.filter_sublist.subset hd))
    · rw [h.room] at hf
      exact hf h0 h.fits

end InLine

end Queue

structure Queue.EverInLine (n : Nat) (q : Queue R) (m : Minutes R) : Prop where
  now : q.InLine n
  noted : ∀ e ∈ m, e.queue.InLine n

namespace Queue.EverInLine

variable {q' : Queue R} {m : Minutes R} {e : Entry R}

theorem become (h : q.EverInLine n m) (hq : q'.InLine n) : q'.EverInLine n m := ⟨hq, h.noted⟩

theorem enter (h : q.EverInLine n m) (hq : q'.InLine n) (he : e.queue.InLine n) :
    q'.EverInLine n (m ++ [e]) :=
  ⟨hq, List.forall_mem_append.mpr ⟨h.noted, List.forall_mem_singleton.mpr he⟩⟩

theorem lasting [Scalar R] [Listener R L] (h0 : 0 < n) :
    Lasting L (Queue.EverInLine n) (Queue.EverInLine n) where
  weaken h := h
  aside _ _ h := h.become (h.now.thin (List.Sublist.refl _) rfl (Nat.le_refl _))
  broken _ h := h.become (h.now.thin (List.Sublist.refl _) rfl (Nat.le_refl _))
  asks _ _ h := h.enter h.now h.now
  clears _ h := h.enter (h.now.thin (List.nil_sublist _) rfl (Nat.le_refl _)) h.now
  joins _ h :=
    (h.enter (e := .asked _ _ _) h.now h.now).enter (h.now.withActive _) (h.now.withActive _)
  takes hq h := h.enter (h.now.takes h0 hq) h.now
  refuses _ _ h := h.enter h.now h.now
  spoils _ hr h := h.enter (h.now.receive hr) h.now
  shows _ hf _ h := h.enter ((h.now.popped hf).withActive _) ((h.now.popped hf).withActive _)
  loses hf h := h.become (h.now.popped hf)
  retires h := h.enter (h.now.withActive none) (h.now.withActive none)

end Queue.EverInLine

theorem inLine_empty (room : Int) (length window : R) :
    (Queue.empty room length window).InLine (max 1 room).toNat :=
  { sorted := .nil
    distinct := List.nodup_nil
    counted := fun _ hc => absurd hc List.not_mem_nil
    room := rfl
    fits := Nat.zero_le _ }

/-- Whoever visits a desk, whatever its timers do and whatever the listener asks for meanwhile: the
cues that wait are in line in the end, as well as each time when something is asked or told. -/
theorem waits_in_line [Scalar R] [Listener R L] (now : R) (room : Int) (length window : R) (l : L)
    (os : List (Occasion R L)) :
    let t := Scribe.afterOccasions (Desk.empty now room length window l).noting os
    t.forget = (Desk.empty now room length window l).afterOccasions os ∧
      ∀ q ∈ t.queue :: t.minutes.map Entry.queue,
        q.pending.Pairwise Queued.Ahead ∧ (q.pending.map (·.number)).Nodup ∧
          (q.pending.length : Int) ≤ max 1 room := by
  have h0 : 0 < (max 1 room).toNat := by omega
  have ht := Scribe.holds_afterOccasions (Queue.EverInLine.lasting h0) os
    (d := (Desk.empty now room length window l).noting)
    ⟨inLine_empty room length window, List.forall_mem_nil _⟩
  refine ⟨forget_afterOccasions _ os, fun q hq => ?_⟩
  have hl : q.InLine (max 1 room).toNat := by
    obtain rfl | hq := List.mem_cons.mp hq
    · exact ht.now
    · obtain ⟨e, he, rfl⟩ := List.mem_map.mp hq
      exact ht.noted e he
  have hf := hl.fits
  exact ⟨hl.sorted, hl.distinct, by omega⟩

end Line

variable [Scalar R]

/-- Which cues wait after something has been asked or told. -/
inductive Entry.Leaves : Entry R → List (Queued R) → Prop
  | told (notice : Option (Active R)) (q : Queue R) : Leaves (.told notice q) q.pending
  | asked {r : Request R} (hr : r.isPlain = true) (now : R) (q : Queue R) :
    Leaves (.asked r now q) q.pending
  | cleared (now : R) (q : Queue R) : Leaves (.asked .clear now q) []
  | joined {c : Cue R} {now : R} {q : Queue R} {a : Active R}
    (ha : q.mergeActive c.key now = .ok (some a)) : Leaves (.asked (.enqueue c) now q) q.pending
  | taken {c : Cue R} {now : R} {q q' : Queue R} (hq : q.Takes c now q') :
    Leaves (.asked (.enqueue c) now q) q'.pending

inductive Minutes.Leaves : Minutes R → List (Queued R) → Prop
  | nil : Leaves [] []
  | enter (m : Minutes R) {e : Entry R} {pending : List (Queued R)} (h : e.Leaves pending) :
    Leaves (m ++ [e]) pending

/-- A cue is taken out of the line that is in front of all the others that are not held back. -/
structure Chosen (held : Cue R → Bool) (pending rest : List (Queued R)) (c : Queued R) : Prop where
  parts : pending.Perm (c :: rest)
  free : Queue.isHeld held c = false
  first : ∀ d ∈ rest, Queue.isHeld held d = false → c.Ahead d

/-- What is told of a cue: that it is counted again, or that it has been chosen. -/
def Minutes.Justifies (held : Cue R → Bool) (m : Minutes R) (a : Active R) (q : Queue R) : Prop :=
  match (Account.of m).current with
  | some b => a.id = b.id ∧ a.repeats = b.repeats + 1
  | none => ∃ pending c, m.Leaves pending ∧ Chosen held pending q.pending c ∧ a.toCue = c.toCue

def Minutes.Just (held : Cue R → Bool) (m : Minutes R) : Prop :=
  ∀ (k : Minutes R) a q, (k ++ [.told (some a) q]) <+: m → k.Justifies held a q

variable {held : Cue R → Bool} {n : Nat} {q : Queue R} {m : Minutes R} {e : Entry R}

theorem Minutes.Just.enter (h : m.Just held)
    (he : ∀ a q, e = .told (some a) q → m.Justifies held a q) : Minutes.Just held (m ++ [e]) := by
  intro k a q hp
  obtain heq | hp := List.prefix_concat_iff.mp hp
  · obtain ⟨rfl, hl⟩ := List.append_inj' heq rfl
    exact he a q (List.singleton_inj.mp hl).symm
  · exact h k a q hp

theorem Minutes.Just.asked (h : m.Just held) (r : Request R) (now : R) (q : Queue R) :
    Minutes.Just held (m ++ [.asked r now q]) :=
  h.enter fun _ _ he => by cases he

theorem Minutes.Just.ended (h : m.Just held) (q : Queue R) :
    Minutes.Just held (m ++ [.told none q]) :=
  h.enter fun _ _ he => by cases he

structure Queue.Choosy (held : Cue R → Bool) (n : Nat) (q : Queue R) (m : Minutes R) : Prop where
  line : q.InLine n
  waits : m.Leaves q.pending
  current : (Account.of m).current = q.active
  just : m.Just held

namespace Queue.Choosy

omit [Scalar R] in
theorem chosen_of_takeFirst {pending rest : List (Queued R)} {c : Queued R}
    (hs : pending.Pairwise Queued.Ahead) (h : takeFirst held pending = some (c, rest)) :
    Chosen held pending rest c := by
  have hp := takeFirst_perm h
  obtain ⟨before, after, rfl, rfl, hc, hb⟩ := takeFirst_parts h
  refine ⟨hp, hc, fun d hd hf => ?_⟩
  obtain hd | hd := List.mem_append.mp hd
  · exact absurd (hb d hd) (Bool.eq_false_iff.mp hf)
  · exact (List.pairwise_cons.mp (List.pairwise_append.mp hs).2.1).1 d hd

variable {q' : Queue R} {c : Cue R} {now : R}

theorem joins (h : q.Choosy held n m) {a : Active R}
    (ha : q.mergeActive c.key now = .ok (some a)) :
    (q.withActive a).Choosy held n
      (m ++ [.asked (.enqueue c) now q] ++ [.told (some a) (q.withActive a)]) := by
  obtain ⟨b, hb, hab, -⟩ := mergeActive_parts ha
  have hc : (Account.of (m ++ [.asked (.enqueue c) now q])).current = some b := by
    rw [Account.of_append]
    exact h.current.trans hb
  refine ⟨h.line.withActive a, .enter _ (.told _ _), ?_, (h.just.asked _ now q).enter ?_⟩
  · rw [Account.of_append]
    rfl
  · rintro _ _ ⟨⟩
    rw [Minutes.Justifies, hc, hab]
    exact ⟨rfl, rfl⟩

theorem takes (h : q.Choosy held n m) (h0 : 0 < n) (hq : q.Takes c now q') :
    q'.Choosy held n (m ++ [.asked (.enqueue c) now q]) := by
  refine ⟨h.line.takes h0 hq, .enter m (.taken hq), ?_, h.just.asked _ now q⟩
  rw [Account.of_append]
  exact h.current.trans (takes_active hq).symm

theorem shows (h : q.Choosy held n m) {d : Queued R} {pending : List (Queued R)} {ends : R}
    {a : Active R} (hn : q.active = none) (hf : takeFirst held q.pending = some (d, pending))
    (ha : (q.popped pending).activate d now ends = .ok a) :
    ((q.popped pending).withActive (some a)).Choosy held n
      (m ++ [.told (some a) ((q.popped pending).withActive (some a))]) := by
  refine ⟨(h.line.popped hf).withActive _, .enter m (.told _ _), ?_, h.just.enter ?_⟩
  · rw [Account.of_append]
    rfl
  · rintro _ _ ⟨⟩
    rw [Minutes.Justifies, h.current, hn]
    exact ⟨_, d, h.waits, chosen_of_takeFirst h.line.sorted hf, activate_cue ha⟩

theorem lasting [Listener R L] (hd : ∀ l : L, Listener.defers l = held) (h0 : 0 < n) :
    Lasting L (Queue.Choosy held n) fun _ m => m.Just held where
  weaken h := h.just
  aside _ _ h := ⟨h.line.thin (List.Sublist.refl _) rfl (Nat.le_refl _), h.waits, h.current, h.just⟩
  broken _ h := h
  asks now hr h := by
    refine ⟨h.line, .enter _ (.asked hr now _), ?_, h.just.asked _ now _⟩
    rw [Account.of_append, Account.enter_of_plain _ hr]
    exact h.current
  clears now h := by
    refine ⟨h.line.thin (List.nil_sublist _) rfl (Nat.le_refl _), .enter _ (.cleared now _), ?_,
      h.just.asked .clear now _⟩
    rw [Account.of_append]
    exact h.current
  joins ha h := h.joins ha
  takes hq h := h.takes h0 hq
  refuses c now h := h.just.asked (.enqueue c) now _
  spoils now _ h := h.just.asked _ now _
  shows hn hf ha h := h.shows hn (hd _ ▸ hf) ha
  loses _ h := h.just
  retires h := by
    refine ⟨h.line.withActive none, .enter _ (.told none _), ?_, h.just.ended _⟩
    rw [Account.of_append]
    rfl

end Queue.Choosy

theorem choosy_empty (room : Int) (length window : R) :
    (Queue.empty room length window).Choosy held (max 1 room).toNat [] :=
  ⟨inLine_empty room length window, .nil, rfl, fun _ _ _ hp => by simp at hp⟩

open Desk in
/-- A desk whose listener holds cues back by a fixed rule. Whatever happens there, without breaking
off: if in the end no cue is shown, all that wait are held back. And whenever the listener is told
of a cue, it is the last one, counted again, or the one that was in front of all others that were
not held back. -/
theorem shows_first_free [Listener R L] (hL : Thrifty L) {held : Cue R → Bool}
    (hd : ∀ l : L, Listener.defers l = held) (now : R) (room : Int) (length window : R) (l : L)
    (os : List (Occasion R L)) :
    let d : Desk R L := Desk.empty now room length window l
    let r := os.forM Scribe.occur d.noting
    os.forM occur d = seen forget r ∧
      (∀ u (t : Desk R L), os.forM occur d = .ok u t → t.active = none →
        ∀ c ∈ t.queue.pending, Queue.isHeld held c = true) ∧
      Minutes.Just held (Desk.minutes (left r)) := by
  have h0 : 0 < (max 1 room).toNat := by omega
  have hr : Resting held True (Desk.empty now room length window l) :=
    ⟨rfl, fun _ _ => List.forall_mem_nil _⟩
  have hs := Comes.forM (fun o d h => Resting.occur_reaches hL hd (d := d) h o) os hr
  have hj := Comes.forM (fun o d h => Scribe.occur_comes (Queue.Choosy.lasting hd h0) o (d := d) h)
    os (s := (Desk.empty now room length window l).noting) (choosy_empty room length window)
  refine ⟨occasions_mirror os (Desk.empty now room length window l).noting, fun u t ht => ?_, ?_⟩
  · exact (hs.of_ok ht).blocked trivial
  · exact (hj.mono (fun _ _ h => h.just) fun _ h => h).left

/-- A listener that holds back what is about turns, and has a request for each notice. -/
structure Porter where
  requests : List (Request Rat)

def Porter.holds (c : Cue Rat) : Bool := c.kind == .turn

instance : Listener Rat Porter where
  defers _ := Porter.holds
  note l _ := l
  next l _ place :=
    match place, l.requests with
    | 0, r :: rest => some (r, 1, ⟨rest⟩)
    | _, _ => none
  credit l := l.requests.length
  resume l := l

theorem thrifty_porter : Thrifty Porter where
  pays {l _ _ place _ _} h := by
    obtain ⟨requests⟩ := l
    cases place with
    | zero =>
      cases requests with
      | nil => cases h
      | cons r rest =>
        cases h
        exact Nat.lt_succ_self _
    | succ place => cases h
  notes _ _ := Nat.le_refl _
  resumes _ := Nat.le_refl _

def turn : Request Rat := .enqueue { kind := .turn, title := "t", priority := some .urgent }

def porterDesk : Desk Rat Porter :=
  .empty 0 8 1600 1200 ⟨[notice "b" .low, notice "c" .high, .interrupt, .poke]⟩

def bustle : List (Occasion Rat Porter) :=
  [.visit (.ask turn), .visit (.ask (notice "a" .normal)), .visit (.ask (.advance 500)),
    .visit (.ask .interrupt), .visit (.ask .interrupt)]

theorem shows_first_free_porter : Thrifty Porter ∧
    ∃ (u : PUnit) (t : Desk Rat Porter), bustle.forM Desk.occur porterDesk = .ok u t ∧
      t.active = none ∧ t.queue.pending.map (·.title) = ["t"] ∧
      (∀ c ∈ t.queue.pending, Queue.isHeld Porter.holds c = true) ∧
      Minutes.Just Porter.holds
        (Desk.minutes (left (bustle.forM Scribe.occur porterDesk.noting))) := by
  obtain ⟨-, ht, hj⟩ := shows_first_free thrifty_porter (fun _ => rfl) 0 8 1600 1200
    porterDesk.listener bustle
  obtain ⟨u, t, hr, hf⟩ := ok_of_ended (r := bustle.forM Desk.occur porterDesk)
    (f := fun (_, t) => t.state.queue.active.isNone && t.state.queue.pending.map (·.title) == ["t"])
    (by decide +kernel)
  obtain ⟨ha, hp⟩ := Bool.and_eq_true_iff.mp hf
  have ha : Desk.active t = none := Option.isNone_iff_eq_none.mp ha
  exact ⟨thrifty_porter, u, t, hr, ha, eq_of_beq hp, ht u t hr ha, hj⟩

end Duel.Cue
