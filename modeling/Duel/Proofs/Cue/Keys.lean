import Duel.Cue.Reactor
import Duel.Proofs.Cue.Restarting
import Mathlib.Data.List.Basic

namespace Duel.Cue

variable {R L : Type} {c e : Cue R}

/-- A cue without a merge key of its own. -/
def Keyless (c : Cue R) : Prop := Event.spoken c.mergeKey = none

def heading (c : Cue R) : String := c.title ++ "|" ++ c.subtitle.getD ""

def sideName (c : Cue R) : String := (c.side.map (·.name)).getD ""

/-- No subtitle and an empty one are the same. -/
structure Akin (c e : Cue R) : Prop where
  kind : c.kind = e.kind
  title : c.title = e.title
  subtitle : c.subtitle.getD "" = e.subtitle.getD ""
  side : c.side = e.side

def Unbarred (c : Cue R) : Prop := '|' ∉ c.title.toList ∧ '|' ∉ (c.subtitle.getD "").toList

theorem key_of_keyless (h : c.Keyless) : c.key = c.defaultKey := by
  rw [key, h]
  rfl

theorem parted {x : Char} {as as' bs bs' : List Char} (ha : x ∉ as) (ha' : x ∉ as')
    (h : as ++ x :: bs = as' ++ x :: bs') : as = as' ∧ bs = bs' := by
  obtain ⟨cs, rfl, hcs⟩ | ⟨cs, rfl, hcs⟩ := List.append_eq_append_iff.mp h
  · cases cs with
    | nil => exact ⟨(List.append_nil as).symm, (List.cons.inj hcs).2⟩
    | cons y cs => exact absurd (by simp [(List.cons.inj hcs).1]) ha'
  · cases cs with
    | nil => exact ⟨List.append_nil as', (List.cons.inj hcs).2.symm⟩
    | cons y cs => exact absurd (by simp [(List.cons.inj hcs).1]) ha

theorem Kind.not_barred (k : Kind) : '|' ∉ k.name.toList := by
  cases k <;> decide

theorem Kind.name_inj {k l : Kind} (h : k.name = l.name) : k = l := by
  revert h
  cases k <;> cases l <;> decide

theorem sideName_not_barred (c : Cue R) : '|' ∉ c.sideName.toList := by
  unfold sideName
  cases c.side with
  | none => decide
  | some s => cases s <;> decide

theorem sideName_inj (h : c.sideName = e.sideName) : c.side = e.side := by
  unfold sideName at h
  revert h
  cases c.side with
  | none =>
    cases e.side with
    | none => exact fun _ => rfl
    | some t => cases t <;> decide
  | some s =>
    cases e.side with
    | none => cases s <;> decide
    | some t => cases s <;> cases t <;> decide

theorem toList_heading (c : Cue R) :
    c.heading.toList = c.title.toList ++ '|' :: (c.subtitle.getD "").toList := by
  simp [heading]

theorem toList_defaultKey (c : Cue R) : c.defaultKey.toList =
    c.kind.name.toList ++ '|' :: (c.heading.toList ++ '|' :: c.sideName.toList) := by
  simp [defaultKey, heading, sideName, String.intercalate_cons_cons]

/-- The first bar ends the kind, and the last one begins the side. -/
theorem defaultKey_eq_iff : c.defaultKey = e.defaultKey ↔
    c.kind = e.kind ∧ c.heading = e.heading ∧ c.side = e.side := by
  rw [← String.toList_inj, toList_defaultKey, toList_defaultKey]
  refine ⟨fun h => ?_, fun ⟨hk, hh, hs⟩ => by rw [hk, hh, sideName, hs, sideName]⟩
  obtain ⟨hkind, hrest⟩ := parted (Kind.not_barred c.kind) (Kind.not_barred e.kind) h
  have hback := congrArg List.reverse hrest
  simp only [List.reverse_append, List.reverse_cons, List.append_assoc, List.singleton_append]
    at hback
  obtain ⟨hside, hheading⟩ := parted (by simpa using sideName_not_barred c)
    (by simpa using sideName_not_barred e) hback
  exact ⟨Kind.name_inj (String.toList_inj.mp hkind),
    String.toList_inj.mp (List.reverse_injective hheading),
    sideName_inj (String.toList_inj.mp (List.reverse_injective hside))⟩

theorem akin_of_unbarred (hc : c.Unbarred) (h : e.defaultKey = c.defaultKey) : e.Akin c := by
  obtain ⟨hkind, hheading, hside⟩ := defaultKey_eq_iff.mp h
  rw [← String.toList_inj, toList_heading, toList_heading, eq_comm,
    List.append_cons_inj_of_notMem hc.1 hc.2] at hheading
  exact ⟨hkind, (String.toList_inj.mp hheading.1).symm, (String.toList_inj.mp hheading.2.2).symm,
    hside⟩

/-- A bar in a title or a subtitle can be taken for the one between them. -/
theorem exists_double (h : ¬c.Unbarred) :
    ∃ e : Cue R, e.Keyless ∧ ¬e.Akin c ∧ e.defaultKey = c.defaultKey := by
  have hdouble (title subtitle : List Char) (hne : title ≠ c.title.toList)
      (ht : title ++ '|' :: subtitle = c.heading.toList) :
      ∃ e : Cue R, e.Keyless ∧ ¬e.Akin c ∧ e.defaultKey = c.defaultKey := by
    refine ⟨{ c with
      title := .ofList title, subtitle := some (.ofList subtitle), mergeKey := none }, rfl,
      fun ha => hne ?_, defaultKey_eq_iff.mpr ⟨rfl, ?_, rfl⟩⟩
    · rw [← ha.title, String.toList_ofList]
    · rw [← String.toList_inj, toList_heading, ← ht]
      simp
  rw [Unbarred, not_and_or, not_not, not_not] at h
  rw [toList_heading] at hdouble
  obtain h | h := h
  · obtain ⟨as, bs, hs⟩ := List.append_of_mem h
    refine hdouble as (bs ++ '|' :: (c.subtitle.getD "").toList) ?_ ?_
    · rw [hs]
      simp
    · rw [hs]
      simp
  · obtain ⟨as, bs, hs⟩ := List.append_of_mem h
    refine hdouble (c.title.toList ++ '|' :: as) bs (by simp) ?_
    rw [hs]
    simp

def Active.joined (a : Active R) (now : R) : Active R :=
  { a with repeats := a.repeats + 1, mergedAt := now }

def Queued.joined (w : Queued R) (now : R) : Queued R :=
  { w with repeats := w.repeats + 1, mergedAt := now }

theorem Active.joined_ne (a : Active R) (now : R) : a.joined now ≠ a :=
  fun h => Nat.succ_ne_self _ (congrArg Active.repeats h)

theorem Queued.joined_ne (w : Queued R) (now : R) : w.joined now ≠ w :=
  fun h => Nat.succ_ne_self _ (congrArg Queued.repeats h)

theorem eq_of_joined {before before' after after' : List (Queued R)} {w w' : Queued R} {now : R}
    (h : before ++ w :: after = before' ++ w' :: after')
    (hj : before ++ w.joined now :: after = before' ++ w'.joined now :: after') : w = w' := by
  induction before generalizing before' with
  | nil =>
    cases before' with
    | nil => exact (List.cons.inj h).1
    | cons v before' =>
      exact absurd ((List.cons.inj hj).1.trans (List.cons.inj h).1.symm) (w.joined_ne now)
  | cons v before ih =>
    cases before' with
    | nil => exact absurd ((List.cons.inj hj).1.symm.trans (List.cons.inj h).1) (w'.joined_ne now)
    | cons v' before' => exact ih (List.cons.inj h).2 (List.cons.inj hj).2

section

variable [Scalar R] {q : Queue R} {last now : R} {name : String}

theorem key_of_merges (h : q.merges c last name now = .ok true) : c.key = name := by
  unfold Queue.merges at h
  split at h
  · exact eq_of_beq ‹_›
  · cases h

/-- Whether the merge window of a cue is open that last came at a time. -/
def Queue.IsOpen (q : Queue R) (c : Cue R) (last now : R) : Prop :=
  ∃ age, Scalar.sub now last = .ok age ∧ Scalar.atMost age (q.window c) = true

theorem merges_of_isOpen (h : q.IsOpen c last now) : q.merges c last c.key now = .ok true := by
  obtain ⟨age, hage, hle⟩ := h
  rw [Queue.merges, beq_self_eq_true, if_pos rfl, hage, ← hle]
  rfl

end

namespace Desk

variable [Scalar R] [Listener R L] {T : Tell R L} {d : Desk R L}

/-- A cue that comes in is taken for one at hand: that one is counted once more, and told of again
if it is shown, and nothing else happens. -/
inductive Swallows (d : Desk R L) (c : Cue R) : Cue R → Prop
  | shown (a : Active R) (ha : d.active = some a)
      (h : ∀ T : Tell R L, enqueue T c d = T (some (a.joined d.clock.now))
        (d.withQueue (d.queue.withActive (some (a.joined d.clock.now))))) :
      Swallows d c a.toCue
  | waiting (before after : List (Queued R)) (w : Queued R)
      (hp : d.queue.pending = before ++ w :: after)
      (h : ∀ T : Tell R L, enqueue T c d =
        .ok () (d.withPending (before ++ w.joined d.clock.now :: after))) :
      Swallows d c w.toCue

/-- A cue at hand is the first one that those that come in are compared with, and its merge window
is open. -/
inductive Meets (d : Desk R L) : Cue R → Prop
  | shown (a : Active R) (ha : d.active = some a)
      (hw : d.queue.IsOpen a.toCue a.mergedAt d.clock.now) : Meets d a.toCue
  | waiting (w : Queued R) (rest : List (Queued R)) (ha : d.active = none)
      (hp : d.queue.pending = w :: rest)
      (hw : d.queue.IsOpen w.toCue w.mergedAt d.clock.now) : Meets d w.toCue

theorem enqueue_of_active {a : Active R}
    (hm : d.queue.mergeActive c.key d.clock.now = .ok (some a)) (T : Tell R L) :
    enqueue T c d = T (some a) (d.withQueue (d.queue.withActive (some a))) := by
  change (Timed.reckon (d.queue.mergeActive c.key d.clock.now) >>= _) d = _
  rw [hm]
  rfl

theorem enqueue_of_pending {pending : List (Queued R)}
    (hn : d.queue.mergeActive c.key d.clock.now = .ok none)
    (hm : d.queue.mergePending c.key d.clock.now d.queue.pending = .ok (some pending))
    (T : Tell R L) : enqueue T c d = .ok () (d.withPending pending) := by
  change (Timed.reckon (d.queue.mergeActive c.key d.clock.now) >>= _) d = _
  rw [hn]
  change (Timed.reckon (d.queue.mergePending c.key d.clock.now d.queue.pending) >>= _) d = _
  rw [hm]
  rfl

theorem swallows_of_meets (h : d.Meets e) (hk : e.key = c.key) : d.Swallows c e := by
  cases h with
  | shown a ha hw =>
    refine .shown a ha (enqueue_of_active ?_)
    rw [Queue.mergeActive, show d.queue.active = some a from ha, ← hk]
    dsimp only
    rw [merges_of_isOpen hw]
    rfl
  | waiting w rest ha hp hw =>
    refine .waiting [] rest w hp (enqueue_of_pending ?_ ?_)
    · rw [Queue.mergeActive, show d.queue.active = none from ha]
    · rw [hp, Queue.mergePending, ← hk, merges_of_isOpen hw]
      rfl

theorem startNext_of_active {a : Active R} (h : d.active = some a) :
    Reaches (startNext T) d fun t => t.active = some a := by
  refine Comes.get ?_
  split
  · exact Comes.pure h
  · refine Comes.modify (lastly_comes (Comes.get ?_))
    split
    · exact Comes.pure h
    · exact absurd (Option.isSome_of_mem h) ‹_›

def hush : Tell R L := fun _ => return ()

def cry : Tell R L := fun _ => throw (.job ⟨"", []⟩)

omit [Listener R L] in
theorem present_cry (w : Queued R) : Reaches (present cry w) d fun _ => False :=
  Comes.get (Comes.modify (Comes.get (Timed.reckon_comes
    (fun _ _ => valid_comes (fun _ _ => Comes.modify trivial) trivial) trivial)))

theorem startNext_cry (d : Desk R L) :
    Reaches (startNext cry) d fun t => t.queue.lastNumber = d.queue.lastNumber := by
  refine Comes.get ?_
  split
  · exact Comes.pure rfl
  · refine Comes.modify (lastly_comes (Comes.get ?_))
    split
    · exact Comes.pure rfl
    · split
      · exact Comes.pure rfl
      · exact Comes.modify ((present_cry _).bind fun _ _ h => h.elim)

theorem key_of_shown {a : Active R} {t : Desk R L} {u : Unit} (ha : d.active = some a)
    (h : enqueue hush c d = .ok u t) (ht : t.active = some (a.joined d.clock.now)) :
    a.key = c.key := by
  have hn : some a ≠ some (a.joined d.clock.now) :=
    fun he => a.joined_ne _ (Option.some.inj he).symm
  -- Whatever else becomes of the new cue, the old one is shown as it was.
  refine (enqueue_reaches_of (T := hush)
    (P := fun t => t.active = some (a.joined d.clock.now) → a.key = c.key)
    (fun b hb => Comes.pure fun _ => ?_) (fun pending _ ht => absurd (ha.symm.trans ht) hn)
    (fun ht => absurd (ha.symm.trans ht) hn) fun q w hr _ => ?_).of_ok h ht
  · obtain ⟨b, hb, -, hm⟩ := Queue.mergeActive_parts hb
    cases ha.symm.trans hb
    exact key_of_merges hm
  · have hq : (d.withQueue (q.insertPending w)).active = some a := by
      obtain ⟨keeps, rfl, -⟩ := Queue.receive_keeps hr
      exact ha
    exact (startNext_of_active hq).mono (fun _ t hs ht => absurd (hs.symm.trans ht) hn)
      fun _ h => h

theorem key_of_waiting {before after : List (Queued R)} {w : Queued R} {t : Desk R L} {u : Unit}
    (hp : d.queue.pending = before ++ w :: after) (h : enqueue cry c d = .ok u t)
    (hl : t.queue.lastNumber = d.queue.lastNumber)
    (ht : t.queue.pending = before ++ w.joined d.clock.now :: after) : w.key = c.key := by
  have hn : before ++ w :: after ≠ before ++ w.joined d.clock.now :: after :=
    fun he => w.joined_ne _ (List.cons.inj (List.append_cancel_left he)).1.symm
  -- The new cue was not counted in, and nobody was told of anything.
  refine (enqueue_reaches_of (T := cry)
    (P := fun t => t.queue.lastNumber = d.queue.lastNumber →
      t.queue.pending = before ++ w.joined d.clock.now :: after → w.key = c.key)
    (fun b hb => trivial) (fun pending hm _ ht => ?_)
    (fun _ ht => absurd (hp.symm.trans ht) hn)
    fun q w hr _ => (startNext_cry _).mono (fun _ t hs hl => ?_) fun _ h => h).of_ok h hl ht
  · obtain ⟨before', w', after', hp', ho, hm⟩ := Queue.mergePending_parts hm
    cases eq_of_joined (hp.symm.trans hp') (ht.symm.trans ho)
    exact key_of_merges hm
  · obtain ⟨keeps, rfl, -⟩ := Queue.receive_keeps hr
    exact absurd (hs.symm.trans hl) (Nat.succ_ne_self _)

theorem key_of_swallows (h : d.Swallows c e) : e.key = c.key := by
  cases h with
  | shown a ha h => exact key_of_shown ha (h hush) rfl
  | waiting before after w hp h => exact key_of_waiting hp (h cry) rfl rfl

end Desk

variable [Scalar R]

/-- Two default keys are the same if the kinds, the sides and the headings are. A cue is told apart
from all that are not like it just if neither its title nor its subtitle has a bar in it. Then no
desk takes it for one of them; else there is one that it is taken for wherever it meets that
one. -/
theorem told_apart_iff (hc : c.Keyless) :
    (∀ e : Cue R, e.defaultKey = c.defaultKey ↔
      e.kind = c.kind ∧ e.heading = c.heading ∧ e.side = c.side) ∧
    ((∀ e : Cue R, e.Keyless → e.defaultKey = c.defaultKey → e.Akin c) ↔ c.Unbarred) ∧
    (c.Unbarred → ∀ (L : Type) [Listener R L] (d : Desk R L) (e : Cue R), e.Keyless →
      d.Swallows c e → e.Akin c) ∧
    (¬c.Unbarred → ∃ e : Cue R, e.Keyless ∧ ¬e.Akin c ∧ e.defaultKey = c.defaultKey ∧
      ∀ (L : Type) [Listener R L] (d : Desk R L), d.Meets e → d.Swallows c e) := by
  refine ⟨fun e => defaultKey_eq_iff, ⟨fun h => ?_, fun h e _ => akin_of_unbarred h⟩,
    fun h L _ d e he hs => ?_, fun h => ?_⟩
  · by_contra hb
    obtain ⟨e, he, hne, hk⟩ := exists_double hb
    exact hne (h e he hk)
  · have hk : e.key = c.key := Desk.key_of_swallows hs
    rw [key_of_keyless he, key_of_keyless hc] at hk
    exact akin_of_unbarred h hk
  · obtain ⟨e, he, hne, hk⟩ := exists_double h
    refine ⟨e, he, hne, hk, fun L _ d hd => Desk.swallows_of_meets hd ?_⟩
    rw [key_of_keyless he, key_of_keyless hc, hk]

def caption (title subtitle : String) : Cue Rat :=
  { kind := .status, title, subtitle := some subtitle }

theorem told_apart_iff_plain : (caption "A" "B").Keyless ∧ (caption "A" "B").Unbarred ∧
    ∀ d : Desk Rat (Reactor Rat), ¬d.Swallows (caption "A" "B") (caption "A" "C") := by
  have hc : (caption "A" "B").Keyless := rfl
  have hu : (caption "A" "B").Unbarred := ⟨by decide, by decide⟩
  refine ⟨hc, hu, fun d hs => ?_⟩
  have ha := (told_apart_iff hc).2.2.1 hu (Reactor Rat) d (caption "A" "C") rfl hs
  exact absurd ha.subtitle (by decide)

def blankDesk : Desk Rat (Reactor Rat) := .empty 0 8 5000 1000 {}

def onShow (c : Cue Rat) : Active Rat :=
  { c with id := 1, length := 5000, startedAt := 0, endsAt := 5000, mergedAt := 0 }

def captionDesk (c : Cue Rat) : Desk Rat (Reactor Rat) :=
  blankDesk.withQueue (blankDesk.queue.withActive (some (onShow c)))

/-- Two cues of different titles; the second one is lost in the first. -/
theorem not_told_apart :
    let first := caption "A" "B|C"
    let second := caption "A|B" "C"
    first.Keyless ∧ second.Keyless ∧ ¬first.Akin second ∧ first.defaultKey = second.defaultKey ∧
      (captionDesk first).Swallows second first ∧
      let t := blankDesk.afterOccasions
        [.visit (.ask (.enqueue first)), .visit (.ask (.enqueue second))]
      t.active.map (fun a => (a.title, a.repeats)) = some ("A", 2) ∧
      t.queue.pending.length = 0 := by
  intro first second
  have hw : (captionDesk first).queue.IsOpen first 0 0 := ⟨0 - 0, rfl, by decide +kernel⟩
  have hs : (captionDesk first).Swallows second first :=
    Desk.swallows_of_meets (.shown (onShow first) rfl hw) (by decide)
  exact ⟨rfl, rfl, fun ha => absurd ha.title (by decide), by decide, hs, by decide +kernel⟩

end Duel.Cue
