import Duel.Proofs.Cue.Minutes
import Duel.Proofs.Cue.Settled

namespace Duel.Cue

open Desk

/-- Listeners that ask for nothing, whatever they are told. -/
structure Mute {L : Type} [Listener Rat L] (P : L → Prop) : Prop where
  asks {l : L} (h : P l) : Listener.credit l = 0
  notes {l : L} (h : P l) (notice : Option (Active Rat)) : P (Listener.note l notice)
  resumes {l : L} (h : P l) : P (Listener.resume l)

/-- What can come to a desk that is alone on its clock, and leaves a mute listener mute. -/
inductive Visit.Lone {L : Type} (P : L → Prop) : Visit Rat L → Prop
  | ask {r : Request Rat} (h : r.Outer) : Lone P (.ask r)
  | runAll (limit : Nat) : Lone P (.ask (.runAll limit))
  | change (f : L → L) (h : ∀ l, P l → P (f l)) : Lone P (.change f)

/-- A time on the clock, in a call that carries out a request. -/
structure Moment where
  time : Rat
  /-- How many calls have come before. -/
  call : Nat
  request : Request Rat

abbrev Telling := Option (Active Rat) × Moment

structure Diary (L : Type) where
  listener : L
  call : Nat := 0
  told : List Telling := []

variable {L : Type}

def Diary.change (f : L → L) (k : Diary L) : Diary L := { k with listener := f k.listener }

instance [Listener Rat L] : Listener Rat (Diary L) where
  defers k := Listener.defers k.listener
  note k notice := k.change (Listener.note · notice)
  next _ _ _ := none
  credit _ := 0
  resume := .change Listener.resume

namespace Diary

def opened (d : Desk Rat L) : Desk Rat (Diary L) :=
  ⟨d.clock, ⟨d.queue, { listener := d.listener }⟩⟩

variable [Listener Rat L]

def moment (r : Request Rat) (d : Desk Rat (Diary L)) : Moment :=
  ⟨d.clock.now, d.listener.call, r⟩

def heard (r : Request Rat) (notice : Option (Active Rat)) (d : Desk Rat (Diary L)) :
    Desk Rat (Diary L) :=
  d.withListener { d.listener.change (Listener.note · notice) with
    told := d.listener.told ++ [(notice, moment r d)] }

def tell (r : Request Rat) : Tell Rat (Diary L) := fun notice => modify (heard r notice)

def turned (d : Desk Rat (Diary L)) : Desk Rat (Diary L) :=
  d.withListener { d.listener with call := d.listener.call + 1 }

def serve : Visit Rat L → Work Rat (Diary L) Unit
  | .ask r => perform (tell r) r
  | .change f => do setListener ((← desk).listener.change f)
  | .pause delay hold => pause delay (change hold)

def visit (v : Visit Rat L) : Work Rat (Diary L) Unit := do
  serve v
  modify turned

def Of (P : L → Prop) (k : Diary L) (l : L) : Prop := k.listener = l ∧ P l

variable {P : L → Prop}

theorem of_twins (hP : Mute P) : Twins (Of P) where
  defers h := congrArg Listener.defers h.1
  credit h := (hP.asks h.2).symm

theorem tell_matches (hP : Mute P) (r : Request Rat) (notice : Option (Active Rat)) :
    Matches (Of P) (tell r notice : Work Rat (Diary L) Unit) (Desk.tell 0 notice) :=
  fun _ _ hd => .ok () ⟨hd.clock, hd.queue, congrArg (Listener.note · notice) hd.listener.1,
    hP.notes hd.listener.2 notice⟩

theorem serve_matches (hP : Mute P) {v : Visit Rat L} (hv : v.Lone P) :
    Matches (Of P) (serve v) (Desk.visit v) := by
  have hr (r : Request Rat) : Matches (Of P) (serve (.ask r)) (Desk.visit (.ask r)) := by
    have hp : Matches (Of P) (perform (tell r) r : Work Rat (Diary L) Unit)
        (perform (Desk.tell 0) r) :=
      Matches.perform (of_twins hP) (fun _ _ hl => ⟨congrArg Listener.resume hl.1, hP.resumes hl.2⟩)
        (tell_matches hP r) r
    intro d e hd
    change Matched (Of P) _ (perform (Desk.tell (Listener.credit e.listener)) r e)
    rw [hP.asks hd.listener.2]
    exact hp d e hd
  cases hv with
  | ask => exact hr _
  | runAll => exact hr _
  | change f hf =>
    exact Matches.read fun d e hd =>
      Matches.setListener ⟨congrArg f hd.listener.1, hf _ hd.listener.2⟩

theorem visit_matches (hP : Mute P) {v : Visit Rat L} (hv : v.Lone P) :
    Matches (Of P) (visit v) (Desk.visit v) := by
  intro d e hd
  have h := serve_matches hP hv d e hd
  change Matched (Of P) (EStateM.bind (serve v) _ d) _
  rw [EStateM.bind]
  generalize serve v d = r, Desk.visit v e = r' at h
  cases h with
  | ok a ht => exact .ok () ⟨ht.clock, ht.queue, ht.listener⟩
  | error fault ht => exact .error fault ht

/-- Nothing at the desk depends on whether a diary is kept. -/
theorem visits_eq (hP : Mute P) {vs : List (Visit Rat L)} (hvs : ∀ v ∈ vs, v.Lone P)
    {d : Desk Rat L} (hd : P d.listener) :
    vs.forM Desk.visit d = seen (Desk.via Diary.listener) (vs.forM visit (opened d)) := by
  have h : Matches (Of P) (vs.forM (visit : Visit Rat L → _)) (vs.forM Desk.visit) :=
    Matches.forM fun v hv => visit_matches hP (hvs v hv)
  exact ((h (opened d) d ⟨rfl, rfl, rfl, hd⟩).mono fun _ _ hl => hl.1).via

theorem fair_tell (r : Request Rat) : Fair False 0 (tell r : Tell Rat (Diary L)) where
  keeps notice :=
    { busy := fun _ h => ⟨_, _, rfl, h.withListener (Nat.le_refl 0)⟩
      steady := fun h => ⟨_, _, rfl, h.withListener (Nat.le_refl 0)⟩ }
  leaves _ _ _ _ _ _ _ _ _ :=
    ⟨_, _, rfl, .inr (by simp [Queue.shows, Desk.queue, heard, withListener, showing, shownAs])⟩

end Diary

def Active.again (a : Active Rat) (time : Rat) : Active Rat :=
  { a with repeats := a.repeats + 1, mergedAt := time }

def Active.tellings : Active Rat → List Moment → List Telling
  | _, [] => []
  | a, m :: ms => (some (a.again m.time), m) :: (a.again m.time).tellings ms

/-- All that is told of one cue. -/
structure Block where
  cue : Active Rat
  shown : Moment
  /-- When it is counted again. -/
  again : List Moment := []
  ended : Option Moment := none

namespace Block

def tellings (b : Block) : List Telling :=
  (some b.cue, b.shown) :: b.cue.tellings b.again ++ b.ended.toList.map fun m => (none, m)

def latest (b : Block) : Active Rat := b.again.foldl (fun a m => a.again m.time) b.cue

/-- It is shown from the time at which that is told. It is over when it has lasted as long as it
should, or when it is interrupted or cleared away before; if it does not last at all, in the call
that shows it. -/
structure Proper (b : Block) : Prop where
  starts : b.cue.startedAt = b.shown.time
  ends : b.cue.endsAt = b.cue.startedAt + b.cue.length
  ended : ∀ m, b.ended = some m → m.time = b.cue.endsAt ∨
    m.time < b.cue.endsAt ∧ (m.request = .interrupt ∨ m.request = .clear)
  instant : b.cue.length = 0 → ∀ m, b.ended = some m → m.call = b.shown.call

theorem latest_same (b : Block) : Same b.cue b.latest := by
  have h (ms : List Moment) (a : Active Rat) (ha : Same b.cue a) :
      Same b.cue (ms.foldl (fun a m => a.again m.time) a) := by
    induction ms generalizing a with
    | nil => exact ha
    | cons m ms ih => exact ih (a.again m.time) ha
  exact h b.again b.cue ⟨rfl, rfl, rfl⟩

end Block

theorem Active.tellings_append (a : Active Rat) (ms : List Moment) (m : Moment) :
    a.tellings (ms ++ [m]) =
      a.tellings ms ++ [(some ((ms.foldl (fun a m => a.again m.time) a).again m.time), m)] := by
  induction ms generalizing a with
  | nil => rfl
  | cons k ms ih =>
    rw [List.cons_append, tellings, tellings, ih]
    rfl

/-- What has been told so far: all about some cues, and the beginning about the one that is
shown. -/
structure Told (closed : List Block) (current : Option Block) (d : Desk Rat (Diary L)) :
    Prop where
  told : d.listener.told = (closed ++ current.toList).flatMap Block.tellings
  ids : (closed ++ current.toList).map (·.cue.id) = List.range' 1 d.queue.lastId
  proper : ∀ b ∈ closed ++ current.toList, b.Proper
  closed : ∀ b ∈ closed, b.ended.isSome = true
  going : ∀ b, current = some b → b.ended = none
  active : d.active = current.map Block.latest

namespace Told

variable {closed : List Block} {current : Option Block} {b : Block} {d t : Desk Rat (Diary L)}
  {m : Moment}

theorem of_eq (h : Told closed current d)
    (ht : t.listener.told = d.listener.told) (hl : t.queue.lastId = d.queue.lastId)
    (ha : t.active = d.active) : Told closed current t :=
  ⟨ht.trans h.told, hl ▸ h.ids, h.proper, h.closed, h.going, ha.trans h.active⟩

theorem shows (h : Told closed none d) {a : Active Rat} (hi : a.id = d.queue.lastId + 1)
    (hs : a.startedAt = m.time) (he : a.endsAt = a.startedAt + a.length)
    (ht : t.listener.told = d.listener.told ++ [(some a, m)])
    (hl : t.queue.lastId = d.queue.lastId + 1) (ha : t.active = some a) :
    Told closed (some ⟨a, m, [], none⟩) t := by
  have hd := h.told
  have hids := h.ids
  have hp := h.proper
  rw [Option.toList_none, List.append_nil] at hd hids hp
  have hb : (Block.mk a m [] none).Proper := ⟨hs, he, by simp, by simp⟩
  refine ⟨?_, ?_, List.forall_mem_append.mpr ⟨hp, List.forall_mem_singleton.mpr hb⟩, h.closed, ?_,
    ha⟩
  · rw [ht, hd, List.flatMap_append]
    rfl
  · rw [hl, List.map_append, hids, List.range'_concat, Nat.one_mul, Nat.add_comm 1, ← hi]
    rfl
  · rintro _ ⟨⟩
    rfl

theorem again (h : Told closed (some b) d)
    (ht : t.listener.told = d.listener.told ++ [(some (b.latest.again m.time), m)])
    (hl : t.queue.lastId = d.queue.lastId) (ha : t.active = some (b.latest.again m.time)) :
    Told closed (some { b with again := b.again ++ [m] }) t := by
  obtain ⟨hp, hb⟩ := List.forall_mem_append.mp h.proper
  have hn := h.going b rfl
  have hb := hb b (by simp)
  have hb : Block.Proper { b with again := b.again ++ [m] } :=
    ⟨hb.starts, hb.ends, hb.ended, hb.instant⟩
  refine ⟨?_, ?_, List.forall_mem_append.mpr ⟨hp, List.forall_mem_singleton.mpr hb⟩, h.closed, ?_,
    ?_⟩
  · rw [ht, h.told, List.flatMap_append, List.flatMap_append, List.append_assoc]
    simp [Block.tellings, hn, Active.tellings_append, Block.latest]
  · rw [hl, ← h.ids]
    simp
  · rintro _ ⟨⟩
    exact hn
  · rw [ha]
    simp [Block.latest]

theorem ended (h : Told closed (some b) d)
    (he : m.time = b.cue.endsAt ∨
      m.time < b.cue.endsAt ∧ (m.request = .interrupt ∨ m.request = .clear))
    (hz : b.cue.length = 0 → m.call = b.shown.call)
    (ht : t.listener.told = d.listener.told ++ [(none, m)])
    (hl : t.queue.lastId = d.queue.lastId) (ha : t.active = none) :
    Told (closed ++ [{ b with ended := some m }]) none t := by
  obtain ⟨hp, hb⟩ := List.forall_mem_append.mp h.proper
  have hn := h.going b rfl
  have hb := hb b (by simp)
  have hb : Block.Proper { b with ended := some m } := by
    refine ⟨hb.starts, hb.ends, ?_, ?_⟩
    · rintro _ ⟨⟩
      exact he
    · rintro h0 _ ⟨⟩
      exact hz h0
  refine ⟨?_, ?_, ?_, List.forall_mem_append.mpr ⟨h.closed, by simp⟩, by simp, ha⟩
  · rw [ht, h.told]
    simp [Block.tellings, hn]
  · rw [hl, ← h.ids]
    simp
  · rw [Option.toList_none, List.append_nil]
    exact List.forall_mem_append.mpr ⟨hp, List.forall_mem_singleton.mpr hb⟩

theorem current_none (h : Told closed current d) (ha : d.active = none) : current = none :=
  Option.map_eq_none_iff.mp (h.active.symm.trans ha)

theorem ids_eq (h : Told closed current d) :
    (closed ++ current.toList).map (·.cue.id) =
      List.range' 1 (closed ++ current.toList).length := by
  have hl := congrArg List.length h.ids
  rw [List.length_map, List.length_range'] at hl
  rw [hl, h.ids]

theorem dropLast (h : Told closed current d) :
    ∀ b ∈ (closed ++ current.toList).dropLast, b.ended.isSome = true := by
  intro b hb
  refine h.closed b ?_
  cases current with
  | none => simpa using List.dropLast_subset _ hb
  | some c => simpa using hb

theorem current_of_open (h : Told closed current d)
    (hb : b ∈ closed ++ current.toList) (ho : b.ended = none) : current = some b := by
  obtain hb | hb := List.mem_append.mp hb
  · have := h.closed b hb
    simp [ho] at this
  · exact Option.mem_toList.mp hb

theorem current_some (h : Told closed current d) {a : Active Rat} (ha : d.active = some a) :
    ∃ b, current = some b ∧ b.latest = a ∧ Same b.cue a := by
  obtain ⟨b, hb, rfl⟩ := Option.map_eq_some_iff.mp (h.active.symm.trans ha)
  exact ⟨b, hb, rfl, b.latest_same⟩

end Told

end Duel.Cue
