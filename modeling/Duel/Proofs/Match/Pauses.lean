import Duel.Proofs.Cue.Pauses
import Duel.Proofs.Match.Composed
import Duel.Proofs.Match.Score

namespace Duel.Match

open Cue (Desk)
open Scalar.Dated (atMost_trans)
open Scalar.Running (Reads atMost_refl)

variable {R G α : Type} [Scalar R]

section Desks

variable {settings : Settings R} {Q : Desk R (Stage R) → Prop}

/-- What requests to a desk keep, and the pauses that these settings ask for. -/
structure Lasting (settings : Settings R) (Q : Desk R (Stage R) → Prop) : Prop where
  run : ∀ r {d}, Q d → Comes (Desk.run r) d (fun _ => Q) Q
  pause : ∀ {d}, Q d → Comes (Desk.pause (Scalar.ofInt settings.turnEndDelay) fun stage =>
    { stage with paused := true }) d (fun _ => Q) Q

structure Attended (settings : Settings R) (Q : Desk R (Stage R) → Prop) (m : Match R G) :
    Prop where
  settings : m.settings = settings
  desk : Q m.desk

def Attends (settings : Settings R) (Q : Desk R (Stage R) → Prop) (x : Step R G α) : Prop :=
  ∀ m, Attended settings Q m → Comes x m (fun _ => Attended settings Q) (Attended settings Q)

namespace Lasting

omit [Scalar R] in
theorem atDesk {m : Match R G} (hm : Attended settings Q m) {x : Desk.Work R (Stage R) Unit}
    (hx : Comes x m.desk (fun _ => Q) Q) :
    Comes (atDesk x) m (fun _ => Attended settings Q) (Attended settings Q) := by
  unfold Comes at hx
  unfold Comes Match.atDesk
  cases hr : x m.desk with
  | ok a desk =>
    rw [hr] at hx
    exact ⟨hm.settings, hx⟩
  | error fault desk =>
    rw [hr] at hx
    exact ⟨hm.settings, hx⟩

theorem composed (h : Lasting settings Q) :
    Composed (R := R) (G := G) fun x => Attends settings Q x where
  pure _ := fun _ hm => hm
  throw _ := fun _ hm => hm
  bind hx hf := fun m hm => (hx m hm).bind fun a u hu => hf a u hu
  read _ hf := fun m hm => hf m m hm
  change hf := fun m hm => by
    obtain ⟨-, hd, hs⟩ := hf m m.trace
    exact ⟨hs.trans hm.settings, hd ▸ hm.desk⟩
  ask r := fun _ hm => atDesk hm (h.run r hm.desk)
  turnPause := fun _ hm => atDesk hm (hm.settings ▸ h.pause hm.desk)

variable [Dice.Source G] {m : Match R G}

theorem errand (h : Lasting settings Q) (e : Errand R) :
    Attends settings Q (e.perform : Step R G Unit) :=
  Playable.errand { h.composed.piecewise with
    traced := fun hx m hm => traced_comes (fun _ _ hu => ⟨hu.settings, hu.desk⟩) (hx m hm) } e

theorem afterErrands (h : Lasting settings Q) (hm : Attended settings Q m) (es : List (Errand R)) :
    Attended settings Q (m.afterErrands es) :=
  Comes.foldl_left (fun e m hm => h.errand e m hm) es hm

end Lasting

end Desks

variable [Dice.Source G]

theorem cue_desk (r : Cue.Request R) (m : Match R G) :
    (left ((Errand.call (.cue r)).perform m)).desk = left (Desk.run r m.desk) := by
  have h : Comes (ask r) m (fun _ u => u.desk = left (Desk.run r m.desk))
      fun u => u.desk = left (Desk.run r m.desk) := by
    unfold Comes ask atDesk
    cases Desk.run r m.desk <;> rfl
  have hp : Comes ((Errand.call (.cue r)).perform) m
      (fun _ u => u.desk = left (Desk.run r m.desk)) fun u => u.desk = left (Desk.run r m.desk) :=
    (h.bind fun _ _ hu => Comes.pure hu).bind fun _ _ hu => Comes.pure hu
  exact Comes.left (E := fun u : Match R G => u.desk = left (Desk.run r m.desk)) hp

theorem desk_afterErrands (m : Match R G) (rs : List (Cue.Request R)) :
    (m.afterErrands (rs.map fun r => .call (.cue r))).desk =
      rs.foldl (fun d r => left (Desk.run r d)) m.desk := by
  induction rs generalizing m with
  | nil => rfl
  | cons r rs ih =>
    rw [List.map_cons, List.foldl_cons, ← cue_desk, ← ih]
    rfl

omit [Scalar R] [Dice.Source G] in
theorem trigger_desk (moment : Buff.Moment) (owner : Option Side) :
    Spares desk (trigger moment owner : Step R G (List String)) := by
  refine .read fun m => (Spares.mapM (fun b => .read fun m => ?_) _).bind fun _ => ?_
  · have ht (x : Traced Stacks) : Spares desk (tell x : Step R G Stacks) :=
      .change (fun _ => rfl) (.pure _)
    have hs (side : Side) (held : Stacks) : Spares desk (setStatuses side held : Step R G Unit) :=
      .modify fun _ => rfl
    exact (ht _).bind fun _ => (hs _ _).bind fun _ => .pure _
  · exact .change (fun _ => rfl) (.pure _)

omit [Dice.Source G] in
/-- The end of a turn changes nothing at the desk but that a pause begins. -/
theorem endTurn_desk {m m' : Match R G} {logs : List String} (h : endTurn m = .ok logs m') :
    m'.settings = m.settings ∧ ∃ due,
      Scalar.add m.desk.clock.now
        (Scalar.positivePart (Scalar.ofInt m.settings.turnEndDelay)) = .ok due ∧
      m'.desk = m.desk.pausing due := by
  refine ⟨congrArg Score.settings ((endTurn_comes m).of_ok h), ?_⟩
  have h : closeTurn m.active m = .ok logs m' := h
  obtain ⟨_, u, hu, h⟩ := bind_ok h
  have hs : u.settings = m.settings := congrArg Score.settings ((trigger_spares _ _).ok hu)
  have hd : u.desk = m.desk := (trigger_desk _ _).ok hu
  rw [← hs, ← hd]
  obtain ⟨_, v, hv, h⟩ := bind_ok h
  obtain rfl := modify_ok hv
  obtain ⟨_, _, hg, h⟩ := bind_ok h
  obtain ⟨rfl, rfl⟩ := get_ok hg
  obtain ⟨_, w, hw, h⟩ := bind_ok h
  obtain ⟨-, rfl⟩ := pure_ok h
  unfold atDesk at hw
  split at hw
  next hp =>
    cases hw
    exact (Desk.pause_pausing _ trivial).of_ok (E := fun _ => True) hp
  next => cases hw

variable [Scalar.Running R] {settings : Settings R} {time bound : R} {floor : Nat}

theorem lasting_guarded (hb : ∀ {now due : R}, Reads now → Scalar.atMost time now = true →
      Scalar.add now (Scalar.positivePart (Scalar.ofInt settings.turnEndDelay)) = .ok due →
        Scalar.atMost bound due = true) :
    Lasting settings (Desk.Guarded time bound floor) where
  run r _ h := h.run_comes r
  pause h := h.pause_comes fun _ hd => hb h.reads h.since hd

omit [Dice.Source G] in
theorem atRest_start (settings : Settings R) (registry : Registry R) (dice : G)
    (heroes : Sides Hero) (keepsRecords : Bool) :
    (start settings registry dice heroes keepsRecords).desk.AtRest 0 where
  starting := rfl
  room := Int.pos_iff_toNat_pos.mp (Int.lt_of_lt_of_le Int.zero_lt_one (Int.le_max_left _ _))
  above := Nat.le_refl _
  ids _ ha := by cases ha
  keyed := {
    below := fun _ ht => by cases ht
    timer := fun _ hn => by cases hn }
  reads := Scalar.Running.reads_start
  dues _ ht := by cases ht

/-- Whatever has been wanted of a match, its desk is at rest then. -/
theorem atRest_afterErrands (settings : Settings R) (registry : Registry R) (dice : G)
    (heroes : Sides Hero) (keepsRecords : Bool) (before : List (Errand R)) :
    let m := (start settings registry dice heroes keepsRecords).afterErrands before
    m.settings = settings ∧ m.desk.AtRest 0 := by
  have hrest := atRest_start settings registry dice heroes keepsRecords
  have hkept : Lasting settings (Desk.Guarded (Scalar.measured Scalar.zero : R)
      (Scalar.measured Scalar.zero) 0) :=
    lasting_guarded fun hr hle hd => atMost_trans hle (Scalar.Running.reads_add hr hd).2
  have hlast := hkept.afterErrands ⟨rfl, hrest.guarded⟩ before
  exact ⟨hlast.settings, hlast.desk.toAtRest⟩

/-- Once a turn has ended, nothing that is wanted of the match then starts a cue before a time
within the pause, those apart that can start in a pause, exactly if no timer that ends a pause is
due before that time: be it the one of this turn or of an earlier one. The clock may be one of
doubles: it can be brought to any time that it can show, if only in two steps. -/
theorem endTurn_holds_back_iff (settings : Settings R) (registry : Registry R) (dice : G)
    (heroes : Sides Hero) (keepsRecords : Bool) (before : List (Errand R)) {logs : List String}
    {m : Match R G} (h : endTurn ((start settings registry dice heroes
      keepsRecords).afterErrands before) = .ok logs m) {time due : R}
    (hd : Scalar.add m.desk.clock.now
      (Scalar.positivePart (Scalar.ofInt settings.turnEndDelay)) = .ok due)
    (ht : Scalar.atMost time due = true) :
    (∀ errands, ∀ a ∈ (m.afterErrands errands).desk.listener.shown,
      m.desk.queue.lastId < a.id → a.inTransition = false →
        Scalar.atMost time a.startedAt = true) ↔
    Scalar.atMost time m.desk.clock.now = true ∨
      ∀ t ∈ m.desk.clock.live, t.job = .resume → Scalar.atMost time t.due = true := by
  obtain ⟨hu, hrest⟩ := atRest_afterErrands settings registry dice heroes keepsRecords before
  obtain ⟨hs, due', hd', hm⟩ := endTurn_desk h
  have ho : m.desk.AtRest m.desk.queue.lastId :=
    { (hm ▸ hrest.pausing hd' : m.desk.AtRest 0) with above := Nat.le_refl _ }
  constructor
  · intro hall
    refine Classical.or_iff_not_imp_left.mpr fun hnow t hlive hj => ?_
    -- Were it due earlier, it could let a cue start as soon as it goes off.
    by_contra hlate
    obtain ⟨step, now, later, now', hstep, hlater, hdue, hback⟩ :=
      Scalar.Running.arrives ho.reads (ho.dues t (List.mem_filter.mp hlive).1)
        (Bool.eq_false_iff.mpr hnow) (Bool.eq_false_iff.mpr hlate) ht
    have hw := Desk.wakes ho hlive hj hstep hlater hdue
    rw [Desk.afterRequests, ← desk_afterErrands] at hw
    obtain ⟨a, ha, hid, hfree, hat⟩ := hw
    exact Bool.eq_false_iff.mp hback (hat ▸ hall _ a ha hid hfree)
  · intro hdue errands a ha hid hfree
    have hg : m.desk.Guarded m.desk.clock.now time m.desk.queue.lastId := by
      refine ⟨ho, atMost_refl ho.reads, hdue.imp_right fun hdue => ⟨by rw [hm]; rfl, ?_⟩,
        fun a ha hid => absurd (ho.ids a ha) (Nat.not_le.mpr hid)⟩
      exact fun t ht hl => hdue t (List.mem_filter.mpr ⟨ht, hl⟩)
    have hlast := (lasting_guarded fun hr hle hd' =>
      atMost_trans ht (Scalar.Running.add_mono ho.reads hr hle hd hd')).afterErrands
        ⟨hs.trans hu, hg⟩ errands
    exact hlast.desk.late a (List.mem_append_left _ ha) hid hfree

def punctual : Match Number Unit :=
  start { cueLengths := .empty } (Registry.empty.define { id := "burn", name := "Burn" }) ()
    ⟨monk, monk⟩ false

/-- When the first turn has ended, cues have to wait for as long as its pause takes. -/
theorem endTurn_holds_back_iff_monks : ∃ logs m due,
    endTurn (punctual.afterErrands [.call (.startTurn .you)]) = .ok logs m ∧
    Scalar.add m.desk.clock.now (Scalar.positivePart 700) = .ok due ∧
    Scalar.atMost 700 due = true ∧
    ∀ errands, ∀ a ∈ (m.afterErrands errands).desk.listener.shown,
      m.desk.queue.lastId < a.id → a.inTransition = false →
        Scalar.atMost 700 a.startedAt = true := by
  have hends : ((ended? (endTurn (punctual.afterErrands [.call (.startTurn .you)]))).any
      fun (_, m) => (Scalar.add m.desk.clock.now (Scalar.positivePart 700)).toOption.any
        (Scalar.atMost 700 ·) && m.desk.clock.live.all
          fun t => decide (t.job = .resume → Scalar.atMost 700 t.due = true)) = true := by
    decide +kernel
  obtain ⟨logs, m, h, hends⟩ := ok_of_ended hends
  obtain ⟨hdue, hlive⟩ := Bool.and_eq_true_iff.mp hends
  cases hd : Scalar.add m.desk.clock.now (Scalar.positivePart 700) with
  | error fault =>
    rw [hd] at hdue
    cases hdue
  | ok due =>
    have ht : Scalar.atMost 700 due = true := by
      rw [hd] at hdue
      exact hdue
    refine ⟨logs, m, due, h, hd, ht, (endTurn_holds_back_iff _ _ _ _ _ _ h hd ht).mpr (.inr ?_)⟩
    exact fun t ht => of_decide_eq_true (List.all_eq_true.mp hlive t ht)

def hasty : List (Errand Rat) :=
  [.call (.startTurn .you), .call .endTurn, .call (.cue (.advance 350))]

def impatient : List (Errand Rat) :=
  [.call (.cue .interrupt), .call (.cue (.enqueue { kind := .status, title := "news" })),
    .call (.cue (.advance 350))]

/-- The second pause ends with the first one. -/
theorem not_held_back : ¬∀ (settings : Settings Rat) (registry : Registry Rat)
    (heroes : Sides Hero) (keepsRecords : Bool) (before errands : List (Errand Rat))
    (logs : List String) (m : Match Rat Unit), 0 ≤ settings.turnEndDelay →
    endTurn ((start settings registry () heroes keepsRecords).afterErrands before) = .ok logs m →
    ∀ a ∈ (m.afterErrands errands).desk.listener.shown,
      m.desk.queue.lastId < a.id → a.inTransition = false →
        m.desk.clock.now + settings.turnEndDelay ≤ a.startedAt := by
  intro hall
  have hends : ((ended? (endTurn (monks.afterErrands hasty))).any fun (_, m) =>
      (m.afterErrands impatient).desk.listener.shown.any fun a =>
        decide (m.desk.queue.lastId < a.id ∧ a.inTransition = false ∧
          ¬m.desk.clock.now + (700 : Int) ≤ a.startedAt)) = true := by
    decide +kernel
  obtain ⟨logs, m, h, hends⟩ := ok_of_ended hends
  obtain ⟨a, ha, hfar⟩ := List.any_eq_true.mp hends
  obtain ⟨hid, hfree, hearly⟩ := of_decide_eq_true hfar
  exact hearly (hall _ _ _ _ hasty impatient logs m (by decide) h a ha hid hfree)

end Duel.Match
