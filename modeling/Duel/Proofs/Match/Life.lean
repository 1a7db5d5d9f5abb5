import Duel.Proofs.Match.Run

namespace Duel

/-- What has become of a buff that was made. Only a pending one can become something else. -/
inductive Standing
  | pending (buff : Buff)
  | used (buff : Buff) (t : Buff.Trigger)
  | expired (buff : Buff) (why : Buff.Ending) (t : Buff.Trigger)
  | dropped (buff : Buff) (why : Buff.Ending) (down : Side)

namespace Standing

def pending? : Standing → Option Buff
  | pending b => some b
  | _ => none

def trigger (t : Buff.Trigger) (b : Buff) : Standing :=
  match b.fate t with
  | (later, .ready) => used later t
  | (later, .pending) => pending later
  | (later, .expired why) => expired later why t

def ready? (t : Buff.Trigger) : Standing → Option Buff
  | pending b =>
    match trigger t b with
    | used later _ => some later
    | _ => none
  | _ => none

def knockout (down : Side) (b : Buff) : Standing :=
  match b.fateAtKnockout (some down) with
  | .expired why => dropped b why down
  | _ => pending b

def meet (d : Deed) : Standing → Standing
  | pending b =>
    match d with
    | .trigger t => trigger t b
    | .knockout down => knockout down b
    | _ => pending b
  | gone => gone

def after (ds : List Deed) (s : Standing) : Standing := ds.foldl (fun s d => s.meet d) s

@[simp] theorem after_nil (s : Standing) : s.after [] = s := rfl

@[simp] theorem after_cons (d : Deed) (ds : List Deed) (s : Standing) :
    s.after (d :: ds) = (s.meet d).after ds := rfl

theorem meet_gone {s : Standing} (h : s.pending? = none) (d : Deed) : s.meet d = s := by
  cases s with
  | pending => cases h
  | _ => rfl

theorem after_gone {s : Standing} (h : s.pending? = none) (ds : List Deed) : s.after ds = s := by
  induction ds with
  | nil => rfl
  | cons d ds ih => rw [after_cons, meet_gone h, ih]

end Standing

def Buff.left (d : Deed) (b : Buff) : Option Buff := ((Standing.pending b).meet d).pending?

namespace Buff.Partition

theorem ofFates_filterMap (f : Fate) (fates : List (Buff × Fate)) :
    (fates.filter (·.2 = f)).map Prod.fst =
      fates.filterMap fun x => if x.2 = f then some x.1 else none := by
  induction fates with
  | nil => rfl
  | cons x fates ih => by_cases hx : x.2 = f <;> simp [hx, ih]

theorem pending_ofTrigger (buffs : List Buff) (t : Trigger) :
    (ofTrigger buffs t).pending = buffs.filterMap (Buff.left (.trigger t)) := by
  change ((buffs.map (·.fate t)).filter (·.2 = .pending)).map Prod.fst = _
  rw [ofFates_filterMap, List.filterMap_map]
  congr 1
  funext b
  unfold Buff.left Standing.meet Standing.trigger
  rcases hf : b.fate t with ⟨later, f⟩
  cases f <;> simp [hf, Standing.pending?]

theorem ready_ofTrigger (buffs : List Buff) (t : Trigger) :
    (ofTrigger buffs t).ready = buffs.filterMap fun b => (Standing.pending b).ready? t := by
  change ((buffs.map (·.fate t)).filter (·.2 = .ready)).map Prod.fst = _
  rw [ofFates_filterMap, List.filterMap_map]
  congr 1
  funext b
  unfold Standing.ready? Standing.trigger
  rcases hf : b.fate t with ⟨later, f⟩
  cases f <;> simp [hf]

theorem fateAtKnockout_ne_ready (b : Buff) (down : Option Side) :
    b.fateAtKnockout down ≠ .ready := by
  unfold Buff.fateAtKnockout
  repeat' split
  all_goals simp

theorem pending_ofKnockout (buffs : List Buff) (down : Side) :
    (ofKnockout buffs (some down)).pending = buffs.filterMap (Buff.left (.knockout down)) := by
  change ((buffs.map fun b => (b, b.fateAtKnockout (some down))).filter
    (·.2 = .pending)).map Prod.fst = _
  rw [ofFates_filterMap, List.filterMap_map]
  congr 1
  funext b
  unfold Buff.left Standing.meet Standing.knockout
  cases hf : b.fateAtKnockout (some down) with
  | ready => exact absurd hf (fateAtKnockout_ne_ready b _)
  | _ => simp [hf, Standing.pending?]

end Buff.Partition

theorem Grant.mem_toBuffs {grants : List Grant} {ctx : Context} {b : Buff}
    (h : b ∈ toBuffs grants ctx) :
    b.made = ⟨ctx.round, ctx.turn⟩ ∧ b.turnsLeft = b.expires.bind (·.turnsLeft) := by
  obtain ⟨⟨g, i⟩, -, hg⟩ := List.mem_filterMap.mp h
  by_cases hu : g.usable = .immediate
  · simp [hu] at hg
  · simp only [if_neg hu, Option.some.injEq] at hg
    subst hg
    exact ⟨rfl, rfl⟩

def Deed.born : Deed → List Buff
  | .made buffs => buffs
  | _ => []

namespace Board

variable {R : Type}

/-- Whatever moves, the buffs go each its own way, and new ones come last. -/
theorem Move.buffs_eq {b c : Board R} {d : Deed} (h : Move b (some d) c) :
    c.buffs = b.buffs.filterMap (Buff.left d) ++ d.born := by
  have hl {d : Deed} (hd : Buff.left d = some) : b.buffs.filterMap (Buff.left d) = b.buffs := by
    rw [hd, List.filterMap_some]
  cases h with
  | opened side =>
    rw [hl rfl]
    simp [Board.opened, Deed.born]
  | trigger moment owner =>
    simp [triggered, withBuffs, Deed.born, Buff.Partition.pending_ofTrigger]
  | made buffs =>
    rw [hl rfl]
    simp [Deed.born, withBuffs]
  | knockout down => simp [knockedOut, Deed.born, Buff.Partition.pending_ofKnockout]

theorem Move.buffs_aside {b c : Board R} (h : Move b none c) : c.buffs = b.buffs := by
  cases h <;> rfl

/-- What a trigger uses of the buffs of a board, it gives to their owners once each. -/
def Uses (a : Board R) (used : Buff.Trigger → List Buff) (d : Deed) (b : Board R) : Prop :=
  match d with
  | .trigger t => b = ((used t).foldl use a).withBuffs b.buffs
  | _ => True

/-- Buffs with their standings, between older and younger ones, on the way from one board to
another: each deed changes their standings, the pending ones are the ones that are there, and
those that are used are given to their owners. -/
inductive Tracks : Board R → List Buff → List Standing → List Buff → List Deed → Board R → Prop
  | rest {b : Board R} {older younger : List Buff} {ss : List Standing}
      (hb : b.buffs = older ++ ss.filterMap (·.pending?) ++ younger) :
      Tracks b older ss younger [] b
  | aside {a b c : Board R} {older younger : List Buff} {ss : List Standing} {ds : List Deed}
      (hb : a.buffs = older ++ ss.filterMap (·.pending?) ++ younger) (hm : Move a none b)
      (h : Tracks b older ss younger ds c) : Tracks a older ss younger ds c
  | step {a b c : Board R} {older younger : List Buff} {ss : List Standing} {d : Deed}
      {ds : List Deed} (hb : a.buffs = older ++ ss.filterMap (·.pending?) ++ younger)
      (hm : Move a (some d) b)
      (hu : Uses a (fun t => (Buff.Partition.ofTrigger older t).ready ++
        ss.filterMap (·.ready? t) ++ (Buff.Partition.ofTrigger younger t).ready) d b)
      (h : Tracks b (older.filterMap (Buff.left d)) (ss.map (·.meet d))
        (younger.filterMap (Buff.left d) ++ d.born) ds c) :
      Tracks a older ss younger (d :: ds) c

theorem filterMap_ready (t : Buff.Trigger) (ss : List Standing) :
    (Buff.Partition.ofTrigger (ss.filterMap (·.pending?)) t).ready =
      ss.filterMap (·.ready? t) := by
  rw [Buff.Partition.ready_ofTrigger, List.filterMap_filterMap]
  congr 1
  funext s
  cases s <;> rfl

theorem Move.uses {a b : Board R} {older younger : List Buff} {ss : List Standing} {d : Deed}
    (h : Move a (some d) b) (hb : a.buffs = older ++ ss.filterMap (·.pending?) ++ younger) :
    Uses a (fun t => (Buff.Partition.ofTrigger older t).ready ++ ss.filterMap (·.ready? t) ++
      (Buff.Partition.ofTrigger younger t).ready) d b := by
  cases h with
  | trigger moment owner =>
    have hr := Buff.Partition.ready_ofTrigger a.buffs (a.now moment owner)
    rw [hb, List.filterMap_append, List.filterMap_append] at hr
    simp only [← Buff.Partition.ready_ofTrigger, filterMap_ready] at hr
    simp only [Uses, ← hr, ← hb]
    rfl
  | _ => exact trivial

/-- In the end the pending ones are there, and the others are not. -/
theorem Tracks.buffs_eq {b c : Board R} {older younger : List Buff} {ss : List Standing}
    {ds : List Deed} (h : Tracks b older ss younger ds c) :
    ∃ older' younger', c.buffs =
      older' ++ (ss.map (·.after ds)).filterMap (·.pending?) ++ younger' := by
  induction h with
  | rest hb => exact ⟨_, _, by simpa using! hb⟩
  | aside _ _ _ ih => exact ih
  | step _ _ _ _ ih =>
    obtain ⟨older', younger', hc⟩ := ih
    rw [List.map_map] at hc
    exact ⟨older', younger', hc⟩

end Board

end Duel
