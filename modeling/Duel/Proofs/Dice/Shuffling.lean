import Duel.Dice.Hold
import Mathlib.Data.List.FinRange

namespace Duel

variable {dice other : List Int}

namespace Combo

theorem nodup_eraseDups : ∀ dice : List Int, dice.eraseDups.Nodup
  | [] => List.nodup_nil
  | d :: dice => by
    rw [List.eraseDups_cons, List.nodup_cons, List.mem_eraseDups]
    exact ⟨by simp, nodup_eraseDups (dice.filter fun e => !e == d)⟩
termination_by dice => dice.length
decreasing_by exact Nat.lt_succ_of_le (List.length_filter_le _ _)

/-- The faces may be met in another order, but each has as many copies. -/
theorem multiplicities_perm (h : other.Perm dice) :
    (multiplicities other).Perm (multiplicities dice) := by
  have hfaces : other.eraseDups.Perm dice.eraseDups :=
    (List.perm_ext_iff_of_nodup (nodup_eraseDups other) (nodup_eraseDups dice)).mpr fun d => by
      rw [List.mem_eraseDups, List.mem_eraseDups, h.mem_iff]
  have hcopies : (fun d => other.count d) = fun d => dice.count d := funext h.count_eq
  rw [multiplicities, multiplicities, hcopies]
  exact hfaces.map _

theorem containsRun_perm (h : other.Perm dice) (runs : List (List Int)) :
    containsRun runs other = containsRun runs dice := by
  have hfaces : other.contains = dice.contains := funext fun d => h.contains_eq
  rw [containsRun, containsRun, hfaces]

theorem holds_perm (h : other.Perm dice) (c : Combo) : c.holds other = c.holds dice := by
  have hcopies := multiplicities_perm h
  cases c with
  | fiveOfAKind | fourOfAKind | threeOfAKind => exact hcopies.any_eq
  | fullHouse => rw [holds, holds, hcopies.contains_eq, hcopies.contains_eq]
  | twoPairs => rw [holds, holds, hcopies.count_eq]
  | smallStraight | largeStraight => exact containsRun_perm h _

theorem detect_perm (h : other.Perm dice) : detect other = detect dice := by
  rw [detect, detect, funext (holds_perm h)]

end Combo

namespace Hero

theorem legal_perm (hero : Hero) (h : other.Perm dice) : hero.legal other = hero.legal dice :=
  List.filter_congr fun a _ => Combo.holds_perm h a.combo

theorem best_perm (hero : Hero) (h : other.Perm dice) : hero.best other = hero.best dice :=
  congrArg Ability.best? (hero.legal_perm h)

theorem selected_perm (hero : Hero) (h : other.Perm dice) (combo : String) :
    hero.selected other combo = hero.selected dice combo := by
  unfold selected
  cases Combo.named.lookup combo with
  | none => rfl
  | some c =>
    dsimp only
    rw [Combo.holds_perm h c]

end Hero

namespace Dice

variable {d e : Int}

theorem outnumbers_iff : outnumbers dice d e = true ↔
    dice.count e < dice.count d ∨ dice.count d = dice.count e ∧ e < d := by
  simp [outnumbers]

theorem outnumbers_perm (h : other.Perm dice) : outnumbers other = outnumbers dice := by
  funext d e
  rw [outnumbers, outnumbers, h.count_eq, h.count_eq]

theorem eq_of_not_outnumbers (hde : ¬outnumbers dice d e = true)
    (hed : ¬outnumbers dice e d = true) : d = e := by
  rw [outnumbers_iff] at hde hed
  omega

theorem leader_spec (dice : List Int) (best : Int) (faces : List Int) :
    let leader := faces.foldl (fun best e => if outnumbers dice e best then e else best) best
    leader ∈ best :: faces ∧ ∀ e ∈ best :: faces, ¬outnumbers dice e leader = true := by
  induction faces generalizing best with
  | nil =>
    refine ⟨List.mem_cons_self, List.forall_mem_singleton.mpr ?_⟩
    rw [List.foldl_nil, outnumbers_iff]
    omega
  | cons d faces ih =>
    obtain ⟨hmem, hall⟩ := ih (if outnumbers dice d best then d else best)
    obtain ⟨hhead, htail⟩ := List.forall_mem_cons.mp hall
    rw [List.foldl_cons]
    generalize faces.foldl _ _ = leader at *
    -- The one of the two that was dropped is outnumbered by the one that went on.
    have hpair : ¬outnumbers dice best leader = true ∧ ¬outnumbers dice d leader = true := by
      simp only [outnumbers_iff] at hhead ⊢
      split at hhead <;> omega
    refine ⟨?_, List.forall_mem_cons.mpr ⟨hpair.1, List.forall_mem_cons.mpr ⟨hpair.2, htail⟩⟩⟩
    split at hmem
    · exact List.mem_cons_of_mem best hmem
    · exact List.cons_subset_cons best (List.subset_cons_self d faces) hmem

theorem mostFrequent?_eq_some_iff :
    mostFrequent? dice = some d ↔ d ∈ dice ∧ ∀ e ∈ dice, ¬outnumbers dice e d = true := by
  cases dice with
  | nil => simp [mostFrequent?]
  | cons first rest =>
    obtain ⟨hmem, hall⟩ := leader_spec (first :: rest) first rest
    rw [mostFrequent?, Option.some.injEq]
    refine ⟨fun h => h ▸ ⟨hmem, hall⟩, fun ⟨hd, hmost⟩ => ?_⟩
    exact eq_of_not_outnumbers (hmost _ hmem) (hall d hd)

theorem mostFrequent?_perm (h : other.Perm dice) : mostFrequent? other = mostFrequent? dice := by
  refine Option.ext fun d => ?_
  simp only [mostFrequent?_eq_some_iff, outnumbers_perm h, h.mem_iff]

theorem straightPotential_perm (h : other.Perm dice) :
    straightPotential other = straightPotential dice :=
  Combo.containsRun_perm h _

/-- In any order of the dice, each of them is kept for its face or is not. -/
def ByFace (dice : List Int) (rule : List Int → List Bool) : Prop :=
  ∃ keeps : Int → Bool, ∀ other, other.Perm dice → rule other = other.map keeps

theorem ByFace.congr {rule rule' : List Int → List Bool} (hr : ByFace dice rule)
    (h : ∀ other, other.Perm dice → rule' other = rule other) : ByFace dice rule' := by
  obtain ⟨keeps, hkeeps⟩ := hr
  exact ⟨keeps, fun other ho => (h other ho).trans (hkeeps other ho)⟩

theorem byFace_holdAll (dice : List Int) : ByFace dice holdAll := ⟨fun _ => true, fun _ _ => rfl⟩

theorem byFace_holdStraightPieces (dice : List Int) : ByFace dice holdStraightPieces :=
  ⟨fun d => decide (2 ≤ d ∧ d ≤ 6), fun _ _ => rfl⟩

theorem byFace_holdMostFrequent (dice : List Int) : ByFace dice holdMostFrequent := by
  refine ⟨fun d => mostFrequent? dice == some d, fun other h => ?_⟩
  rw [holdMostFrequent, mostFrequent?_perm h]

theorem ByFace.ite {p : List Int → Bool} {rule rule' : List Int → List Bool}
    (hp : ∀ other, other.Perm dice → p other = p dice) (hr : ByFace dice rule)
    (hr' : ByFace dice rule') :
    ByFace dice fun other => if p other then rule other else rule' other := by
  cases hd : p dice with
  | true => exact hr.congr fun other h => if_pos ((hp other h).trans hd)
  | false => exact hr'.congr fun other h => if_neg (by simp [hp other h, hd])

theorem settled_cases (a : Ability) : (∀ dice, settled dice a = none) ∨
    (∀ dice, settled dice a = some (holdAll dice)) ∨
    ∀ dice, settled dice a = some (holdMostFrequent dice) := by
  unfold settled
  cases a.combo
  case fullHouse | largeStraight => exact .inr (.inl fun _ => rfl)
  case fourOfAKind => exact .inr (.inr fun _ => rfl)
  all_goals exact .inl fun _ => rfl

theorem byFace_huntStraight (hero : Hero) (dice : List Int) (remaining : Int)
    (statuses : Stacks) : ByFace dice fun other => huntStraight hero other remaining statuses := by
  have hlast : ByFace dice fun other =>
      if (statuses.get? "evasive").getD 0 ≤ 0 && straightPotential other then
        holdStraightPieces other
      else if Combo.largeStraight.holds other then holdAll other
      else holdMostFrequent other := by
    refine ByFace.ite (fun other h => ?_) (byFace_holdStraightPieces dice)
      (ByFace.ite (fun other h => Combo.holds_perm h _) (byFace_holdAll dice)
        (byFace_holdMostFrequent dice))
    rw [straightPotential_perm h]
  by_cases hr : remaining = 1
  · cases hb : hero.best dice with
    | none =>
      refine hlast.congr fun other h => ?_
      simp only [huntStraight, if_pos hr, hero.best_perm h, hb, Option.bind_none]
    | some a =>
      obtain hs | hs | hs := settled_cases a
      · refine hlast.congr fun other h => ?_
        simp only [huntStraight, if_pos hr, hero.best_perm h, hb, Option.bind_some, hs]
      · refine (byFace_holdAll dice).congr fun other h => ?_
        simp only [huntStraight, if_pos hr, hero.best_perm h, hb, Option.bind_some, hs]
      · refine (byFace_holdMostFrequent dice).congr fun other h => ?_
        simp only [huntStraight, if_pos hr, hero.best_perm h, hb, Option.bind_some, hs]
  · refine hlast.congr fun other h => ?_
    simp only [huntStraight, if_neg hr]

theorem byFace_hold (hero : Hero) (dice : List Int) (remaining : Int) (statuses : Stacks) :
    ByFace dice fun other => hold hero other remaining statuses := by
  by_cases hr : remaining ≤ 0
  · exact (byFace_holdAll dice).congr fun other _ => if_pos hr
  · cases hs : hero.strategy with
    | mostFrequent =>
      refine (byFace_holdMostFrequent dice).congr fun other _ => ?_
      simp only [hold, if_neg hr, hs]
    | straightHunter =>
      refine (byFace_huntStraight hero dice remaining statuses).congr fun other _ => ?_
      simp only [hold, if_neg hr, hs]

theorem length_hold (hero : Hero) (dice : List Int) (remaining : Int) (statuses : Stacks) :
    (hold hero dice remaining statuses).length = dice.length := by
  obtain ⟨keeps, hkeeps⟩ := byFace_hold hero dice remaining statuses
  exact (congrArg List.length (hkeeps dice (.refl dice))).trans (List.length_map keeps)

section

variable {α β : Type} {n : Nat}

/-- A row in another order: at each place stands what stood at the place that `σ` names. -/
def shuffled (σ : Equiv.Perm (Fin n)) (row : List α) (h : row.length = n) : List α :=
  List.ofFn fun i => row.get ((σ i).cast h.symm)

theorem shuffled_perm (σ : Equiv.Perm (Fin n)) (row : List α) (h : row.length = n) :
    (shuffled σ row h).Perm row := by
  subst h
  exact (σ.ofFn_comp_perm row.get).trans (.of_eq (List.ofFn_get row))

theorem shuffled_map (σ : Equiv.Perm (Fin n)) (f : α → β) (row : List α) (h : row.length = n) :
    (shuffled σ row h).map f = shuffled σ (row.map f) ((List.length_map f).trans h) := by
  rw [shuffled, shuffled, List.map_ofFn]
  refine congrArg List.ofFn (funext fun i => ?_)
  simp

end

/-- Dice in another order show the same patterns and buy the same, and of what is kept the order
is changed in the same way. -/
theorem hold_shuffled (hero : Hero) (statuses : Stacks) (remaining : Int) (dice : List Int)
    (σ : Equiv.Perm (Fin dice.length)) :
    let other := shuffled σ dice rfl
    Combo.detect other = Combo.detect dice ∧ (∀ c : Combo, c.holds other = c.holds dice) ∧
      hero.legal other = hero.legal dice ∧ hero.best other = hero.best dice ∧
      (∀ combo, hero.selected other combo = hero.selected dice combo) ∧
      hold hero other remaining statuses = shuffled σ (hold hero dice remaining statuses)
        (length_hold hero dice remaining statuses) := by
  have h := shuffled_perm σ dice rfl
  refine ⟨Combo.detect_perm h, Combo.holds_perm h, hero.legal_perm h, hero.best_perm h,
    hero.selected_perm h, ?_⟩
  obtain ⟨keeps, hkeeps⟩ := byFace_hold hero dice remaining statuses
  have hdice : hold hero dice remaining statuses = dice.map keeps := hkeeps dice (.refl dice)
  calc hold hero (shuffled σ dice rfl) remaining statuses
      = (shuffled σ dice rfl).map keeps := hkeeps _ h
    _ = shuffled σ (dice.map keeps) (List.length_map keeps) := shuffled_map σ keeps dice rfl
    _ = shuffled σ (hold hero dice remaining statuses) _ := by simp only [hdice]

end Dice

end Duel
