import Duel.Dice.Hold
import Duel.Dice.Roll

namespace Duel.Dice

def kept (dice : List Int) (held : List Bool) : List Int :=
  ((dice.zip held).filter (·.2)).map (·.1)

theorem kept_cons (d : Int) (keep : Bool) (dice : List Int) (held : List Bool) :
    kept (d :: dice) (keep :: held) = if keep then d :: kept dice held else kept dice held := by
  cases keep <;> rfl

theorem kept_map (dice : List Int) (keeps : Int → Bool) :
    kept dice (dice.map keeps) = dice.filter keeps := by
  induction dice with
  | nil => rfl
  | cons d dice ih => rw [List.map_cons, kept_cons, ih, List.filter_cons]

theorem containsRun_iff {runs : List (List Int)} {dice : List Int} :
    Combo.containsRun runs dice = true ↔ ∃ run ∈ runs, ∀ d ∈ run, d ∈ dice := by
  simp [Combo.containsRun, List.any_eq_true, List.all_eq_true]

theorem largeStraight_iff {dice : List Int} : Combo.largeStraight.holds dice = true ↔
    2 ∈ dice ∧ 3 ∈ dice ∧ 4 ∈ dice ∧ 5 ∈ dice ∧ (1 ∈ dice ∨ 6 ∈ dice) := by
  change Combo.containsRun Combo.largeStraights dice = true ↔ _
  rw [containsRun_iff]
  simp only [Combo.largeStraights, List.mem_cons, List.not_mem_nil, or_false, exists_eq_or_imp,
    forall_eq_or_imp, forall_eq, exists_eq_left]
  grind

theorem largeStraight_mono {dice more : List Int} (h : ∀ d ∈ dice, d ∈ more)
    (hd : Combo.largeStraight.holds dice = true) : Combo.largeStraight.holds more = true := by
  rw [largeStraight_iff] at *
  exact ⟨h _ hd.1, h _ hd.2.1, h _ hd.2.2.1, h _ hd.2.2.2.1, hd.2.2.2.2.imp (h _) (h _)⟩

theorem straightPotential_of_largeStraight {dice : List Int}
    (h : Combo.largeStraight.holds dice = true) : straightPotential dice = true := by
  obtain ⟨run, hr, hrun⟩ := containsRun_iff.mp (show Combo.containsRun _ dice = true from h)
  exact containsRun_iff.mpr ⟨run, List.mem_append_right _ hr, hrun⟩

theorem mem_reroll_of_kept {G : Type} [Source G] {d : Int} {dice : List Int} {held : List Bool}
    (h : d ∈ kept dice held) (g : G) : d ∈ (reroll dice held g).1 := by
  induction dice generalizing held g with
  | nil => cases h
  | cons e dice ih =>
    cases held with
    | nil => cases h
    | cons keep held =>
      rw [kept_cons] at h
      cases keep with
      | false => exact List.mem_cons_of_mem _ (ih h _)
      | true =>
        obtain rfl | h := List.mem_cons.mp h
        · exact List.mem_cons_self
        · exact List.mem_cons_of_mem _ (ih h _)

structure Loaded where
  face : Int

instance : Source Loaded where
  die _ l := (l.face, l)

theorem mem_reroll_loaded {d face : Int} {dice : List Int} {held : List Bool}
    (h : d ∈ (reroll dice held (Loaded.mk face)).1) : d ∈ kept dice held ∨ d = face := by
  induction dice generalizing held with
  | nil => cases h
  | cons e dice ih =>
    cases held with
    | nil => cases h
    | cons keep held =>
      rw [kept_cons]
      cases keep with
      | false =>
        obtain rfl | h := List.mem_cons.mp h
        · exact .inr rfl
        · exact ih h
      | true =>
        obtain rfl | h := List.mem_cons.mp h
        · exact .inl List.mem_cons_self
        · exact (ih h).imp_left (List.mem_cons_of_mem e)

def LastChance (hero : Hero) (dice : List Int) (remaining : Int) (combos : List Combo) : Prop :=
  remaining = 1 ∧ ∃ a, hero.best dice = some a ∧ a.combo ∈ combos

/-- When a hunter of straights leaves a large one whole: no roll remains, the last one is not worth
taking, or it does not hunt (or hunts without loss). -/
def Spares (hero : Hero) (dice : List Int) (remaining : Int) (statuses : Stacks) : Prop :=
  remaining ≤ 0 ∨ LastChance hero dice remaining [.fullHouse, .largeStraight] ∨
    ¬LastChance hero dice remaining [.fourOfAKind] ∧
      (0 < (statuses.get? "evasive").getD 0 ∨ ∀ d ∈ [2, 3, 4, 5, 6], d ∈ dice)

variable {hero : Hero} {dice : List Int} {remaining : Int} {statuses : Stacks}

theorem huntStraight_cases (hero : Hero) (remaining : Int) (statuses : Stacks)
    (h : Combo.largeStraight.holds dice = true) :
    LastChance hero dice remaining [.fullHouse, .largeStraight] ∧
        huntStraight hero dice remaining statuses = holdAll dice ∨
      LastChance hero dice remaining [.fourOfAKind] ∧
        ¬LastChance hero dice remaining [.fullHouse, .largeStraight] ∧
        huntStraight hero dice remaining statuses = holdMostFrequent dice ∨
      ¬LastChance hero dice remaining [.fullHouse, .largeStraight] ∧
        ¬LastChance hero dice remaining [.fourOfAKind] ∧
        huntStraight hero dice remaining statuses =
          if (statuses.get? "evasive").getD 0 ≤ 0 then holdStraightPieces dice
          else holdAll dice := by
  have hlast : (if (statuses.get? "evasive").getD 0 ≤ 0 && straightPotential dice then
        holdStraightPieces dice
      else if Combo.largeStraight.holds dice then holdAll dice
      else holdMostFrequent dice) =
      if (statuses.get? "evasive").getD 0 ≤ 0 then holdStraightPieces dice else holdAll dice := by
    simp [straightPotential_of_largeStraight h, h]
  unfold huntStraight LastChance
  by_cases hr : remaining = 1
  · rw [if_pos hr]
    cases hb : hero.best dice with
    | none => exact .inr (.inr ⟨by simp, by simp, hlast⟩)
    | some a =>
      simp only [hr, Option.bind_some, settled, Option.some.injEq, exists_eq_left', true_and]
      cases hc : a.combo
      case fullHouse | largeStraight => exact .inl ⟨by simp, rfl⟩
      case fourOfAKind => exact .inr (.inl ⟨by simp, by simp, rfl⟩)
      all_goals exact .inr (.inr ⟨by simp, by simp, hlast⟩)
  · rw [if_neg hr]
    exact .inr (.inr ⟨fun h => hr h.1, fun h => hr h.1, hlast⟩)

theorem kept_holdAll (dice : List Int) : kept dice (holdAll dice) = dice := by
  rw [holdAll, kept_map]
  exact List.filter_eq_self.mpr fun _ _ => rfl

theorem mem_kept_holdStraightPieces {d : Int} :
    d ∈ kept dice (holdStraightPieces dice) ↔ d ∈ dice ∧ 2 ≤ d ∧ d ≤ 6 := by
  rw [holdStraightPieces, kept_map, List.mem_filter, decide_eq_true_iff]

theorem kept_holdMostFrequent_eq {d e : Int} (hd : d ∈ kept dice (holdMostFrequent dice))
    (he : e ∈ kept dice (holdMostFrequent dice)) : d = e := by
  rw [holdMostFrequent, kept_map, List.mem_filter, beq_iff_eq] at hd he
  exact Option.some.inj (hd.2.symm.trans he.2)

theorem kept_of_spares (h : Combo.largeStraight.holds dice = true)
    (hs : Spares hero dice remaining statuses) (hh : hero.strategy = .straightHunter) :
    Combo.largeStraight.holds (kept dice (hold hero dice remaining statuses)) = true := by
  unfold hold
  by_cases hr : remaining ≤ 0
  · rwa [if_pos hr, kept_holdAll]
  rw [if_neg hr, hh]
  change Combo.largeStraight.holds (kept dice (huntStraight hero dice remaining statuses)) = true
  obtain ⟨-, heq⟩ | ⟨hfour, hnone, -⟩ | ⟨hnone, -, heq⟩ :=
    huntStraight_cases hero remaining statuses h
  · rwa [heq, kept_holdAll]
  · exact absurd hfour ((hs.resolve_left hr).resolve_left hnone).1
  · rw [heq]
    split
    next he =>
      have hall := ((hs.resolve_left hr).resolve_left hnone).2.resolve_left (by omega)
      rw [largeStraight_iff] at *
      simp only [mem_kept_holdStraightPieces]
      obtain ⟨htwo, hthree, hfour, hfive, -⟩ := h
      exact ⟨⟨htwo, by decide⟩, ⟨hthree, by decide⟩, ⟨hfour, by decide⟩, ⟨hfive, by decide⟩,
        .inr ⟨hall 6 (by decide), by decide⟩⟩
    next => rwa [kept_holdAll]

/-- Where it is not left whole, loaded dice that show a two spoil it. -/
theorem spares_of_reroll (h : Combo.largeStraight.holds dice = true)
    (hh : hero.strategy = .straightHunter)
    (hroll : Combo.largeStraight.holds
      (reroll dice (hold hero dice remaining statuses) (Loaded.mk 2)).1 = true) :
    Spares hero dice remaining statuses := by
  by_cases hr : remaining ≤ 0
  · exact .inl hr
  unfold hold at hroll
  rw [if_neg hr, hh] at hroll
  change Combo.largeStraight.holds
    (reroll dice (huntStraight hero dice remaining statuses) (Loaded.mk 2)).1 = true at hroll
  rw [largeStraight_iff] at hroll
  obtain ⟨-, hthree, hfour, hfive, hend⟩ := hroll
  have hkept {d : Int} (hne : d ≠ 2)
      (hd : d ∈ (reroll dice (huntStraight hero dice remaining statuses) (Loaded.mk 2)).1) :=
    (mem_reroll_loaded hd).resolve_right hne
  obtain ⟨hlast, -⟩ | ⟨-, -, heq⟩ | ⟨-, hno, heq⟩ :=
    huntStraight_cases hero remaining statuses h
  · exact .inr (.inl hlast)
  · have hthree := hkept (by decide) hthree
    have hfour := hkept (by decide) hfour
    rw [heq] at hthree hfour
    exact absurd (kept_holdMostFrequent_eq hthree hfour) (by decide)
  · refine .inr (.inr ⟨hno, ?_⟩)
    by_cases he : 0 < (statuses.get? "evasive").getD 0
    · exact .inl he
    rw [if_pos (by omega)] at heq
    rw [heq] at hkept hthree hfour hfive hend
    simp only [mem_kept_holdStraightPieces] at hkept
    have hsix : (6 : Int) ∈ dice := by
      obtain hone | hsix := hend
      · exact absurd (hkept (by decide) hone).2.1 (by decide)
      · exact (hkept (by decide) hsix).1
    have htwo := (largeStraight_iff.mp h).1
    refine .inr fun d hd => ?_
    simp only [List.mem_cons, List.not_mem_nil, or_false] at hd
    obtain rfl | rfl | rfl | rfl | rfl := hd
    · exact htwo
    · exact (hkept (by decide) hthree).1
    · exact (hkept (by decide) hfour).1
    · exact (hkept (by decide) hfive).1
    · exact hsix

/-- A hunter of straights keeps a large straight, whatever the dice show that it rolls again,
exactly where it spares it. -/
theorem keeps_largeStraight_iff (hero : Hero) (dice : List Int) (remaining : Int)
    (statuses : Stacks) (hh : hero.strategy = .straightHunter)
    (hd : Combo.largeStraight.holds dice = true) :
    (Combo.largeStraight.holds (kept dice (hold hero dice remaining statuses)) = true ↔
        Spares hero dice remaining statuses) ∧
      ((∀ (G : Type) [Source G] (g : G), Combo.largeStraight.holds
          (reroll dice (hold hero dice remaining statuses) g).1 = true) ↔
        Spares hero dice remaining statuses) := by
  have hrolls (hk : Combo.largeStraight.holds
      (kept dice (hold hero dice remaining statuses)) = true) (G : Type) [Source G] (g : G) :
      Combo.largeStraight.holds (reroll dice (hold hero dice remaining statuses) g).1 = true :=
    largeStraight_mono (fun d hd => mem_reroll_of_kept hd g) hk
  refine ⟨⟨fun hk => spares_of_reroll hd hh (hrolls hk Loaded ⟨2⟩), fun hs => ?_⟩,
    fun hr => spares_of_reroll hd hh (hr Loaded ⟨2⟩), fun hs => ?_⟩
  · exact kept_of_spares hd hs hh
  · exact fun G _ g => hrolls (kept_of_spares hd hs hh) G g

def monk : Hero := { id := "monk", name := "Monk", strategy := .straightHunter }

theorem keeps_largeStraight_iff_monk :
    Combo.largeStraight.holds (kept [2, 3, 4, 5, 6] (hold monk [2, 3, 4, 5, 6] 2 .empty)) = true :=
  (keeps_largeStraight_iff monk [2, 3, 4, 5, 6] 2 .empty rfl (by decide)).1.mpr
    (.inr (.inr ⟨fun h => absurd h.1 (by decide), .inr (by decide)⟩))

/-- It gives the one of a finished straight away for a six. -/
theorem not_kept_whole : ¬∀ (hero : Hero) (dice : List Int) (remaining : Int) (statuses : Stacks),
    hero.strategy = .straightHunter → Combo.largeStraight.holds dice = true →
      Combo.largeStraight.holds (kept dice (hold hero dice remaining statuses)) = true :=
  fun hall => absurd (hall monk [1, 2, 3, 4, 5] 2 .empty rfl (by decide)) (by decide)

end Duel.Dice
