import Duel.Proofs.Double.HalfUp
import Duel.Proofs.Number
import Duel.Proofs.Stacks.Ticking

namespace Duel

namespace Stacks

section

variable {R : Type} [Scalar R]

def tickRow (reg : Registry R) (owner : Option String) :
    Nat → Stacks → Work (List Tick.Outcome)
  | 0, _ => pure []
  | k + 1, held => do
    let o ← held.tick reg owner
    return o :: (← tickRow reg owner k o.next)

def only (id : String) (n : Int) : Stacks := if n ≤ 0 then .empty else .ofList [(id, n)]

theorem entries_only (id : String) (n : Int) :
    (only id n).entries = if n ≤ 0 then [] else [(id, n)] := by
  unfold only
  split <;> rfl

theorem get?_only (id : String) (n : Int) :
    (only id n).get? id = if n ≤ 0 then none else some n := by
  unfold only
  split
  · rfl
  · simp [Ledger.ofList]

theorem count_only (id : String) (n : Int) : (only id n).count id = max 0 n := by
  unfold count
  rw [get?_only]
  split
  · rw [Option.getD_none]
    omega
  · rw [Option.getD_some]
    omega

/-- A status that works as an affliction does, without a hook of its own. -/
structure Afflicts (reg : Registry R) (id : String) (s : Status R) (a : Affliction R) : Prop where
  known : reg.get? id = some s
  hookless : s.onTick = none
  behavior : s.behavior = some (.affliction a)
  tiers : a.tiers ≠ []
  harmless : ∀ t ∈ a.tiers, 0 ≤ t

/-- What becomes of `n` stacks in a tick that takes `d` away. -/
def worn (id name : String) (a : Affliction R) (d n : Int) : Tick.Outcome where
  next := only id (n - d)
  damage := a.damage n
  logs := if 0 < a.damage n then
    [name ++ " " ++ toString n ++ " -> " ++ toString (a.damage n) ++ " dmg"] else []
  prompts := if 0 < a.damage n ∧ 0 < n - d then [⟨id, n - d⟩] else []

end

end Stacks

namespace Affliction

variable {R : Type} {a : Affliction R} {n : Int}

/-- What a tick has to tell of `n` stacks is short enough to be written. -/
def Told (a : Affliction R) (n : Int) : Prop :=
  0 < a.damage n → Number.Short n ∧ Number.Short (a.damage n)

instance (a : Affliction R) (n : Int) : Decidable (a.Told n) := inferInstanceAs (Decidable (_ → _))

def result (a : Affliction R) (name : String) (d n : Int) : Tick.Result where
  next := max 0 (n - d)
  damage := a.damage n
  prompt := decide (0 < a.damage n) && (a.promptOnDamage || decide (0 < max 0 (n - d)))
  log := if 0 < a.damage n then
    some (name ++ " " ++ toString n ++ " -> " ++ toString (a.damage n) ++ " dmg") else none

theorem damage_of_le (h : n ≤ 0) : a.damage n = 0 := if_neg (by omega)

theorem told_of_le (h : n ≤ 0) : a.Told n := fun hpos => by
  rw [damage_of_le h] at hpos
  omega

theorem line_eq (name : String) (n damage : Int) :
    line name n damage = if Number.Short n ∧ Number.Short damage then
      .ok (name ++ " " ++ toString n ++ " -> " ++ toString damage ++ " dmg")
    else .error .lengthy := by
  unfold line
  rw [Number.digits_eq, Number.digits_eq]
  by_cases hn : Number.Short n
  · by_cases hd : Number.Short damage
    · rw [if_pos hn, if_pos hd, if_pos ⟨hn, hd⟩]
      rfl
    · rw [if_pos hn, if_neg hd, if_neg (not_and_of_not_right _ hd)]
      rfl
  · rw [if_neg hn, if_neg (not_and_of_not_left _ hn)]
    rfl

/-- Where the decay can be rounded, a tick fails only for a number that is too long for its text. -/
theorem tick_eq [Scalar R] {d : Int} (hround : Scalar.roundHalfUp a.decay = .ok d) (name : String)
    (n : Int) : a.tick name n =
      if a.Told n then .ok (a.result name (max 0 d) (max 0 n)) else .error .lengthy := by
  have hdamage : a.damage (max 0 n) = a.damage n := by
    by_cases hn : 0 ≤ n
    · rw [max_eq_right hn]
    · rw [damage_of_le (n := n) (by omega), damage_of_le (by omega)]
  simp only [tick, hround, hdamage, bind, Except.bind]
  by_cases hhurts : 0 < a.damage n
  · have hn : 0 ≤ n := by
      by_contra hn
      rw [damage_of_le (by omega)] at hhurts
      omega
    rw [decide_eq_true hhurts, if_pos rfl, line_eq, max_eq_right hn]
    have htold : a.Told n ↔ Number.Short n ∧ Number.Short (a.damage n) :=
      forall_prop_of_true hhurts
    by_cases hshort : Number.Short n ∧ Number.Short (a.damage n)
    · rw [if_pos hshort, if_pos (htold.mpr hshort)]
      simp [result, hhurts, pure, Except.pure, Functor.map, Except.map]
    · rw [if_neg hshort, if_neg (mt htold.mp hshort)]
      rfl
  · have htold : a.Told n := fun h => absurd h hhurts
    rw [decide_eq_false hhurts, if_neg Bool.false_ne_true, if_pos htold]
    simp [result, hdamage, hhurts, pure, Except.pure]

theorem tick_ok_iff [Scalar R] (name : String) : (∃ r, a.tick name n = .ok r) ↔
    (∃ d, Scalar.roundHalfUp a.decay = .ok d) ∧ a.Told n := by
  cases hround : Scalar.roundHalfUp a.decay with
  | error fault =>
    have htick : a.tick name n = .error fault := by
      unfold tick
      rw [hround]
      rfl
    rw [htick]
    exact iff_of_false (fun ⟨r, h⟩ => by cases h) fun h => by cases h.1.choose_spec
  | ok d =>
    rw [tick_eq hround]
    split
    next h => exact iff_of_true ⟨_, rfl⟩ ⟨⟨d, rfl⟩, h⟩
    next h => exact iff_of_false (fun ⟨r, h⟩ => by cases h) fun hd => h hd.2

theorem damage_eq (hn : 0 < n) (h : a.tiers ≠ []) :
    a.tiers[min n.toNat a.tiers.length - 1]? = some (a.damage n) := by
  have hl := List.length_pos_of_ne_nil h
  have hlt : min n.toNat a.tiers.length - 1 < a.tiers.length := by omega
  unfold damage
  rw [if_pos hn, List.getD_eq_getElem?_getD, List.getElem?_eq_getElem hlt, Option.getD_some]

theorem damage_nonneg (h : ∀ t ∈ a.tiers, 0 ≤ t) (hne : a.tiers ≠ []) (n : Int) :
    0 ≤ a.damage n := by
  by_cases hn : 0 < n
  · exact h _ (List.mem_of_getElem? (damage_eq hn hne))
  · rw [damage_of_le (by omega)]

end Affliction

namespace Stacks

section

variable {R : Type} [Scalar R] {reg : Registry R} {owner : Option String} {id : String}
  {s : Status R} {a : Affliction R} {d n : Int}

theorem ticked_affliction (h : Afflicts reg id s a) (hround : Scalar.roundHalfUp a.decay = .ok d)
    (hd : 0 ≤ d) (hn : 0 < n) : ticked reg (id, n) =
      if a.Told n then .ok (some (a.result s.name d n)) else .error (.number .lengthy) := by
  have htick : ticked reg (id, n) = ((a.tick s.name n).map some).mapError .number := by
    unfold ticked Status.tick
    rw [h.known]
    dsimp only
    rw [h.hookless, h.behavior]
    rfl
  rw [htick, Affliction.tick_eq hround, max_eq_right hd, max_eq_right hn.le]
  split <;> rfl

theorem gives_share (owner : Option String) {e : String × Int} {r : Tick.Result}
    (h : ticked reg e = .ok (some r)) :
    ∃ es, Gives (share reg owner e) (.ofResult e.1 (Status.clamp (reg.get? e.1) r.next) r) es := by
  unfold share
  rw [h]
  exact ⟨_, rfl⟩

omit [Scalar R] in
theorem of_ofResult {name : String} (hnonneg : 0 ≤ a.damage n) :
    Tick.Outcome.of [.ofResult id (max 0 (n - d)) (a.result name d n)] [] = worn id name a d n := by
  have hspoken : Event.spoken (a.result name d n).log = (a.result name d n).log := by
    unfold Affliction.result
    dsimp only
    split
    · simp [Event.spoken]
    · rfl
  unfold Tick.Outcome.of worn Tick.Share.ofResult
  congr 1
  · refine Ledger.eq_of_entries ((Ledger.entries_ofList ?_).trans ?_)
    · simp only [List.flatMap_singleton, List.append_nil]
      split <;> simp
    · rw [entries_only]
      simp only [List.flatMap_singleton, List.append_nil]
      by_cases hleft : n - d ≤ 0
      · rw [if_pos hleft, if_pos (by omega)]
      · rw [if_neg hleft, if_neg (by omega), Int.max_eq_right (by omega)]
  · exact (total_singleton _).trans (Int.max_eq_right hnonneg)
  · rw [List.flatMap_singleton, hspoken]
    unfold Affliction.result
    dsimp only
    split <;> rfl
  · rw [List.flatMap_singleton]
    unfold Affliction.result
    dsimp only
    by_cases hleft : d < n
    · rw [Int.max_eq_right (by omega)]
      simp [hleft]
    · have hzero : max 0 (n - d) = 0 := by omega
      simp [hleft, hzero]

theorem tick_only (owner : Option String) (h : Afflicts reg id s a)
    (hround : Scalar.roundHalfUp a.decay = .ok d) (hd : 0 ≤ d)
    (hcap : ∀ most, s.maxStacks = some most → n ≤ most) (htold : a.Told n) :
    ∃ es, Gives ((only id n).tick reg owner) (worn id s.name a d n) es := by
  have hentries := entries_only id n
  by_cases hn : n ≤ 0
  · rw [if_pos hn] at hentries
    have hworn : worn id s.name a d n = ⟨only id n, 0, [], []⟩ := by
      unfold worn only
      rw [Affliction.damage_of_le hn, if_pos hn, if_pos (by omega)]
      rfl
    refine ⟨[], ?_⟩
    unfold tick
    rw [hentries, hworn]
    rfl
  · rw [if_neg hn] at hentries
    have hnonneg := Affliction.damage_nonneg h.harmless h.tiers n
    have hclamp : Status.clamp (reg.get? id) (a.result s.name d n).next = max 0 (n - d) := by
      unfold Status.clamp Affliction.result
      rw [h.known]
      dsimp only
      split
      next most hm =>
        have := hcap most hm
        omega
      next => omega
    have hticked := ticked_affliction (n := n) h hround hd (by omega)
    rw [if_pos htold] at hticked
    have hshare := gives_share owner hticked
    dsimp only at hshare
    rw [hclamp] at hshare
    have hshares : Shares reg owner (only id n).entries
        [.ofResult id (max 0 (n - d)) (a.result s.name d n)] := by
      rw [hentries]
      exact .cons hshare .nil
    obtain ⟨es, htick⟩ := gives_tick hshares
    have hworn : Tick.Outcome.of [.ofResult id (max 0 (n - d)) (a.result s.name d n)] [] =
        worn id s.name a d n := of_ofResult hnonneg
    exact ⟨es, hworn ▸ htick⟩

theorem told_of_tick (h : Afflicts reg id s a) (hround : Scalar.roundHalfUp a.decay = .ok d)
    (hd : 0 ≤ d) {o : Tick.Outcome} {es : List Event}
    (ho : Gives ((only id n).tick reg owner) o es) : a.Told n := by
  by_cases hn : n ≤ 0
  · exact Affliction.told_of_le hn
  · have hmem : (id, n) ∈ (only id n).entries := by
      rw [entries_only, if_neg hn]
      exact List.mem_singleton_self _
    obtain ⟨r, hr⟩ := (tick_gives_iff _).mp ⟨o, es, ho⟩ _ hmem
    rw [ticked_affliction h hround hd (by omega)] at hr
    by_contra hno
    rw [if_neg hno] at hr
    cases hr

theorem tickRow_only (owner : Option String) (h : Afflicts reg id s a)
    (hround : Scalar.roundHalfUp a.decay = .ok d) (hd : 0 ≤ d)
    (hcap : ∀ most, s.maxStacks = some most → n ≤ most) (k : Nat)
    (htold : ∀ i < k, a.Told (n - i * d)) :
    ∃ es, Gives (tickRow reg owner k (only id n))
      ((List.range k).map fun (i : Nat) => worn id s.name a d (n - i * d)) es := by
  induction k generalizing n with
  | zero => exact ⟨[], rfl⟩
  | succ k ih =>
    have hfirst := htold 0 k.succ_pos
    rw [Nat.cast_zero, zero_mul, sub_zero] at hfirst
    obtain ⟨es, htick⟩ := tick_only owner h hround hd hcap hfirst
    obtain ⟨fs, hrest⟩ := ih (n := n - d)
      (fun most hm => by
        have := hcap most hm
        omega)
      fun i hi => by
        have hnext := htold (i + 1) (by omega)
        rwa [Nat.cast_succ, add_mul, one_mul, add_comm, ← sub_sub] at hnext
    have hlist : ((List.range (k + 1)).map fun (i : Nat) => worn id s.name a d (n - i * d)) =
        worn id s.name a d n ::
          (List.range k).map fun (i : Nat) => worn id s.name a d (n - d - i * d) := by
      rw [List.range_succ_eq_map, List.map_cons, List.map_map]
      refine congrArg₂ List.cons ?_ (List.map_congr_left fun i _ => ?_)
      · simp
      · change worn id s.name a d (n - ((i + 1 : Nat) : Int) * d) = _
        congr 1
        push_cast
        ring
    rw [hlist]
    exact ⟨_, htick.seq (hrest.seq rfl)⟩

theorem told_of_tickRow (h : Afflicts reg id s a) (hround : Scalar.roundHalfUp a.decay = .ok d)
    (hd : 0 ≤ d) (hcap : ∀ most, s.maxStacks = some most → n ≤ most) {k : Nat}
    {os : List Tick.Outcome} {es : List Event}
    (hos : Gives (tickRow reg owner k (only id n)) os es) : ∀ i < k, a.Told (n - i * d) := by
  induction k generalizing n os es with
  | zero => exact fun i hi => absurd hi (Nat.not_lt_zero i)
  | succ k ih =>
    obtain ⟨o, fs, gs, ho, hrest, -⟩ := hos.bind
    obtain ⟨os, hs, ds, hos, -, -⟩ := hrest.bind
    have hfirst := told_of_tick h hround hd ho
    obtain ⟨fs', ho'⟩ := tick_only owner h hround hd hcap hfirst
    obtain ⟨rfl, -⟩ := ho.unique ho'
    rintro (_ | i) hi
    · rwa [Nat.cast_zero, zero_mul, sub_zero]
    · have hnext := ih (fun most hm => by have := hcap most hm; omega) hos i (by omega)
      rwa [Nat.cast_succ, add_mul, one_mul, add_comm, ← sub_sub]

/-- The ticks of `n` stacks that each take `d` away, one after the other: the tick with `i` others
before it. -/
structure Wears (id : String) (a : Affliction R) (n d : Int) (i : Nat) (o : Tick.Outcome) :
    Prop where
  harm : 0 < n - i * d → a.tiers[min (n - i * d).toNat a.tiers.length - 1]? = some o.damage
  nothing : n - i * d ≤ 0 → o.damage = 0
  left : o.next.count id = max 0 (n - (i + 1) * d)
  gone : o.next.has id = false ↔ ⌈(n : Rat) / d⌉ ≤ i + 1
  prompts : o.prompts =
    if 0 < o.damage ∧ 0 < n - (i + 1) * d then [⟨id, n - (i + 1) * d⟩] else []

omit [Scalar R] in
theorem wears_worn (h : a.tiers ≠ []) (hd : 0 < d) (name : String) (i : Nat) :
    Wears id a n d i (worn id name a d (n - i * d)) := by
  have hleft : n - i * d - d = n - (i + 1) * d := by ring
  have hd' : (0 : Rat) < d := by exact_mod_cast hd
  refine ⟨fun hn => Affliction.damage_eq hn h, Affliction.damage_of_le, ?_, ?_, ?_⟩
  · rw [← hleft]
    exact count_only id _
  · have hgone : ⌈(n : Rat) / d⌉ ≤ i + 1 ↔ n - (i + 1) * d ≤ 0 := by
      rw [Int.ceil_le, div_le_iff₀ hd', sub_nonpos]
      exact_mod_cast Iff.rfl
    rw [hgone, ← hleft, Ledger.has_eq]
    change ((only id (n - i * d - d)).get? id).isSome = false ↔ _
    rw [get?_only]
    split <;> simp_all
  · rw [← hleft]
    rfl

/-- Ticks in a row wear `n` stacks off, each taking `d` away, however many they are. -/
def WearsOff (reg : Registry R) (owner : Option String) (id : String) (a : Affliction R)
    (n d : Int) : Prop :=
  ∀ k, ∃ os es, Gives (tickRow reg owner k (only id n)) os es ∧ os.length = k ∧
    ∀ i o, os[i]? = some o → Wears id a n d i o

omit [Scalar R] in
/-- All that ticks which take `d` away tell of `n` stacks can be written. -/
def Legible (a : Affliction R) (n d : Int) : Prop := ∀ i : Nat, a.Told (n - i * d)

theorem wearsOff_iff_legible (h : Afflicts reg id s a)
    (hround : Scalar.roundHalfUp a.decay = .ok d) (hd : 0 < d)
    (hcap : ∀ most, s.maxStacks = some most → n ≤ most) :
    WearsOff reg owner id a n d ↔ Legible a n d := by
  constructor
  · intro hw i
    obtain ⟨os, es, hos, -⟩ := hw (i + 1)
    exact told_of_tickRow h hround hd.le hcap hos i i.lt_succ_self
  · intro hl k
    obtain ⟨es, hrow⟩ := tickRow_only owner h hround hd.le hcap k fun i _ => hl i
    refine ⟨_, es, hrow, by simp, fun i o ho => ?_⟩
    rw [List.getElem?_map] at ho
    obtain ⟨j, hj, rfl⟩ := Option.map_eq_some_iff.mp ho
    obtain ⟨-, rfl⟩ := List.getElem?_eq_some_iff.mp hj
    rw [List.getElem_range]
    exact wears_worn h.tiers hd s.name i

omit [Scalar R] in
theorem legible_of_short (hn : Number.Short n) (ht : ∀ t ∈ a.tiers, Number.Short t) (hd : 0 ≤ d) :
    Legible a n d := by
  intro i hpos
  have hleft : 0 < n - i * d := by
    by_contra hle
    rw [Affliction.damage_of_le (by omega)] at hpos
    omega
  have hi : 0 ≤ i * d := mul_nonneg (Int.natCast_nonneg i) hd
  refine ⟨Number.short_of_le hleft.le (by omega) hn, ?_⟩
  unfold Affliction.damage at hpos ⊢
  rw [if_pos hleft, List.getD_eq_getElem?_getD] at hpos ⊢
  cases hget : a.tiers[min (n - i * d).toNat a.tiers.length - 1]? with
  | none =>
    rw [hget] at hpos
    exact absurd hpos (Int.lt_irrefl 0)
  | some t => exact ht t (List.mem_of_getElem? hget)

omit [Scalar R] in
theorem le_of_takes_all {c : Int} (hn : 0 < n) (hc : n ≤ c) (i : Nat) : n - i * c ≤ 0 ∨ i = 0 := by
  cases i with
  | zero => exact .inr rfl
  | succ i =>
    refine .inl ?_
    push_cast
    nlinarith

omit [Scalar R] in
theorem Legible.of_le {e : Int} (h : Legible a n e) (hn : 0 < n) (hd : n ≤ d) : Legible a n d := by
  intro i
  obtain hle | rfl := le_of_takes_all hn hd i
  · exact Affliction.told_of_le hle
  · simpa using h 0

omit [Scalar R] in
theorem Wears.of_le {e : Int} {i : Nat} {o : Tick.Outcome} (h : Wears id a n e i o) (hn : 0 < n)
    (he : n ≤ e) (hd : n ≤ d) : Wears id a n d i o := by
  have hnone (c : Int) (hc : n ≤ c) : n - (i + 1) * c ≤ 0 := by nlinarith
  have hone (c : Int) (hc : n ≤ c) : n - i * c ≤ 0 ∨ i = 0 := by
    cases i with
    | zero => exact .inr rfl
    | succ i =>
      refine .inl ?_
      push_cast
      nlinarith
  have hceil (c : Int) (hc : n ≤ c) : ⌈(n : Rat) / c⌉ ≤ i + 1 := by
    have hc' : (0 : Rat) < c := by exact_mod_cast hn.trans_le hc
    rw [Int.ceil_le, div_le_iff₀ hc']
    have := hnone c hc
    exact_mod_cast (show n ≤ (i + 1) * c by omega)
  have hprompts := h.prompts
  have hleft := h.left
  rw [max_eq_left (hnone e he)] at hleft
  rw [if_neg fun hp => absurd hp.2 (by have := hnone e he; omega)] at hprompts
  refine ⟨fun hpos => ?_, fun hle => ?_, ?_, ?_, ?_⟩
  · obtain hle | rfl := hone d hd
    · omega
    · simpa using h.harm (by simpa using hn)
  · obtain hle' | rfl := hone e he
    · exact h.nothing hle'
    · simp only [Nat.cast_zero, zero_mul, sub_zero] at hle
      omega
  · rw [max_eq_left (hnone d hd), hleft]
  · exact h.gone.trans (iff_of_true (hceil e he) (hceil d hd))
  · rw [hprompts, if_neg fun hp => absurd hp.2 (by have := hnone d hd; omega)]

theorem WearsOff.left_eq {e : Int} (hw : WearsOff reg owner id a n e) (h : Afflicts reg id s a)
    (hround : Scalar.roundHalfUp a.decay = .ok d) (hd : 0 < d)
    (hcap : ∀ most, s.maxStacks = some most → n ≤ most) : max 0 (n - e) = max 0 (n - d) := by
  obtain ⟨os, es, hos, -, hwears⟩ := hw 1
  obtain ⟨o, fs, gs, ho, hrest, -⟩ := hos.bind
  obtain ⟨rest, -, -, -, hrest, -⟩ := hrest.bind
  cases hrest
  obtain ⟨fs', ho'⟩ := tick_only owner h hround hd.le hcap (told_of_tick h hround hd.le ho)
  obtain ⟨rfl, -⟩ := ho.unique ho'
  have hleft := (hwears 0 _ rfl).left
  rw [Nat.cast_zero, zero_add, one_mul] at hleft
  exact hleft.symm.trans (count_only id (n - d))

end

section

variable {reg : Registry Number} {owner : Option String} {id : String} {s : Status Number}
  {a : Affliction Number} {x : Float} {v : Rat} {n : Int}

theorem roundHalfUp_of_value (hx : a.decay.double? = .ok x) (hv : Double.value? x = some v)
    (hd : 1 ≤ ⌊v + 1 / 2⌋) :
    (¬Double.Oversteps v → Scalar.roundHalfUp a.decay = .ok ⌊v + 1 / 2⌋) ∧
      (Double.Oversteps v → Scalar.roundHalfUp a.decay = .ok (⌊v + 1 / 2⌋ + 1)) := by
  have hhalf : 1 / 2 ≤ v := by
    have := Int.le_floor.mp hd
    push_cast at this
    linarith
  rw [Number.roundHalfUp_eq hx]
  exact Double.floor_add_half hv hhalf

/-- An affliction wears off by its decay rounded half up, unless the decay is an odd whole number so
large that adding a half oversteps it: then it loses one stack more, and a single tick must be
enough. Its ticks fail where they have to tell a number too long to be written, and only there. -/
theorem wearsOff_iff (reg : Registry Number) (owner : Option String) (id : String)
    (s : Status Number) (a : Affliction Number) (x : Float) (v : Rat) (n : Int)
    (h : Afflicts reg id s a) (hx : a.decay.double? = .ok x) (hv : Double.value? x = some v)
    (hd : 1 ≤ ⌊v + 1 / 2⌋) (hn : 1 ≤ n) (hcap : ∀ most, s.maxStacks = some most → n ≤ most) :
    (WearsOff reg owner id a n ⌊v + 1 / 2⌋ ↔
      (n ≤ ⌊v + 1 / 2⌋ ∨ ¬Double.Oversteps v) ∧ Legible a n ⌊v + 1 / 2⌋) ∧
      (Double.Oversteps v → (WearsOff reg owner id a n (⌊v + 1 / 2⌋ + 1) ↔
        Legible a n (⌊v + 1 / 2⌋ + 1))) := by
  obtain ⟨hsound, hover⟩ := roundHalfUp_of_value hx hv hd
  by_cases ho : Double.Oversteps v
  · have hround := hover ho
    have hmore : WearsOff reg owner id a n (⌊v + 1 / 2⌋ + 1) ↔
        Legible a n (⌊v + 1 / 2⌋ + 1) := wearsOff_iff_legible h hround (by omega) hcap
    refine ⟨⟨fun hw => ?_, fun ⟨hle, hl⟩ => ?_⟩, fun _ => hmore⟩
    · have hleft := hw.left_eq h hround (by omega) hcap
      have hle : n ≤ ⌊v + 1 / 2⌋ := by omega
      have hw' : WearsOff reg owner id a n (⌊v + 1 / 2⌋ + 1) := fun k => by
        obtain ⟨os, es, hos, hl, hw⟩ := hw k
        exact ⟨os, es, hos, hl, fun i o hi => (hw i o hi).of_le (by omega) hle (by omega)⟩
      exact ⟨.inl hle, (hmore.mp hw').of_le (by omega) hle⟩
    · have hle := hle.resolve_right fun hno => hno ho
      intro k
      obtain ⟨os, es, hos, hl, hw⟩ := hmore.mpr (hl.of_le (by omega) (by omega)) k
      exact ⟨os, es, hos, hl, fun i o hi => (hw i o hi).of_le (by omega) (by omega) hle⟩
  · have hw : WearsOff reg owner id a n ⌊v + 1 / 2⌋ ↔ Legible a n ⌊v + 1 / 2⌋ :=
      wearsOff_iff_legible h (hsound ho) (by omega) hcap
    exact ⟨hw.trans (and_iff_right (.inr ho)).symm, fun hover => absurd hover ho⟩

def rot (decay : Float) : Affliction Number where
  tiers := [2, 3]
  decay := .double decay

def rotten (decay : Float) : Status Number where
  id := "rot"
  name := "Rot"
  behavior := some (.affliction (rot decay))

theorem afflicts_rotten (decay : Float) :
    Afflicts (Registry.empty.define (rotten decay)) "rot" (rotten decay) (rot decay) :=
  ⟨rfl, rfl, rfl, List.cons_ne_nil _ _, show ∀ t ∈ ([2, 3] : List Int), 0 ≤ t by decide⟩

theorem wearsOff_iff_rot :
    WearsOff (Registry.empty.define (rotten 1.5)) (some "you") "rot" (rot 1.5) 3 2 := by
  have hread : Double.read 1.5 = .finite false 6755399441055744 (-52) := by decide +kernel
  have hvalue : Double.value? 1.5 = some (3 / 2) := by
    rw [Double.value_of_read hread]
    norm_num [Double.value]
  have hfloor : ⌊(3 / 2 : Rat) + 1 / 2⌋ = 2 := by norm_num
  have hfine : ¬Double.Oversteps (3 / 2) := by
    rintro ⟨m, hm, -, hlarge, -⟩
    have : (2 : Rat) ^ 52 < m := by exact_mod_cast hlarge
    rw [← hm] at this
    norm_num at this
  have hlegible : Legible (rot 1.5) 3 2 := legible_of_short (by decide +kernel)
    (show ∀ t ∈ ([2, 3] : List Int), Number.Short t by decide +kernel) (by decide)
  rw [← hfloor] at hlegible ⊢
  exact (wearsOff_iff _ (some "you") "rot" (rotten 1.5) (rot 1.5) 1.5 (3 / 2) 3
    (afflicts_rotten 1.5) rfl hvalue (by rw [hfloor]; decide) (by decide)
    (fun most hm => by cases hm)).1.mpr ⟨.inr hfine, hlegible⟩

/-- A decay of `2 ^ 52 + 1` takes one stack more away. -/
theorem not_wearsOff : ¬∀ (reg : Registry Number) (owner : Option String) (id : String)
    (s : Status Number) (a : Affliction Number) (x : Float) (v : Rat) (n : Int),
    Afflicts reg id s a → a.decay.double? = .ok x → Double.value? x = some v →
    1 ≤ ⌊v + 1 / 2⌋ → 1 ≤ n → (∀ most, s.maxStacks = some most → n ≤ most) →
      WearsOff reg owner id a n ⌊v + 1 / 2⌋ := by
  intro hall
  have hread : Double.read 4503599627370497 = .finite false 4503599627370497 0 := by
    decide +kernel
  have hvalue := Double.value_of_read hread
  rw [show Double.value false 4503599627370497 0 = 4503599627370497 by
    norm_num [Double.value]] at hvalue
  have hfloor : ⌊(4503599627370497 : Rat) + 1 / 2⌋ = 4503599627370497 := by norm_num
  have hone : 1 ≤ ⌊(4503599627370497 : Rat) + 1 / 2⌋ := by
    rw [hfloor]
    decide
  have hover : Double.Oversteps 4503599627370497 :=
    ⟨4503599627370497, by norm_num, by decide, by decide, by decide⟩
  have h := afflicts_rotten 4503599627370497
  have hround := (roundHalfUp_of_value (a := rot 4503599627370497) rfl hvalue hone).2 hover
  have hless := hall _ none "rot" _ _ 4503599627370497 4503599627370497 4503599627370498 h rfl
    hvalue hone (by decide) (fun most hm => by cases hm)
  have hleft := hless.left_eq h hround (by omega) (fun most hm => by cases hm)
  rw [hfloor] at hleft
  exact absurd hleft (by decide)

end

end Stacks

end Duel
