import Duel.Proofs.Match.Records

namespace Duel

namespace Spend

variable {R : Type}

/-- The stacks of a status that were spent. -/
def spentOn (summaries : List (Summary R)) (id : String) : Int :=
  total ((summaries.filter (·.id = id)).map (·.spent))

/-- The stacks of a status that were spent before its last spend. -/
def spentEarlier (summaries : List (Summary R)) (id : String) : Int :=
  total ((summaries.filter (·.id = id)).dropLast.map (·.spent))

variable {summaries : List (Summary R)} {id : String}

theorem total_pos {ns : List Int} (h : ∀ n ∈ ns, 0 < n) (hne : ns ≠ []) : 0 < total ns := by
  induction ns with
  | nil => exact absurd rfl hne
  | cons n ns ih =>
    obtain ⟨hn, h⟩ := List.forall_mem_cons.mp h
    by_cases hns : ns = []
    · simpa [hns, total] using hn
    · have hpos := ih h hns
      change 0 < n + total ns
      omega

theorem spentEarlier_eq_zero_iff (h : ∀ s ∈ summaries, 0 < s.spent) :
    spentEarlier summaries id = 0 ↔ summaries.countP (·.id = id) ≤ 1 := by
  rw [List.countP_eq_length_filter, spentEarlier]
  generalize hf : summaries.filter (·.id = id) = found
  by_cases hlen : found.length ≤ 1
  · have hnil : found.dropLast = [] := by
      apply List.eq_nil_of_length_eq_zero
      rw [List.length_dropLast]
      omega
    simp [hnil, hlen, total]
  · have hpos : 0 < total (found.dropLast.map (·.spent)) := by
      apply total_pos
      · intro n hn
        obtain ⟨s, hs, rfl⟩ := List.mem_map.mp hn
        have hmem : s ∈ summaries.filter (·.id = id) := hf ▸ (List.dropLast_sublist found).subset hs
        exact h s (List.mem_filter.mp hmem).1
      · intro hnil
        have hzero : found.length - 1 = 0 := by
          rw [← List.length_dropLast, List.map_eq_nil_iff.mp hnil, List.length_nil]
        omega
    omega

end Spend

namespace Record

variable {R : Type}

def spentOn (r : Record) (id : String) : Int := (r.spent.get? id).getD 0

theorem get?_spent (summaries : List (Spend.Summary R)) (id : String) :
    ((Ledger.ofList (summaries.map fun s => (s.id, s.spent))).get? id).getD 0 =
      Spend.spentOn summaries id - Spend.spentEarlier summaries id := by
  have hfilter : (summaries.map fun s => (s.id, s.spent)).filter (·.1 = id) =
      (summaries.filter (·.id = id)).map fun s => (s.id, s.spent) := List.filter_map
  rw [Ledger.get?_ofList, hfilter, Spend.spentOn, Spend.spentEarlier]
  obtain h | ⟨init, s, h⟩ := List.eq_nil_or_concat (summaries.filter (·.id = id))
  · simp [h, total]
  · have hinit : init.concat s = init ++ [s] := List.concat_eq_append
    rw [h, hinit]
    simp only [List.map_append, total_append, List.getLast?_append, List.dropLast_concat]
    have hlast : total ([s].map (·.spent)) = s.spent := Int.add_zero _
    rw [hlast, Int.add_comm, Int.add_sub_cancel]
    rfl

theorem count_enterSpent (totals : Ledger Int) (e : String × Int) (id : String) :
    Stacks.count (enterSpent totals e) id =
      Stacks.count totals id + if e.1 = id then e.2 else 0 := by
  unfold enterSpent Stacks.count
  by_cases he : e.1 = id
  · subst he
    simp
  · simp [Ledger.get?_put_of_ne (Ne.symm he), he]

theorem count_foldl_enterSpent (es : List (String × Int)) (totals : Ledger Int) (id : String) :
    Stacks.count (es.foldl enterSpent totals) id =
      Stacks.count totals id + total ((es.filter (·.1 = id)).map Prod.snd) := by
  induction es generalizing totals with
  | nil => simp [total]
  | cons e es ih =>
    rw [List.foldl_cons, ih, count_enterSpent, List.filter_cons]
    by_cases he : e.1 = id
    · simp [he, total]
      omega
    · simp [he]

theorem total_entries (l : Ledger Int) (id : String) :
    total ((l.entries.filter (·.1 = id)).map Prod.snd) = (l.get? id).getD 0 := by
  have hd := l.distinct
  unfold Ledger.get?
  generalize l.entries = es at hd
  induction es with
  | nil => rfl
  | cons e es ih =>
    obtain ⟨hne, hd⟩ := List.nodup_cons.mp hd
    rw [List.filter_cons, List.find?_cons]
    by_cases he : e.1 = id
    · have hrest : es.filter (·.1 = id) = [] := by
        apply List.filter_eq_nil_iff.mpr
        intro d hmem hid
        have hdid : d.1 = id := of_decide_eq_true hid
        exact hne (List.mem_map.mpr ⟨d, hmem, hdid.trans he.symm⟩)
      simp [he, hrest, total]
    · have hne' : (e.1 == id) = false := by simpa using he
      simpa [he, hne'] using ih hd

/-- The totals of records are the sums of what they have as spent. -/
theorem count_spentTotals (records : List Record) (id : String) :
    Stacks.count (spentTotals records) id = total (records.map (·.spentOn id)) := by
  have hfold : ∀ totals : Ledger Int,
      Stacks.count ((records.flatMap (·.spent.entries)).foldl enterSpent totals) id =
        Stacks.count totals id + total (records.map (·.spentOn id)) := by
    induction records with
    | nil => simp [total]
    | cons r records ih =>
      intro totals
      rw [List.flatMap_cons, List.foldl_append, ih, count_foldl_enterSpent, total_entries]
      change _ = _ + (r.spentOn id + total (records.map (·.spentOn id)))
      unfold spentOn
      omega
  rw [spentTotals, hfold]
  exact Int.zero_add _

end Record

namespace Match

variable {R G : Type}

def Blow.summaries (b : Blow R G) : List (Spend.Summary R) := b.spends ++ b.plan.resolution.spends

variable [Scalar R] [Dice.Source G] {m m' : Match R G} {rs : List Record}

/-- What both sides spend on an attack until it comes to a blow. -/
def outlay (orders : Orders) : Step R G (List (Spend.Summary R)) := do
  let m ← get
  match ← ofExcept (choose (m.player m.active).hero orders) with
  | none => return []
  | some ability =>
    let _ ← trigger .nextAttackCommit m.active
    let (damage, spends) ← prepare m.active ability orders
    let _ ← trigger .nextDefenseCommit m.active.other
    let plan ← defend m.active.other (damage + total (spends.map (·.damage))) orders
    return spends ++ plan.resolution.spends

theorem Blow.Of.outlay {b : Blow R G} {ability : Ability} {orders : Orders}
    (h : b.Of m.active ability orders m)
    (hc : choose (m.player m.active).hero orders = .ok (some ability)) :
    outlay orders m = .ok b.summaries b.defended := by
  have hchoose : ofExcept (choose (m.player m.active).hero orders) m = .ok (some ability) m := by
    rw [hc]
    rfl
  refine (get_bind _ m).trans ((bind_of_ok hchoose _).trans ?_)
  refine (bind_of_ok h.commits _).trans ((bind_of_ok h.prepares _).trans ?_)
  refine (bind_of_ok h.answers _).trans ((bind_of_ok h.defends _).trans ?_)
  rfl

/-- An attack leaves one record, and that has of each status what was spent of it last. -/
theorem attack_outlay {orders : Orders} {reply : Option Attack.Resolution}
    (h : attack orders m = .ok reply m') (hr : m.records = some rs) :
    ∃ summaries u r, outlay orders m = .ok summaries u ∧ m'.records = some (rs ++ [r]) ∧
      ∀ id, r.spentOn id = Spend.spentOn summaries id - Spend.spentEarlier summaries id := by
  obtain ⟨_, _, hg, h⟩ := bind_ok h
  obtain ⟨rfl, rfl⟩ := get_ok hg
  obtain ⟨ability, _, hc, h⟩ := bind_ok h
  obtain ⟨hx, rfl⟩ := ofExcept_ok hc
  cases ability with
  | none =>
    obtain ⟨_, u, hk, h⟩ := bind_ok h
    obtain ⟨-, rfl⟩ := pure_ok h
    have hrec := congrArg Score.records (keepUpkeep_score hk)
    refine ⟨[], m, _, (get_bind _ m).trans (bind_of_ok hc _),
      hrec.trans (congrArg (Option.map _) hr), fun id => ?_⟩
    rfl
  | some ability =>
    obtain ⟨res, u, hs, h⟩ := bind_ok h
    obtain ⟨-, rfl⟩ := pure_ok h
    obtain ⟨s, hs⟩ := strike_iff.mp hs
    have hrec := congrArg Score.records hs.score
    refine ⟨s.summaries, s.defended, _, hs.outlay hx,
      hrec.trans (congrArg (Option.map _) hr), fun id => ?_⟩
    exact Record.get?_spent s.summaries id

/-- The spends of the attacks that a call makes, one at most. -/
def Call.outlays (m : Match R G) : Call R → List (List (Spend.Summary R))
  | .attack orders => ((ended? (outlay orders m)).map Prod.fst).toList
  | _ => []

/-- The spends of each attack, where calls are performed one after the other. -/
def outlays : List (Call R) → Match R G → List (List (Spend.Summary R))
  | [], _ => []
  | c :: calls, m =>
    match c.perform m with
    | .ok _ u => c.outlays m ++ outlays calls u
    | .error .. => []

def Enters (rs : List Record) (spent : List (List (Spend.Summary R))) (m : Match R G) : Prop :=
  ∃ more, m.records = some (rs ++ more) ∧ ∀ id, total (more.map (·.spentOn id)) =
    total (spent.map fun ss => Spend.spentOn ss id - Spend.spentEarlier ss id)

omit [Scalar R] [Dice.Source G] in
theorem Enters.of_records (h : m'.records = m.records) (hr : m.records = some rs) :
    Enters (R := R) rs [] m' :=
  ⟨[], by rw [List.append_nil, h, hr], fun _ => rfl⟩

theorem perform_enters {c : Call R} {reply : Option Attack.Resolution}
    (h : c.perform m = .ok reply m') (hr : m.records = some rs) :
    Enters rs (c.outlays m) m' := by
  cases c with
  | attack orders =>
    obtain ⟨summaries, u, r, ho, hm', hspent⟩ := attack_outlay h hr
    refine ⟨[r], hm', fun id => ?_⟩
    simp [Call.outlays, ho, ended?, total, hspent]
  | startTurn side =>
    obtain ⟨-, _, hs⟩ := discard_bind_ok h
    obtain ⟨d, -, hscore⟩ := startTurn_score hs
    by_cases hp : 0 < ((m.score.begun side d).player side).hp
    · rw [Score.fallen, if_pos hp] at hscore
      exact .of_records (congrArg Score.records hscore) hr
    · rw [Score.fallen, if_neg hp] at hscore
      exact ⟨[_], (congrArg Score.records hscore).trans (congrArg (Option.map _) hr), fun _ => rfl⟩
  | answerPrompt side id roll =>
    obtain ⟨-, _, hs⟩ := discard_bind_ok h
    exact .of_records (congrArg Score.records ((answerPrompt_spares _ _ _).ok hs)) hr
  | endTurn =>
    obtain ⟨-, _, hs⟩ := discard_bind_ok h
    exact .of_records (congrArg Score.records ((endTurn_comes m).of_ok hs)) hr
  | cue r =>
    obtain ⟨_, _, ha, h⟩ := bind_ok h
    obtain ⟨-, rfl⟩ := pure_ok h
    exact .of_records (congrArg Score.records ((atDesk_spares _).ok ha)) hr

theorem run_enters {calls : List (Call R)} {replies : List (Option Attack.Resolution)}
    (h : run calls m = .ok replies m') (hr : m.records = some rs) :
    Enters rs (outlays calls m) m' := by
  induction calls generalizing m replies rs with
  | nil =>
    obtain ⟨-, rfl⟩ := pure_ok h
    exact .of_records rfl hr
  | cons c calls ih =>
    obtain ⟨reply, u, rest, hc, hrest, -⟩ := run_cons h
    obtain ⟨first, hu, hfirst⟩ := perform_enters hc hr
    obtain ⟨more, hm', hmore⟩ := ih hrest hu
    refine ⟨first ++ more, by rw [hm', List.append_assoc], fun id => ?_⟩
    rw [outlays, hc]
    simp only [List.map_append, total_append, hfirst, hmore]

/-- The record of an attack falls short of what was spent on it by all that was spent of a status
before its last spend; so do the totals of a whole match. -/
theorem records_fall_short (settings : Settings R) (registry : Registry R) (dice : G)
    (heroes : Sides Hero) :
    (∀ (m m' : Match R G) orders res rs, m.records = some rs →
      attack orders m = .ok (some res) m' →
        ∃ summaries u r, outlay orders m = .ok summaries u ∧ m'.records = some (rs ++ [r]) ∧
          ∀ id, r.spentOn id = Spend.spentOn summaries id - Spend.spentEarlier summaries id ∧
            ((∀ s ∈ summaries, 0 < s.spent) →
              (r.spentOn id = Spend.spentOn summaries id ↔
                summaries.countP (·.id = id) ≤ 1))) ∧
    ∀ calls replies (m : Match R G),
      run calls (start settings registry dice heroes true) = .ok replies m →
        ∃ rs, m.records = some rs ∧ ∀ id, Stacks.count (Record.spentTotals rs) id =
          total ((outlays calls (start settings registry dice heroes true)).map fun ss =>
            Spend.spentOn ss id - Spend.spentEarlier ss id) := by
  constructor
  · intro m m' orders res rs hr h
    obtain ⟨summaries, u, r, ho, hm', hspent⟩ := attack_outlay h hr
    refine ⟨summaries, u, r, ho, hm', fun id => ⟨hspent id, fun hpos => ?_⟩⟩
    rw [← Spend.spentEarlier_eq_zero_iff hpos, hspent]
    omega
  · intro calls replies m h
    obtain ⟨rs, hm, hspent⟩ := run_enters h (rfl : _ = some [])
    exact ⟨rs, hm, fun id => (Record.count_spentTotals rs id).trans (hspent id)⟩

def focus : Status Rat where
  id := "focus"
  name := "Focus"
  spend := some { phases := [.attackRoll, .defenseRoll], apply := some fun _ => .ok (some {}) }

def adept : Hero where
  id := "adept"
  name := "Adept"
  abilities := [{ combo := .threeOfAKind, damage := 4, grants := .ofList [("focus", 2)] }]
  defense := [{ minRoll := 1, block := 1 }]

def adepts : Match Rat Unit :=
  start { cueLengths := .empty } (Registry.empty.define focus) () ⟨adept, adept⟩ true

def calm : Orders where
  dice := [3, 3, 3, 1, 2]
  defenseRoll := some 1

def clash : Orders :=
  { calm with spends := .ofList [("focus", 2)], requests := [{ status := "focus" }] }

def approach : List (Call Rat) :=
  [.startTurn .you, .attack calm, .endTurn, .startTurn .ai, .attack calm, .endTurn,
    .startTurn .you]

/-- What the record of an attack has of a status, and what was spent of it. -/
def account (id : String) (orders : Orders) (m : Match R G) : Option (Int × Int) := do
  let (reply, after) ← ended? (attack orders m)
  let (summaries, _) ← ended? (outlay orders m)
  let r ← after.records.bind (·.getLast?)
  if reply.isSome then some (r.spentOn id, Spend.spentOn summaries id) else none

theorem attack_of_account {id : String} {orders : Orders} {x y : Int}
    (h : account id orders m = some (x, y)) (hr : m.records = some rs) :
    ∃ res m' summaries u r, attack orders m = .ok (some res) m' ∧
      outlay orders m = .ok summaries u ∧ m'.records = some (rs ++ [r]) ∧
      r.spentOn id = x ∧ Spend.spentOn summaries id = y := by
  unfold account at h
  cases ha : attack orders m with
  | error fault u =>
    rw [ha] at h
    cases h
  | ok reply m' =>
    obtain ⟨summaries, u, r, ho, hm', -⟩ := attack_outlay ha hr
    cases reply with
    | none => simp [ha, ho, hm', ended?] at h
    | some res =>
      obtain ⟨hx, hy⟩ : r.spentOn id = x ∧ Spend.spentOn summaries id = y := by
        simpa [ha, ho, hm', ended?] using h
      exact ⟨res, m', summaries, u, r, rfl, ho, hm', hx, hy⟩

theorem approach_clashes : ∃ replies m, run approach adepts = .ok replies m ∧
    account "focus" clash m = some (1, 3) := by
  have hends : ((ended? (run approach adepts)).any fun r =>
      account "focus" clash r.2 == some (1, 3)) = true := by decide +kernel
  obtain ⟨replies, m, h, hm⟩ := ok_of_ended hends
  exact ⟨replies, m, h, eq_of_beq hm⟩

theorem records_fall_short_adepts : ∃ replies m rs res m' summaries u r,
    run approach adepts = .ok replies m ∧ m.records = some rs ∧
    (∀ id, Stacks.count (Record.spentTotals rs) id = total ((outlays approach adepts).map fun ss =>
      Spend.spentOn ss id - Spend.spentEarlier ss id)) ∧
    attack clash m = .ok (some res) m' ∧ outlay clash m = .ok summaries u ∧
    m'.records = some (rs ++ [r]) ∧ Spend.spentOn summaries "focus" = 3 ∧
    Spend.spentEarlier summaries "focus" = 2 ∧ r.spentOn "focus" = 1 := by
  have hlaws := records_fall_short (R := Rat) (G := Unit) { cueLengths := .empty }
    (Registry.empty.define focus) () ⟨adept, adept⟩
  obtain ⟨replies, m, hm, hclash⟩ := approach_clashes
  obtain ⟨rs, hr, htotals⟩ := hlaws.2 _ _ _ hm
  obtain ⟨res, m', summaries, u, r, ha, ho, hr', hrecorded, hspent⟩ := attack_of_account hclash hr
  obtain ⟨ss, v, q, ho', hq, hlast⟩ := hlaws.1 m m' clash res rs hr ha
  obtain ⟨rfl, rfl⟩ := EStateM.Result.ok.inj (ho'.symm.trans ho)
  obtain rfl : q = r := by simpa using Option.some.inj (hq.symm.trans hr')
  have hfocus := (hlast "focus").1
  exact ⟨replies, m, rs, res, m', ss, v, q, hm, hr, htotals, ha, ho, hr', hspent, by omega,
    hrecorded⟩

/-- You spend two stacks and the other side one, but the record has one alone. -/
theorem not_tallied : ¬∀ (m m' : Match Rat Unit) orders res rs r summaries u,
    m.records = some rs → attack orders m = .ok (some res) m' →
      outlay orders m = .ok summaries u → m'.records = some (rs ++ [r]) →
        ∀ id, r.spentOn id = Spend.spentOn summaries id := by
  intro h
  obtain ⟨replies, m, hm, hclash⟩ := approach_clashes
  obtain ⟨rs, hr, -⟩ := run_enters hm (rfl : _ = some [])
  obtain ⟨res, m', summaries, u, r, ha, ho, hr', hrecorded, hspent⟩ := attack_of_account hclash hr
  have heq := h m m' clash res _ r summaries u hr ha ho hr' "focus"
  rw [hrecorded, hspent] at heq
  exact absurd heq (by decide)

end Match

end Duel
