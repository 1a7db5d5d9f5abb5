import Duel.Attack
import Duel.Proofs.Defense.Requests
import Duel.Proofs.Stacks.Repeating
import Duel.Status.Entry

namespace Duel

/-- A defence that has to be made is refused. -/
def Fault.Refuses : Fault → Prop
  | .unknownDefense _ | .unpaidDefense _ | .needlessDefense => True
  | _ => False

namespace Defense

variable {R : Type} [Scalar R] {side : Side} {base : Base R} {block : Int} {reg : Registry R}
  {held other : Stacks} {r : Request} {requests later : List Request}

/-- A status that is asked for brings an error when it is spent. -/
def Spoils (reg : Registry R) (r : Request) (fault : Fault) : Prop :=
  ∃ status rule ctx, reg.get? r.status = some status ∧ status.spend = some rule ∧
    status.spendResult rule .defenseRoll ctx = .error fault

section Trials

variable (side : Side) (base : Base R) (block : Int) (reg : Registry R)

def trial (held : Stacks) (r : Request) : Except Fault (Option (Option Int × Spend.Summary R)) :=
  (attempt side base block reg held r).map (Option.map fun (next, s) => (next.get? r.status, s))

def spent (held : Stacks) (r : Request) : Option (Spend.Summary R) :=
  (trial side base block reg held r).toOption.join.map Prod.snd

def remains (held : Stacks) (r : Request) : Option Int :=
  match trial side base block reg held r with
  | .ok (some (n, _)) => n
  | _ => held.get? r.status

end Trials

omit [Scalar R] in
theorem Request.reply_congr {x y : Except Fault (Option (Spend.ManyOutcome R))}
    (h : x.map (Option.map fun out => (out.next.get? r.status, out.summary)) =
      y.map (Option.map fun out => (out.next.get? r.status, out.summary))) :
    (x >>= r.reply).map (Option.map fun (next, s) => (next.get? r.status, s)) =
      (y >>= r.reply).map (Option.map fun (next, s) => (next.get? r.status, s)) := by
  rcases x with fault | _ | x <;> rcases y with fault' | _ | y <;> simp [Except.map] at h
  · rw [h]
  · rfl
  · obtain ⟨hnext, hsummary⟩ := h
    change Except.ok (some (x.next.get? r.status, x.summary)) =
      Except.ok (some (y.next.get? r.status, y.summary))
    rw [hnext, hsummary]

theorem trial_congr (h : held.get? r.status = other.get? r.status) :
    trial side base block reg held r = trial side base block reg other r := by
  unfold trial attempt
  cases reg.get? r.status with
  | none => rfl
  | some status => exact Request.reply_congr (Stacks.spendMany_congr h _ _ _ _ reg _)

theorem attempt_frame {next : Stacks} {s : Spend.Summary R} {name : String}
    (h : attempt side base block reg held r = .ok (some (next, s))) (hn : name ≠ r.status) :
    next.get? name = held.get? name := by
  obtain ⟨ctx, out, es, ho, rfl, -⟩ := attempt_ok h
  exact Stacks.spendMany_frame ho hn

theorem attempt_error {fault : Fault} (h : attempt side base block reg held r = .error fault) :
    fault.Refuses ∨ Spoils reg r fault := by
  unfold attempt at h
  split at h
  · split at h <;> cases h
    exact .inl trivial
  next status hs =>
    rcases hx : (held.spendMany r.status r.attempts .defenseRoll (fun _ ctx => ctx) (some {
        phase := .defenseRoll
        roll := r.roll <|> base.roll
        block := if status.isReaction then none else some block }) reg
        (some side.name)).run with ⟨cause | out, es⟩
    · rw [hx] at h
      obtain rfl : cause = fault := Except.error.inj h
      obtain ⟨_, last, next, -, -, hnext⟩ :=
        (Stacks.spendMany_breaks_iff held r.status r.attempts .defenseRoll _ _ reg _ cause es).mp hx
      obtain hf | ⟨status, rule, hs, hr, -, ⟨cause', ho, hf⟩ | ⟨_, _, -, -, hf⟩⟩ :=
        Stacks.spend_cases next r.status .defenseRoll last reg (some side.name)
      · cases congrArg (fun x => (ExceptT.run x).value) (hnext.symm.trans hf)
      · cases congrArg (fun x => (ExceptT.run x).value) (hnext.symm.trans hf)
        exact .inr ⟨status, rule, last, hs, hr, ho⟩
      · rw [hnext] at hf
        cases hf
    · rw [hx] at h
      cases out with
      | some out => cases h
      | none =>
        change r.reply none = _ at h
        cases hr : r.required <;> simp only [Request.reply, hr] at h
        · cases h
        · cases h
          exact .inl trivial

/-- After a request its own status is left as the request leaves it, and any other one as it was. -/
theorem attempt_enter {sofar next : Stacks × List (Spend.Summary R)}
    (h : (attempt side base block reg sofar.1 r).map (enter sofar) = .ok next) :
    (∃ o, trial side base block reg sofar.1 r = .ok o) ∧
      next.1.get? r.status = remains side base block reg sofar.1 r ∧
      (∀ name, name ≠ r.status → next.1.get? name = sofar.1.get? name) ∧
      next.2 = sofar.2 ++ (spent side base block reg sofar.1 r).toList := by
  unfold remains spent trial
  cases ha : attempt side base block reg sofar.1 r with
  | error fault =>
    rw [ha] at h
    cases h
  | ok o =>
    rw [ha] at h
    cases h
    cases o with
    | none => exact ⟨⟨_, rfl⟩, rfl, fun _ _ => rfl, (List.append_nil _).symm⟩
    | some o => exact ⟨⟨_, rfl⟩, rfl, fun _ hn => attempt_frame ha hn, rfl⟩

section Served

variable (side : Side) (base : Base R) (block : Int) (reg : Registry R)

/-- Requests have been carried out, none of them refused. Their order does not show. -/
structure Served (held : Stacks) (requests : List Request) (out : Stacks) : Prop where
  met : ∀ r ∈ requests, ∃ o, trial side base block reg held r = .ok o
  remains : ∀ r ∈ requests, out.get? r.status = remains side base block reg held r
  others : ∀ name, name ∉ requests.map (·.status) → out.get? name = held.get? name

end Served

theorem kept_of_nodup {next : Stacks} (hr : r.status ∉ requests.map (·.status))
    (hframe : ∀ name, name ≠ r.status → next.get? name = held.get? name) :
    ∀ t ∈ requests, next.get? t.status = held.get? t.status :=
  fun t ht => hframe _ fun he => hr (List.mem_map.mpr ⟨t, ht, he⟩)

theorem Served.first {next out : Stacks} (h : Served side base block reg next requests out)
    (hr : r.status ∉ requests.map (·.status))
    (ho : ∃ o, trial side base block reg held r = .ok o)
    (hrem : next.get? r.status = Defense.remains side base block reg held r)
    (hframe : ∀ name, name ≠ r.status → next.get? name = held.get? name) :
    Served side base block reg held (r :: requests) out := by
  have hkeep := kept_of_nodup hr hframe
  refine ⟨List.forall_mem_cons.mpr ⟨ho, fun t ht => ?_⟩,
    List.forall_mem_cons.mpr ⟨(h.others _ hr).trans hrem, fun t ht => ?_⟩, fun name hname => ?_⟩
  · rw [← trial_congr (hkeep t ht)]
    exact h.met t ht
  · rw [h.remains t ht, Defense.remains, Defense.remains, trial_congr (hkeep t ht), hkeep t ht]
  · rw [List.map_cons, List.mem_cons, not_or] at hname
    exact (h.others _ hname.2).trans (hframe _ hname.1)

theorem attemptAll_ok {sofar out : Stacks × List (Spend.Summary R)}
    (hn : (requests.map (·.status)).Nodup)
    (h : attemptAll side base block reg requests sofar = .ok out) :
    Served side base block reg sofar.1 requests out.1 ∧
      out.2 = sofar.2 ++ requests.filterMap (spent side base block reg sofar.1) := by
  induction requests generalizing sofar with
  | nil =>
    cases h
    exact ⟨⟨List.forall_mem_nil _, List.forall_mem_nil _, fun _ _ => rfl⟩,
      (List.append_nil _).symm⟩
  | cons r requests ih =>
    rw [attemptAll, List.foldlM_cons] at h
    obtain ⟨next, hnext, h⟩ := except_bind_ok h
    obtain ⟨hr, hn⟩ := List.nodup_cons.mp hn
    obtain ⟨ho, hrem, hframe, hs⟩ := attempt_enter hnext
    obtain ⟨hserved, hspends⟩ := ih hn h
    refine ⟨hserved.first hr ho hrem hframe, ?_⟩
    -- The rest finds other stacks, but the same ones of the statuses that it asks for.
    have hcongr : requests.filterMap (spent side base block reg next.1) =
        requests.filterMap (spent side base block reg sofar.1) := by
      refine List.filterMap_congr fun t ht => ?_
      rw [spent, spent, trial_congr (kept_of_nodup hr hframe t ht)]
    rw [hspends, hs, hcongr, List.append_assoc, List.filterMap_cons]
    cases spent side base block reg sofar.1 r <;> rfl

theorem attemptAll_error {sofar : Stacks × List (Spend.Summary R)} {fault : Fault}
    (hn : (requests.map (·.status)).Nodup)
    (h : attemptAll side base block reg requests sofar = .error fault) :
    ∃ r ∈ requests, attempt side base block reg sofar.1 r = .error fault := by
  induction requests generalizing sofar with
  | nil => cases h
  | cons r requests ih =>
    rw [attemptAll, List.foldlM_cons] at h
    obtain ⟨hr, hn⟩ := List.nodup_cons.mp hn
    cases hnext : (attempt side base block reg sofar.1 r).map (enter sofar) with
    | error cause =>
      rw [hnext] at h
      cases h
      exact ⟨r, List.mem_cons_self, except_map_error_iff.mp hnext⟩
    | ok next =>
      rw [hnext] at h
      obtain ⟨-, -, hframe, -⟩ := attempt_enter hnext
      obtain ⟨t, ht, hc⟩ := ih hn h
      refine ⟨t, List.mem_cons_of_mem _ ht, ?_⟩
      have htrial : trial side base block reg next.1 t = .error fault := by rw [trial, hc]; rfl
      rw [trial_congr (kept_of_nodup hr hframe t ht)] at htrial
      exact except_map_error_iff.mp htrial

theorem Served.same {out out' : Stacks} (h : Served side base block reg held requests out)
    (h' : Served side base block reg held later out') (hp : requests.Perm later) (name : String) :
    out.get? name = out'.get? name := by
  by_cases hm : name ∈ requests.map (·.status)
  · obtain ⟨r, hr, rfl⟩ := List.mem_map.mp hm
    rw [h.remains r hr, h'.remains r (hp.mem_iff.mp hr)]
  · rw [h.others name hm, h'.others name fun hm' => hm ((hp.map _).mem_iff.mpr hm')]

omit [Scalar R] in
/-- Two plays come to the same, or both fail with errors of a kind. -/
inductive Agree {α : Type} (P : Fault → Prop) (same : α → α → Prop) :
    Except Fault α → Except Fault α → Prop
  | failed {f g : Fault} (hf : P f) (hg : P g) : Agree P same (.error f) (.error g)
  | met {a b : α} (h : same a b) : Agree P same (.ok a) (.ok b)

theorem Agree.map {α β : Type} {P : Fault → Prop} {same : α → α → Prop} {same' : β → β → Prop}
    {f : α → β} {x y : Except Fault α} (h : Agree P same x y)
    (hf : ∀ a b, same a b → same' (f a) (f b)) : Agree P same' (x.map f) (y.map f) := by
  cases h with
  | failed hx hy => exact .failed hx hy
  | met h => exact .met (hf _ _ h)

theorem Agree.mono {α : Type} {P Q : Fault → Prop} {same : α → α → Prop} {x y : Except Fault α}
    (h : Agree P same x y) (hPQ : ∀ fault, P fault → Q fault) : Agree Q same x y := by
  cases h with
  | failed hx hy => exact .failed (hPQ _ hx) (hPQ _ hy)
  | met h => exact .met h

def Shuffled (x y : Stacks × List (Spend.Summary R)) : Prop :=
  x.1.entries.Perm y.1.entries ∧ x.2.Perm y.2

theorem attemptAll_perm (hp : requests.Perm later) (hn : (requests.map (·.status)).Nodup)
    (held : Stacks) :
    Agree (fun fault => ∃ r ∈ requests, attempt side base block reg held r = .error fault) Shuffled
      (attemptAll side base block reg requests (held, []))
      (attemptAll side base block reg later (held, [])) := by
  have hn' : (later.map (·.status)).Nodup := (hp.map _).nodup_iff.mp hn
  cases hx : attemptAll side base block reg requests (held, []) with
  | error f =>
    obtain ⟨r, hr, hc⟩ := attemptAll_error hn hx
    cases hy : attemptAll side base block reg later (held, []) with
    | error g =>
      obtain ⟨t, ht, hd⟩ := attemptAll_error hn' hy
      exact .failed ⟨r, hr, hc⟩ ⟨t, hp.mem_iff.mpr ht, hd⟩
    | ok out =>
      obtain ⟨o, ho⟩ := (attemptAll_ok hn' hy).1.met r (hp.mem_iff.mp hr)
      rw [trial, hc] at ho
      cases ho
  | ok out =>
    obtain ⟨hserved, hs⟩ := attemptAll_ok hn hx
    cases hy : attemptAll side base block reg later (held, []) with
    | error g =>
      obtain ⟨r, hr, hc⟩ := attemptAll_error hn' hy
      obtain ⟨o, ho⟩ := hserved.met r (hp.mem_iff.mpr hr)
      rw [trial, hc] at ho
      cases ho
    | ok out' =>
      obtain ⟨hserved', hs'⟩ := attemptAll_ok hn' hy
      refine .met ⟨Ledger.perm_of_get? (hserved.same hserved' hp), ?_⟩
      rw [hs, hs']
      exact (hp.filterMap _).append_left []

/-- An error that some request brings all alone: it is refused, or its status cannot be spent. -/
def Blamed {α : Type} (reg : Registry R) (requests : List Request)
    (alone : Request → Except Fault α) (fault : Fault) : Prop :=
  ∃ r ∈ requests, alone r = .error fault ∧ (fault.Refuses ∨ Spoils reg r fault)

theorem answers_perm (hp : requests.Perm later) (hn : (requests.map (·.status)).Nodup)
    (incoming : Int) (held : Stacks) :
    Agree (Blamed reg requests fun r => answers side base block reg incoming [r] held) Shuffled
      (answers side base block reg incoming requests held)
      (answers side base block reg incoming later held) := by
  by_cases hin : 0 < incoming
  · have horder : (inOrder reg requests).Perm requests := List.filter_append_perm _ requests
    have hagree := @attemptAll_perm R _ side base block reg _ _
      (.append (hp.filter _) (hp.filter _)) ((horder.map _).nodup_iff.mpr hn) held
    have hanswers : ∀ requests, answers side base block reg incoming requests held =
        attemptAll side base block reg (inOrder reg requests) (held, []) := fun _ => if_pos hin
    rw [hanswers requests, hanswers later]
    refine hagree.mono fun fault ⟨r, hr, hf⟩ => ⟨r, horder.mem_iff.mp hr, ?_, attempt_error hf⟩
    exact (answers_singleton side base block reg hin r held).trans (by rw [hf]; rfl)
  · have hanswers : ∀ requests, answers side base block reg incoming requests held =
        if requests.any (·.required) then .error .needlessDefense else .ok (held, []) :=
      fun _ => if_neg hin
    rw [hanswers requests, hanswers later, ← hp.any_eq]
    split
    next hany =>
      obtain ⟨r, hr, hrequired⟩ := List.any_eq_true.mp hany
      have hblamed : Blamed reg requests
          (fun r => answers side base block reg incoming [r] held) .needlessDefense :=
        ⟨r, hr, (hanswers [r]).trans (by simp [hrequired]), .inl trivial⟩
      exact .failed hblamed hblamed
    next => exact .met ⟨.refl _, .refl _⟩

/-- Plans that are the same, but for the order of the stacks and of the spends in them. -/
structure Plan.Alike (p q : Plan R) : Prop where
  defender : p.defender = { q.defender with statuses := p.defender.statuses }
  statuses : p.defender.statuses.entries.Perm q.defender.statuses.entries
  resolution : p.resolution = { q.resolution with spends := p.resolution.spends }
  spends : p.resolution.spends.Perm q.resolution.spends

theorem plan_perm (hp : requests.Perm later) (hn : (requests.map (·.status)).Nodup)
    (defender : Player) (attacker : Side) (incoming : Int) (base : Base R) (reg : Registry R)
    (fs : Formula.Cache) :
    let play := fun requests => result (plan defender attacker incoming base requests reg) fs
    match (passive defender attacker incoming base reg).run fs with
    | .error e gs => play requests = (.error (.formula e), gs) ∧ play later = play requests
    | .ok _ gs => (play requests).2 = gs ∧ (play later).2 = gs ∧
      Agree (Blamed reg requests fun r => (play [r]).1) Plan.Alike (play requests).1
        (play later).1 := by
  intro play
  have hplay : ∀ requests, play requests = _ := fun requests =>
    plan_result defender attacker incoming base requests reg fs
  cases hm : (passive defender attacker incoming base reg).run fs with
  | error e gs =>
    rw [hm] at hplay
    exact ⟨hplay requests, (hplay later).trans (hplay requests).symm⟩
  | ok modified gs =>
    rw [hm] at hplay
    dsimp only at hplay ⊢
    refine ⟨congrArg Prod.snd (hplay requests), congrArg Prod.snd (hplay later), ?_⟩
    simp only [hplay]
    refine .map ((answers_perm hp hn incoming _).mono fun fault ⟨r, hr, hf, hcause⟩ => ?_)
      fun _ _ h => ⟨rfl, h.1, rfl, h.2⟩
    exact ⟨r, hr, except_map_error_iff.mpr hf, hcause⟩

theorem resolve_attack_perm {ctx : Attack.Context R} {spends : List (Spend.Summary R)}
    (hp : ctx.spends.Perm spends) (ha : Spend.Apart ctx.spends) :
    Attack.resolve { ctx with spends } = Attack.resolve ctx := by
  unfold Attack.resolve Attack.lines
  dsimp only
  rw [Spend.ofSummaries_perm hp ha]
  rfl

theorem resolve_defense_perm {ctx : Attack.Context R} {d : Resolution R}
    {spends : List (Spend.Summary R)} (hd : ctx.defense = some d) (hp : d.spends.Perm spends)
    (ha : Spend.Apart d.spends) :
    Attack.resolve { ctx with defense := some { d with spends } } = Attack.resolve ctx := by
  unfold Attack.resolve Attack.lines
  rw [hd]
  dsimp only [Option.map_some, Option.getD_some]
  rw [Spend.ofSummaries_perm hp ha]
  rfl

/-- A defence comes to the same in whatever order its statuses are asked for: the same stacks are
left and the same is spent, or it fails, each time with an error that one of the requests brings all
alone; only where the passive statuses fail does it fail with them. And an attack comes to the same
in whatever order the spends of either side are. -/
theorem any_order (reg : Registry R) :
    (∀ defender attacker incoming (base : Base R) (requests later : List Request) fs,
      requests.Perm later → (requests.map (·.status)).Nodup →
        let play := fun requests => result (plan defender attacker incoming base requests reg) fs
        match (passive defender attacker incoming base reg).run fs with
        | .error e gs => play requests = (.error (.formula e), gs) ∧ play later = play requests
        | .ok _ gs => (play requests).2 = gs ∧ (play later).2 = gs ∧
          Agree (Blamed reg requests fun r => (play [r]).1) Plan.Alike (play requests).1
            (play later).1) ∧
    (∀ (ctx : Attack.Context R) spends, ctx.spends.Perm spends → Spend.Apart ctx.spends →
      Attack.resolve { ctx with spends } = Attack.resolve ctx) ∧
    ∀ (ctx : Attack.Context R) (d : Resolution R) spends, ctx.defense = some d →
      d.spends.Perm spends → Spend.Apart d.spends →
        Attack.resolve { ctx with defense := some { d with spends } } = Attack.resolve ctx :=
  ⟨fun defender attacker incoming base _ _ fs hp hn =>
      plan_perm hp hn defender attacker incoming base reg fs,
    fun _ _ => resolve_attack_perm, fun _ _ _ => resolve_defense_perm⟩

def parry : Status Rat where
  id := "parry"
  name := "Parry"
  spend := some { phases := [.defenseRoll], apply := some fun _ => .ok (some { block := some 2 }) }

def dodge : Status Rat where
  id := "dodge"
  name := "Dodge"
  spend := some {
    phases := [.defenseRoll], needsRoll := true
    apply := some fun ctx =>
      .ok (if 4 ≤ ctx.roll.getD 0 then some { negates := true } else none) }

def armoury : Registry Rat := (Registry.empty.define parry).define dodge

def squire : Player :=
  { Player.fresh .ai { id := "squire", name := "Squire" } with
    statuses := .ofList [("parry", 1), ("dodge", 1)] }

def onGuard : Base Rat := { roll := some 5, block := 1, retaliate := 0 }

def parryFirst : List Request := [{ status := "parry" }, { status := "dodge" }]

def dodgeFirst : List Request := [{ status := "dodge" }, { status := "parry" }]

theorem parryFirst_plans : ∃ p : Plan Rat,
    (result (plan squire .you 5 onGuard parryFirst armoury) {}).1 = .ok p ∧
      p.resolution.spends.map (·.id) = ["dodge", "parry"] := by
  have h : ((result (plan squire .you 5 onGuard parryFirst armoury) {}).1.toOption.any
      fun p => p.resolution.spends.map (·.id) = ["dodge", "parry"]) = true := by
    decide +kernel
  cases hx : (result (plan squire .you 5 onGuard parryFirst armoury) {}).1 with
  | error fault =>
    rw [hx] at h
    cases h
  | ok p =>
    rw [hx] at h
    exact ⟨p, rfl, of_decide_eq_true h⟩

theorem apart_dodge_parry : (["dodge", "parry"].map Text.codes).Nodup := by
  have hne : Text.codes "dodge" ≠ Text.codes "parry" := by
    obtain h₁ | h₁ := Text.codes_cases "dodge" <;> obtain h₂ | h₂ := Text.codes_cases "parry" <;>
      rw [h₁, h₂] <;> decide
  exact List.nodup_cons.mpr ⟨fun hm => hne (List.mem_singleton.mp hm), List.nodup_singleton _⟩

theorem any_order_squire : ∃ p q : Plan Rat,
    (result (plan squire .you 5 onGuard parryFirst armoury) {}).1 = .ok p ∧
    (result (plan squire .you 5 onGuard dodgeFirst armoury) {}).1 = .ok q ∧
    p.resolution.spends.map (·.id) = ["dodge", "parry"] ∧ p.Alike q ∧
    let blow : Attack.Context Rat :=
      { attackerSide := .you, defenderSide := .ai, attacker := .fresh .you squire.hero
        defender := squire, damage := 5, spends := p.resolution.spends
        defense := some p.resolution }
    Attack.resolve { blow with spends := q.resolution.spends } = Attack.resolve blow ∧
    Attack.resolve { blow with
      defense := some { p.resolution with spends := q.resolution.spends } } =
        Attack.resolve blow := by
  obtain ⟨p, hp, hids⟩ := parryFirst_plans
  have hapart : Spend.Apart p.resolution.spends := by
    have hcodes := apart_dodge_parry
    rwa [← hids, List.map_map] at hcodes
  have h := (any_order armoury).1 squire .you 5 onGuard parryFirst dodgeFirst {}
    (.swap _ _ []) (by decide)
  replace h : Agree (Blamed armoury parryFirst fun r =>
      (result (plan squire .you 5 onGuard [r] armoury) {}).1) Plan.Alike (.ok p)
      (result (plan squire .you 5 onGuard dodgeFirst armoury) {}).1 := by
    dsimp only at h
    split at h
    · cases (congrArg Prod.fst h.1).symm.trans hp
    · exact hp ▸ h.2.2
  generalize hy : (result (plan squire .you 5 onGuard dodgeFirst armoury) {}).1 = y at h
  cases h with
  | @met _ q halike =>
    refine ⟨p, q, hp, rfl, hids, halike, ?_, ?_⟩
    · exact (any_order armoury).2.1 _ _ halike.spends hapart
    · exact (any_order armoury).2.2 _ p.resolution _ rfl halike.spends hapart

def wall : Status Rat where
  id := "wall"
  name := "Wall"
  behavior := some (.bonusPool { defense := some { block := some (Nat.pow 2 15000 : Nat) } })
  spend := some { phases := [.defenseRoll] }

def mason : Player := { squire with statuses := .ofList [("wall", 1)] }

def ghostFirst : List Request := [{ status := "ghost", required := true }, { status := "wall" }]

def wallFirst : List Request := [{ status := "wall" }, { status := "ghost", required := true }]

/-- Neither the statuses nor their passive parts bring errors of their own. -/
def Sound (reg : Registry R) : Prop :=
  ∀ id status, reg.get? id = some status → status.onModify = none ∧
    ∀ rule hook ctx, status.spend = some rule → rule.apply = some hook → ∃ out, hook ctx = .ok out

theorem sound_wall : Sound (Registry.empty.define wall) := by
  intro id status hs
  have hwall : (id, status) ∈ [("wall", wall)] := Ledger.mem_of_get?_eq_some hs
  obtain ⟨rfl, rfl⟩ := Prod.mk.inj (List.mem_singleton.mp hwall)
  refine ⟨rfl, fun rule hook ctx hr hhook => ?_⟩
  cases hr
  cases hhook

def blame {α : Type} : Except Fault α → Option (String ⊕ Double.Fault)
  | .error (.unknownDefense status) => some (.inl status)
  | .error (.number cause) => some (.inr cause)
  | _ => none

theorem of_blame {α : Type} {x : Except Fault α} {b : String ⊕ Double.Fault}
    (h : blame x = some b) : x = .error (b.elim .unknownDefense .number) := by
  unfold blame at h
  split at h <;> cases h <;> rfl

/-- A request is refused and another one breaks off: the first of them has its way. -/
theorem not_any_order :
    (result (plan mason .you 5 onGuard ghostFirst (Registry.empty.define wall)) {}).1 =
      .error (.unknownDefense "ghost") ∧
    (result (plan mason .you 5 onGuard wallFirst (Registry.empty.define wall)) {}).1 =
      .error (.number .lengthy) ∧
    ¬∀ (reg : Registry Rat) defender attacker incoming (base : Base Rat)
      (requests later : List Request) fs, Sound reg → requests.Perm later →
        (requests.map (·.status)).Nodup → Agree Fault.Refuses Plan.Alike
          (result (plan defender attacker incoming base requests reg) fs).1
          (result (plan defender attacker incoming base later reg) fs).1 := by
  have hghost : (result (plan mason .you 5 onGuard ghostFirst
      (Registry.empty.define wall)) {}).1 = .error (.unknownDefense "ghost") :=
    of_blame (b := .inl "ghost") (by decide +kernel)
  have hwall : (result (plan mason .you 5 onGuard wallFirst
      (Registry.empty.define wall)) {}).1 = .error (.number .lengthy) :=
    of_blame (b := .inr .lengthy) (by decide +kernel)
  refine ⟨hghost, hwall, fun hall => ?_⟩
  have hagree := hall (Registry.empty.define wall) mason .you 5 onGuard wallFirst ghostFirst {}
    sound_wall (.swap _ _ []) (by decide)
  rw [hwall, hghost] at hagree
  cases hagree with
  | failed hf _ => exact hf

end Defense

end Duel
