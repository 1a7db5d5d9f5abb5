import Duel.Proofs.Defense
import Duel.Proofs.Spend.Totals
import Duel.Proofs.Stacks.Spending
import Duel.Proofs.Work

namespace Duel.Defense

variable {R α β : Type}

def result (x : Play α) (fs : Formula.Cache) : Except Fault α × Formula.Cache :=
  (x.run.run fs).value

theorem result_bind (x : Play α) (f : α → Play β) (fs : Formula.Cache) :
    result (x >>= f) fs = match result x fs with
      | (.ok a, gs) => result (f a) gs
      | (.error fault, gs) => (.error fault, gs) := by
  unfold result
  rw [ExceptT.run_bind, StateT.run_bind, Traced.value_bind]
  rcases (x.run.run fs).value with ⟨fault | a, gs⟩ <;> rfl

theorem result_happen (x : Traced α) (fs : Formula.Cache) :
    result (happen x) fs = (.ok x.value, fs) := rfl

theorem result_venture (x : Stacks.Work α) (fs : Formula.Cache) :
    result (venture x) fs = (x.run.value, fs) := rfl

theorem result_reckon (x : Formula.Kept α) (fs : Formula.Cache) :
    result (reckon x) fs = match x.run fs with
      | .ok a gs => (.ok a, gs)
      | .error e gs => (.error (.formula e), gs) := by
  unfold result reckon
  rw [ExceptT.run_mk, StateT.run]
  cases x.run fs <;> rfl

theorem Plays.result {x : Play α} {fs gs : Formula.Cache} {a : α} {es : List Event}
    (h : Plays x fs a gs es) : result x fs = (.ok a, gs) := by
  rw [Defense.result, show x.run.run fs = ⟨(.ok a, gs), es⟩ from h]

variable [Scalar R]

def Request.reply (r : Request) :
    Option (Spend.ManyOutcome R) → Except Fault (Option (Stacks × Spend.Summary R))
  | some out => .ok (some (out.next, out.summary))
  | none => if r.required then .error (.unpaidDefense r.status) else .ok none

def attempt (side : Side) (base : Base R) (block : Int) (reg : Registry R) (held : Stacks)
    (r : Request) : Except Fault (Option (Stacks × Spend.Summary R)) :=
  match reg.get? r.status with
  | none => if r.required then .error (.unknownDefense r.status) else .ok none
  | some status =>
    (held.spendMany r.status r.attempts .defenseRoll (fun _ ctx => ctx) (some {
      phase := .defenseRoll
      roll := r.roll <|> base.roll
      block := if status.isReaction then none else some block }) reg
      (some side.name)).run.value >>= r.reply

omit [Scalar R] in
theorem Request.reply_ok {r : Request} {x : Option (Spend.ManyOutcome R)} {next : Stacks}
    {s : Spend.Summary R} (h : r.reply x = .ok (some (next, s))) :
    ∃ out, x = some out ∧ out.next = next ∧ out.summary = s := by
  cases x with
  | none => cases hr : r.required <;> simp [reply, hr] at h
  | some out =>
    cases h
    exact ⟨out, rfl, rfl, rfl⟩

theorem attempt_ok {side : Side} {base : Base R} {block : Int} {reg : Registry R}
    {held next : Stacks} {r : Request} {s : Spend.Summary R}
    (h : attempt side base block reg held r = .ok (some (next, s))) : ∃ ctx out es,
      Gives (held.spendMany r.status r.attempts .defenseRoll (fun _ ctx => ctx) ctx reg
        (some side.name)) (some out) es ∧ out.next = next ∧ out.summary = s := by
  unfold attempt at h
  split at h
  · split at h <;> cases h
  · obtain ⟨x, hx, h⟩ := except_bind_ok h
    obtain ⟨out, rfl, hnext, hs⟩ := Request.reply_ok h
    exact ⟨_, out, _, .of_value hx, hnext, hs⟩

def enter (sofar : Stacks × List (Spend.Summary R)) :
    Option (Stacks × Spend.Summary R) → Stacks × List (Spend.Summary R)
  | none => sofar
  | some (next, s) => (next, sofar.2 ++ [s])

section Attempts

variable (side : Side) (base : Base R) (block : Int) (reg : Registry R)

def attemptAll (requests : List Request) (sofar : Stacks × List (Spend.Summary R)) :
    Except Fault (Stacks × List (Spend.Summary R)) :=
  requests.foldlM (fun sofar r => (attempt side base block reg sofar.1 r).map (enter sofar)) sofar

theorem serve_result (sofar : Stacks × List (Spend.Summary R)) (r : Request)
    (fs : Formula.Cache) : result (serve side base block reg sofar r) fs =
      ((attempt side base block reg sofar.1 r).map (enter sofar), fs) := by
  unfold serve attempt Request.reply
  cases reg.get? r.status with
  | none => cases hr : r.required <;> rfl
  | some status =>
    dsimp only
    rw [result_bind, result_venture]
    rcases (sofar.1.spendMany r.status r.attempts .defenseRoll (fun _ ctx => ctx) _ reg
      (some side.name)).run.value with fault | _ | out
    · rfl
    · cases hr : r.required <;> rfl
    · rfl

theorem serveEach_result (requests : List Request) (sofar : Stacks × List (Spend.Summary R))
    (fs : Formula.Cache) : result (requests.foldlM (serve side base block reg) sofar) fs =
      (attemptAll side base block reg requests sofar, fs) := by
  induction requests generalizing sofar with
  | nil => rfl
  | cons r requests ih =>
    rw [List.foldlM_cons, result_bind, serve_result, attemptAll, List.foldlM_cons]
    cases (attempt side base block reg sofar.1 r).map (enter sofar) with
    | error fault => rfl
    | ok sofar => exact ih sofar

def answers (incoming : Int) (requests : List Request) (held : Stacks) :
    Except Fault (Stacks × List (Spend.Summary R)) :=
  if 0 < incoming then attemptAll side base block reg (inOrder reg requests) (held, [])
  else if requests.any (·.required) then .error .needlessDefense
  else .ok (held, [])

omit [Scalar R] in
theorem inOrder_singleton (reg : Registry R) (q : Request) : inOrder reg [q] = [q] := by
  unfold inOrder
  cases h : q.isReaction reg <;> simp [h]

theorem answers_singleton {incoming : Int} (hin : 0 < incoming) (q : Request) (held : Stacks) :
    answers side base block reg incoming [q] held =
      (attempt side base block reg held q).map (enter (held, [])) := by
  unfold answers attemptAll
  rw [if_pos hin, inOrder_singleton, List.foldlM_cons]
  cases (attempt side base block reg held q).map (enter (held, [])) <;> rfl

theorem serveAll_result (incoming : Int) (requests : List Request) (held : Stacks)
    (fs : Formula.Cache) : result (serveAll side incoming base block requests held reg) fs =
      (answers side base block reg incoming requests held, fs) := by
  unfold serveAll answers
  split
  · exact serveEach_result side base block reg _ _ fs
  · split <;> rfl

end Attempts

def passive (defender : Player) (attacker : Side) (incoming : Int) (base : Base R)
    (reg : Registry R) : Formula.Kept Modifier.Outcome :=
  (applyStatuses defender.side base defender.statuses reg).value.modify
    ⟨.defense, attacker.name, defender.side.name, incoming, base.block⟩ reg

theorem plan_result (defender : Player) (attacker : Side) (incoming : Int) (base : Base R)
    (requests : List Request) (reg : Registry R) (fs : Formula.Cache) :
    result (plan defender attacker incoming base requests reg) fs =
      match (passive defender attacker incoming base reg).run fs with
      | .error e gs => (.error (.formula e), gs)
      | .ok modified gs =>
        let block := max 0 modified.context.block
        ((answers defender.side base block reg incoming requests
          (applyStatuses defender.side base defender.statuses reg).value).map fun out =>
            { defender := { defender with statuses := out.1 }
              resolution := { base with block, spends := out.2, logs := modified.logs } }, gs) := by
  unfold plan passive
  rw [result_bind, result_happen]
  dsimp only
  rw [result_bind, result_reckon]
  generalize (applyStatuses defender.side base defender.statuses reg).value = held
  cases (held.modify _ reg).run fs with
  | error e gs => rfl
  | ok modified gs =>
    dsimp only
    rw [result_bind, serveAll_result]
    cases answers defender.side base (max 0 modified.context.block) reg incoming requests held with
    | error fault => rfl
    | ok out => rfl

section Brings

variable {P : Spend.Result R → Prop} {side : Side} {base : Base R} {block : Int} {reg : Registry R}

theorem attempt_brings (hP : reg.Brings P) {held next : Stacks} {r : Request}
    {s : Spend.Summary R} (h : attempt side base block reg held r = .ok (some (next, s))) :
    ∀ x ∈ s.results, P x := by
  obtain ⟨ctx, out, es, ho, -, rfl⟩ := attempt_ok h
  exact Stacks.spendMany_brings hP ho

theorem attemptAll_brings (hP : reg.Brings P) {requests : List Request}
    {sofar out : Stacks × List (Spend.Summary R)}
    (h : attemptAll side base block reg requests sofar = .ok out)
    (hs : Spend.Bring P sofar.2) : Spend.Bring P out.2 := by
  induction requests generalizing sofar with
  | nil =>
    cases h
    exact hs
  | cons r requests ih =>
    rw [attemptAll, List.foldlM_cons] at h
    obtain ⟨next, hn, h⟩ := except_bind_ok h
    refine ih h ?_
    cases ha : attempt side base block reg sofar.1 r with
    | error fault =>
      rw [ha] at hn
      cases hn
    | ok o =>
      rw [ha] at hn
      cases hn
      cases o with
      | none => exact hs
      | some o =>
        refine hs.append fun s hm => ?_
        obtain rfl := List.mem_singleton.mp hm
        exact attempt_brings hP ha

theorem plan_brings (hP : reg.Brings P) {defender : Player} {attacker : Side} {incoming : Int}
    {requests : List Request} {p : Plan R} {fs gs : Formula.Cache} {es : List Event}
    (h : Plays (plan defender attacker incoming base requests reg) fs p gs es) :
    Spend.Bring P p.resolution.spends := by
  obtain ⟨-, -, block, hs, ds, hserve, -⟩ := plan_serves h
  have ha := (serveAll_result _ _ _ _ _ _ _ _).symm.trans hserve.result
  have hnil : Spend.Bring P ([] : List (Spend.Summary R)) := fun s hs => by cases hs
  replace ha : answers defender.side base block reg incoming requests _ =
    .ok (p.defender.statuses, p.resolution.spends) := congrArg Prod.fst ha
  unfold answers at ha
  split at ha
  · exact attemptAll_brings hP ha hnil
  · split at ha
    · cases ha
    · have hempty : [] = p.resolution.spends := congrArg Prod.snd (Except.ok.inj ha)
      exact hempty ▸ hnil

end Brings

end Duel.Defense
