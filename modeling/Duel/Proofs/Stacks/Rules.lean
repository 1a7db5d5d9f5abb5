import Duel.Defense
import Duel.Proofs.Stacks.Changes
import Duel.Status.Cleanse
import Duel.Status.Tick

namespace Duel

/-- Work that can fail has given a result, and told of events on the way. -/
def Gives {ε α : Type} (x : ExceptT ε Traced α) (a : α) (es : List Event) : Prop :=
  x.run = ⟨.ok a, es⟩

theorem Gives.of_value {ε α : Type} {x : ExceptT ε Traced α} {a : α} (h : x.run.value = .ok a) :
    Gives x a x.run.events := by
  rw [Gives, ← h]

theorem Gives.unique {ε α : Type} {x : ExceptT ε Traced α} {a b : α} {es fs : List Event}
    (h : Gives x a es) (h' : Gives x b fs) : a = b ∧ es = fs := by
  cases Eq.trans (Eq.symm h) h'
  exact ⟨rfl, rfl⟩

theorem Gives.bind {ε α β : Type} {x : ExceptT ε Traced α} {f : α → ExceptT ε Traced β} {b : β}
    {es : List Event} (h : Gives (x >>= f) b es) :
    ∃ a fs gs, Gives x a fs ∧ Gives (f a) b gs ∧ es = fs ++ gs := by
  rcases hx : x.run with ⟨v, fs⟩
  cases v with
  | error e =>
    have hb : (x >>= f).run = ⟨.error e, fs ++ []⟩ := by
      change (x.run >>= _ : Traced _) = _
      rw [hx]
      rfl
    rw [Gives, hb] at h
    cases h
  | ok a =>
    have hb : (x >>= f).run = ⟨(f a).run.value, fs ++ (f a).run.events⟩ := by
      change (x.run >>= _ : Traced _) = _
      rw [hx]
      rfl
    rw [Gives, hb] at h
    injection h with hv he
    refine ⟨a, fs, (f a).run.events, hx, ?_, he.symm⟩
    rw [Gives, ← hv]

theorem Gives.andThen {ε α β : Type} {x : ExceptT ε Traced α} {a : α} {es : List Event}
    (h : Gives x a es) (f : α → ExceptT ε Traced β) :
    (x >>= f).run = ⟨(f a).run.value, es ++ (f a).run.events⟩ := by
  change (x.run >>= _ : Traced _) = _
  rw [show x.run = ⟨.ok a, es⟩ from h]
  rfl

theorem Gives.seq {ε α β : Type} {x : ExceptT ε Traced α} {f : α → ExceptT ε Traced β} {a : α}
    {b : β} {es fs : List Event} (h : Gives x a es) (hf : Gives (f a) b fs) :
    Gives (x >>= f) b (es ++ fs) := by
  rw [Gives, h.andThen, show (f a).run = ⟨.ok b, fs⟩ from hf]

theorem gives_lift {ε α : Type} (x : Traced α) :
    Gives (ExceptT.lift x : ExceptT ε Traced α) x.value x.events :=
  congrArg (Traced.mk (Except.ok x.value)) (List.append_nil x.events)

/-- Work breaks off; what it has told of by then stays told. -/
def Breaks {ε α : Type} (x : ExceptT ε Traced α) (fault : ε) (es : List Event) : Prop :=
  x.run = ⟨.error fault, es⟩

theorem Breaks.bind {ε α β : Type} {x : ExceptT ε Traced α} {fault : ε} {es : List Event}
    (h : Breaks x fault es) (f : α → ExceptT ε Traced β) : Breaks (x >>= f) fault es := by
  change (x.run >>= _ : Traced _) = _
  rw [show x.run = ⟨.error fault, es⟩ from h]
  exact congrArg (Traced.mk _) (List.append_nil es)

theorem gives_iff_not_breaks {ε α : Type} {x : ExceptT ε Traced α} :
    (∃ a es, Gives x a es) ↔ ¬∃ fault es, Breaks x fault es := by
  rcases hx : x.run with ⟨fault | a, es⟩
  · refine iff_of_false ?_ fun h => h ⟨fault, es, hx⟩
    rintro ⟨a, fs, h⟩
    cases Eq.trans (Eq.symm hx) h
  · refine iff_of_true ⟨a, es, hx⟩ ?_
    rintro ⟨fault, fs, h⟩
    cases Eq.trans (Eq.symm hx) h

theorem bind_congr_of_gives {ε α β : Type} {x : ExceptT ε Traced α}
    {f g : α → ExceptT ε Traced β} (h : ∀ a es, Gives x a es → f a = g a) :
    x >>= f = x >>= g := by
  refine ExceptT.ext ?_
  change (x.run >>= _ : Traced _) = (x.run >>= _ : Traced _)
  rcases hx : x.run with ⟨e | a, es⟩
  · rfl
  · change (⟨(f a).run.value, es ++ (f a).run.events⟩ : Traced _) =
      ⟨(g a).run.value, es ++ (g a).run.events⟩
    rw [h a es hx]

namespace Stacks

theorem ofExcept_ok_bind {α β : Type} (a : α) (f : α → Work β) : ofExcept (.ok a) >>= f = f a := rfl

theorem ofExcept_error_bind {α β : Type} (fault : Fault) (f : α → Work β) :
    ofExcept (.error fault) >>= f = throw fault := rfl

theorem gives_ofExcept {α : Type} {x : Except Fault α} {a : α} {es : List Event}
    (h : Gives (ofExcept x) a es) : x = .ok a ∧ es = [] := by
  cases x with
  | error fault => cases h
  | ok b =>
    cases h
    exact ⟨rfl, rfl⟩

variable {R : Type} {reg : Registry R} {side : Side}

theorem causeFor_side (side : Side) (kind : Event.Kind) (phase note : Option String) :
    causeFor (some side.name) kind phase note =
      some { kind, owner := some side.name, phase, note } := by
  cases side <;> rfl

theorem enter_changes (o : Tick.Outcome) (id : String) (r : Tick.Result) :
    Changes reg side.name o.next (o.enter reg (some side.name) id r).events
      (o.enter reg (some side.name) id r).value.next := by
  unfold Tick.Outcome.enter
  rw [causeFor_side]
  simpa using Changes.of_assign o.next id r.next rfl

variable [Scalar R]

theorem tickEntry_changes {o o' : Tick.Outcome} {e : String × Int} {es : List Event}
    (h : Gives (tickEntry reg (some side.name) o e) o' es) :
    Changes reg side.name o.next es o'.next := by
  unfold tickEntry at h
  split at h
  · cases h
    exact .none _
  · obtain ⟨r, fs, gs, hr, hf, rfl⟩ := h.bind
    obtain ⟨-, rfl⟩ := gives_ofExcept hr
    split at hf
    · cases hf
      exact .none _
    · cases hf
      simpa using! enter_changes o e.1 _

theorem ticks_changes {entries : List (String × Int)} {o o' : Tick.Outcome} {es : List Event}
    (h : Gives (entries.foldlM (tickEntry reg (some side.name)) o) o' es) :
    Changes reg side.name o.next es o'.next := by
  induction entries generalizing o es with
  | nil =>
    cases h
    exact .none _
  | cons e entries ih =>
    rw [List.foldlM_cons] at h
    obtain ⟨mid, fs, gs, he, hr, rfl⟩ := h.bind
    exact (tickEntry_changes he).trans (ih hr)

theorem tick_changes {held : Stacks} {o : Tick.Outcome} {es : List Event}
    (h : Gives (held.tick reg (some side.name)) o es) :
    Changes reg side.name held es o.next :=
  ticks_changes h

theorem tick_keeps {P : Tick.Outcome → Prop} {held : Stacks} {owner : Option String}
    {o : Tick.Outcome} {es : List Event}
    (hP : ∀ o id r, P o → P (o.enter reg owner id r).value) (hs : P ⟨held, 0, [], []⟩)
    (h : Gives (held.tick reg owner) o es) : P o := by
  unfold tick at h
  generalize Tick.Outcome.mk held 0 [] [] = start at h hs
  generalize held.entries = entries at h
  induction entries generalizing start es with
  | nil =>
    cases h
    exact hs
  | cons e entries ih =>
    rw [List.foldlM_cons] at h
    obtain ⟨mid, fs, gs, he, hr, rfl⟩ := h.bind
    refine ih mid ?_ hr
    unfold tickEntry at he
    split at he
    · cases he
      exact hs
    · obtain ⟨r, ds, cs, hr, hf, rfl⟩ := he.bind
      split at hf
      · cases hf
        exact hs
      · cases hf
        exact hP start e.1 _ hs

theorem tick_damage_nonneg {held : Stacks} {owner : Option String} {o : Tick.Outcome}
    {es : List Event} (h : Gives (held.tick reg owner) o es) : 0 ≤ o.damage := by
  refine tick_keeps (P := fun o => 0 ≤ o.damage) (fun o id r ho => ?_) (Int.le_refl 0) h
  exact Int.add_nonneg ho (Int.le_max_left 0 r.damage)

/-- An attempt fails without a word, or a rule admits it; then what the status brings cannot be
told, or it is paid for. -/
theorem spend_cases (held : Stacks) (id : String) (phase : Phase) (ctx : Spend.Context)
    (reg : Registry R) (owner : Option String) :
    held.spend id phase ctx reg owner = pure none ∨
    ∃ status rule, reg.get? id = some status ∧ status.spend = some rule ∧
      rule.admits phase ctx (held.count id) = true ∧
      ((∃ fault, status.spendResult rule phase ctx = .error fault ∧
        held.spend id phase ctx reg owner = throw fault) ∨
      ∃ result paid, status.spendResult rule phase ctx = .ok (some result) ∧
        paid = held.assign id (held.count id - rule.cost) reg
          (causeFor owner .spend (some phase.name) none) ∧
        Gives (held.spend id phase ctx reg owner) (some ⟨paid.value, result⟩) paid.events) := by
  unfold spend
  cases hs : reg.get? id with
  | none => exact .inl rfl
  | some status =>
    cases hr : status.spend with
    | none => exact .inl (by simp only [hr])
    | some rule =>
      cases ha : rule.admits phase ctx (held.count id) with
      | false => exact .inl (by simp only [hr, ha, Bool.not_false, if_true])
      | true =>
        simp only [hr, ha, Bool.not_true, Bool.false_eq_true, if_false]
        cases ho : status.spendResult rule phase ctx with
        | error fault =>
          exact .inr ⟨status, rule, rfl, hr, ha, .inl ⟨fault, ho, ofExcept_error_bind fault _⟩⟩
        | ok result =>
          rw [ofExcept_ok_bind]
          cases result with
          | none => exact .inl rfl
          | some result =>
            refine .inr ⟨status, rule, rfl, hr, ha, .inr ⟨result, _, ho, rfl, ?_⟩⟩
            exact List.append_nil (Traced.events _) ▸ (gives_lift _).seq rfl

/-- What comes of an attempt on a stack map: changes of it, or nothing at all. Where it breaks off,
it has told of changes, too. -/
def Tries {α : Type} (reg : Registry R) (owner : String) (held : Stacks) (next : α → Stacks)
    (x : Work (Option α)) : Prop :=
  match x.run.value with
  | .ok none => x.run.events = []
  | .ok (some out) => Changes reg owner held x.run.events (next out)
  | .error _ => ∃ mid, Changes reg owner held x.run.events mid

omit [Scalar R] in
theorem Tries.changes {α : Type} {held : Stacks} {next : α → Stacks} {x : Work (Option α)}
    {owner : String} {out : α} {es : List Event} (h : Tries reg owner held next x)
    (hx : Gives x (some out) es) : Changes reg owner held es (next out) := by
  rw [Tries, show x.run = ⟨.ok (some out), es⟩ from hx] at h
  exact h

omit [Scalar R] in
theorem Tries.silent {α : Type} {held : Stacks} {next : α → Stacks} {x : Work (Option α)}
    {owner : String} {es : List Event} (h : Tries reg owner held next x) (hx : Gives x none es) :
    es = [] := by
  rw [Tries, show x.run = ⟨.ok none, es⟩ from hx] at h
  exact h

theorem spend_tries (held : Stacks) (id : String) (phase : Phase) (ctx : Spend.Context) :
    Tries reg side.name held Spend.Outcome.next
      (held.spend id phase ctx reg (some side.name)) := by
  obtain h | ⟨_, _, -, -, -, ⟨fault, -, h⟩ | ⟨result, _, -, rfl, h⟩⟩ :=
    spend_cases held id phase ctx reg (some side.name)
  · rw [h]
    rfl
  · rw [h]
    exact ⟨held, .none held⟩
  · rw [Tries, show ExceptT.run _ = _ from h, causeFor_side]
    exact .of_assign held id _ rfl

theorem spendRepeatedly_succ (id : String) (phase : Phase)
    (build : Nat → Spend.Context → Spend.Context) (reg : Registry R) (owner : Option String)
    (left i : Nat) (ctx : Spend.Context) (held : Stacks) :
    (spendRepeatedly id phase build reg owner (left + 1) i ctx held).run =
      match (held.spend id phase (build i ctx) reg owner).run with
      | ⟨.error fault, es⟩ => ⟨.error fault, es⟩
      | ⟨.ok none, es⟩ => ⟨.ok ([], held), es⟩
      | ⟨.ok (some out), es⟩ =>
        let rest := (spendRepeatedly id phase build reg owner left (i + 1)
          (carry phase ctx (build i ctx) out.result) out.next).run
        ⟨rest.value.map fun p => (out.result :: p.1, p.2), es ++ rest.events⟩ := by
  rw [spendRepeatedly]
  rcases hx : (held.spend id phase (build i ctx) reg owner).run with ⟨fault | _ | out, es⟩
  · exact Breaks.bind hx _
  · exact (Gives.andThen hx _).trans (congrArg (Traced.mk _) (List.append_nil es))
  · refine (Gives.andThen hx _).trans ?_
    dsimp only
    rcases hy : (spendRepeatedly id phase build reg owner left (i + 1)
      (carry phase ctx (build i ctx) out.result) out.next).run with ⟨fault | p, fs⟩
    · rw [show ExceptT.run _ = _ from Breaks.bind hy _]
      rfl
    · rw [Gives.andThen hy]
      exact congrArg (Traced.mk _) (congrArg _ (List.append_nil fs))

theorem spendRepeatedly_changes (id : String) (phase : Phase)
    (build : Nat → Spend.Context → Spend.Context) (left i : Nat) (ctx : Spend.Context)
    (held : Stacks) :
    match (spendRepeatedly id phase build reg (some side.name) left i ctx held).run with
    | ⟨.ok p, es⟩ => Changes reg side.name held es p.2 ∧ (p.1 = [] → es = [])
    | ⟨.error _, es⟩ => ∃ mid, Changes reg side.name held es mid := by
  induction left generalizing i ctx held with
  | zero => exact ⟨.none _, fun _ => rfl⟩
  | succ left ih =>
    have hs := @spend_tries R reg side _ held id phase (build i ctx)
    rw [spendRepeatedly_succ]
    rcases hx : (held.spend id phase (build i ctx) reg (some side.name)).run with ⟨_ | _ | out, es⟩
    · rwa [Tries, hx] at hs
    · obtain rfl := hs.silent hx
      exact ⟨.none held, fun _ => rfl⟩
    · have hc := hs.changes hx
      have hn := ih (i + 1) (carry phase ctx (build i ctx) out.result) out.next
      dsimp only
      rcases hy : (spendRepeatedly id phase build reg (some side.name) left (i + 1)
        (carry phase ctx (build i ctx) out.result) out.next).run with ⟨_ | p, fs⟩
      · rw [hy] at hn
        obtain ⟨mid, hm⟩ := hn
        exact ⟨mid, hc.trans hm⟩
      · rw [hy] at hn
        exact ⟨hc.trans hn.1, fun h => by cases h⟩

theorem spendMany_tries (held : Stacks) (id : String) (attempts : Int) (phase : Phase)
    (build : Nat → Spend.Context → Spend.Context) (ctx : Option Spend.Context) :
    Tries reg side.name held Spend.ManyOutcome.next
      (held.spendMany id attempts phase build ctx reg (some side.name)) := by
  unfold spendMany
  split
  · rfl
  · have hs := @spendRepeatedly_changes R reg side _ id phase build attempts.toNat 0
      (ctx.getD { phase }) held
    rcases hx : (spendRepeatedly id phase build reg (some side.name) attempts.toNat 0
      (ctx.getD { phase }) held).run with ⟨_ | ⟨results, next⟩, es⟩
    · rw [hx] at hs
      rwa [Tries, show ExceptT.run _ = _ from Breaks.bind hx _]
    · rw [hx] at hs
      rw [Tries, Gives.andThen hx]
      cases results with
      | nil =>
        obtain rfl : es = [] := hs.2 rfl
        rfl
      | cons r results => simpa using! hs.1

omit [Scalar R] in
theorem cleanse_tries (held : Stacks) (id : String) (roll : Int) :
    Tries reg side.name held Cleanse.Outcome.next
      (held.cleanse id roll reg (some side.name)) := by
  unfold cleanse
  split
  · rfl
  · split
    · rfl
    · cases Cleanse.Rule.roll _ _ roll (held.count id) with
      | error fault => exact ⟨held, .none held⟩
      | ok result =>
        rw [ofExcept_ok_bind, Tries, Gives.andThen (gives_lift _), causeFor_side]
        simpa using! Changes.of_assign held id result.next rfl

end Stacks

end Duel
