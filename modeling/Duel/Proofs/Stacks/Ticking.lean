import Duel.Proofs.Stacks.Rules
import Mathlib.Data.List.Perm.Basic

namespace Duel

instance : LawfulMonad Traced := by
  refine LawfulMonad.mk' Traced (fun x => ?_) (fun _ _ => rfl) (fun x f g => ?_)
  · exact congrArg (Traced.mk x.value) (List.append_nil x.events)
  · exact congrArg (Traced.mk _) (List.append_assoc x.events _ _)

theorem gives_mapM_iff {ε α β : Type} {f : α → ExceptT ε Traced β} {l : List α} {bs : List β} :
    (∃ es, Gives (l.mapM f) bs es) ↔ List.Forall₂ (fun a b => ∃ es, Gives (f a) b es) l bs := by
  induction l generalizing bs with
  | nil =>
    rw [List.forall₂_nil_left_iff]
    constructor
    · rintro ⟨es, h⟩
      cases h
      rfl
    · rintro rfl
      exact ⟨[], rfl⟩
  | cons a l ih =>
    rw [List.mapM_cons]
    constructor
    · rintro ⟨es, h⟩
      obtain ⟨b, fs, gs, hb, h, -⟩ := h.bind
      obtain ⟨bs, hs, ds, hbs, h, -⟩ := h.bind
      cases h
      exact .cons ⟨fs, hb⟩ (ih.mp ⟨hs, hbs⟩)
    · rintro (_ | ⟨⟨fs, hb⟩, hbs⟩)
      obtain ⟨hs, hbs⟩ := ih.mpr hbs
      exact ⟨_, hb.seq (hbs.seq rfl)⟩

namespace Tick

/-- What the tick of one status comes to, and the stacks that are left of it. -/
structure Share where
  left : List (String × Int) := []
  damage : Int := 0
  logs : List String := []
  prompts : List Prompt := []

def Share.ofResult (id : String) (left : Int) (r : Result) : Share where
  left := if left ≤ 0 then [] else [(id, left)]
  damage := max 0 r.damage
  logs := (Event.spoken r.log).toList
  prompts := if r.prompt && decide (0 < left) then [⟨id, left⟩] else []

namespace Outcome

/-- Some statuses have ticked, and others wait for it. -/
def of (shares : List Share) (waiting : List (String × Int)) : Outcome where
  next := .ofList (shares.flatMap (·.left) ++ waiting)
  damage := total (shares.map (·.damage))
  logs := shares.flatMap (·.logs)
  prompts := shares.flatMap (·.prompts)

def append (x y : Outcome) : Outcome where
  next := .ofList (x.next.entries ++ y.next.entries)
  damage := x.damage + y.damage
  logs := x.logs ++ y.logs
  prompts := x.prompts ++ y.prompts

theorem next_of {shares : List Share} {waiting : List (String × Int)}
    (h : ((shares.flatMap (·.left) ++ waiting).map Prod.fst).Nodup) :
    (of shares waiting).next.entries = shares.flatMap (·.left) ++ waiting :=
  Ledger.entries_ofList h

theorem of_append {xs ys : List Share}
    (h : (((xs ++ ys).flatMap (·.left)).map Prod.fst).Nodup) :
    of (xs ++ ys) [] = (of xs []).append (of ys []) := by
  rw [List.flatMap_append, List.map_append] at h
  obtain ⟨hx, hy, -⟩ := List.nodup_append.mp h
  unfold append
  rw [next_of (by simpa using hx), next_of (by simpa using hy)]
  simp [of, total_append]

end Outcome

end Tick

namespace Stacks

variable {R : Type} [Scalar R] {reg : Registry R} {owner : Option String} {e : String × Int}

def ticked (reg : Registry R) (e : String × Int) : Except Fault (Option Tick.Result) :=
  match reg.get? e.1 with
  | none => .ok none
  | some status => status.tick e.2

/-- The damage that so many stacks of a status do in a tick. What heals does none. -/
def harm (reg : Registry R) (e : String × Int) : Int :=
  match ticked reg e with
  | .ok (some r) => max 0 r.damage
  | _ => 0

/-- The tick of a status that is alone. -/
def share (reg : Registry R) (owner : Option String) (e : String × Int) : Work Tick.Share := do
  match ← ofExcept (ticked reg e) with
  | none => return { left := [e] }
  | some r =>
    let left := Status.clamp (reg.get? e.1) r.next
    ExceptT.lift ⟨.ofResult e.1 left r,
      Event.ofChange (causeFor owner .tick (some "upkeep") none) e.1 e.2 left⟩

theorem tickEntry_eq (o : Tick.Outcome) : tickEntry reg owner o e = (do
    match ← ofExcept (ticked reg e) with
    | none => return o
    | some r => ExceptT.lift (o.enter reg owner e.1 r)) := by
  unfold tickEntry ticked
  cases reg.get? e.1 <;> rfl

omit [Scalar R] in
theorem assign_of_entries {held : Stacks} {before after : List (String × Int)}
    (h : held.entries = before ++ e :: after) (n : Int) (cause : Option Cause) :
    let left := Status.clamp (reg.get? e.1) n
    held.assign e.1 n reg cause = ⟨held.write e.1 left, Event.ofChange cause e.1 e.2 left⟩ := by
  have hget : held.get? e.1 = some e.2 := Ledger.get?_of_mem (by simp [h])
  have hhas : held.has e.1 = true := by rw [Ledger.has_eq, hget, Option.isSome_some]
  have hcount : held.count e.1 = e.2 := by rw [count, hget, Option.getD_some]
  unfold assign
  rw [if_neg (by simp [hhas]), hcount]

omit [Scalar R] in
theorem write_of_entries {held : Stacks} {before after : List (String × Int)}
    (h : held.entries = before ++ e :: after) (n : Int) :
    (held.write e.1 n).entries = before ++ (if n ≤ 0 then [] else [(e.1, n)]) ++ after := by
  unfold write
  split
  · rw [Ledger.entries_erase_of_entries h, List.append_nil]
  · rw [Ledger.entries_put_of_entries h, List.append_assoc, List.singleton_append]

theorem nodup_share {shares : List Tick.Share} {waiting : List (String × Int)} {s : Tick.Share}
    (hs : (s.left.map Prod.fst).Sublist [e.1])
    (h : ((shares.flatMap (·.left) ++ e :: waiting).map Prod.fst).Nodup) :
    (((shares ++ [s]).flatMap (·.left) ++ waiting).map Prod.fst).Nodup := by
  refine h.sublist ?_
  simp only [List.flatMap_append, List.flatMap_singleton, List.map_append, List.map_cons,
    List.append_assoc]
  exact (List.Sublist.refl _).append (hs.append (List.Sublist.refl _))

theorem left_ofResult (id : String) (left : Int) (r : Tick.Result) :
    ((Tick.Share.ofResult id left r).left.map Prod.fst).Sublist [id] := by
  unfold Tick.Share.ofResult
  dsimp only
  split
  · exact List.nil_sublist _
  · exact List.Sublist.refl _

omit [Scalar R] in
theorem enter_of {shares : List Tick.Share} {waiting : List (String × Int)}
    (h : ((shares.flatMap (·.left) ++ e :: waiting).map Prod.fst).Nodup) (r : Tick.Result)
    {left : Int} (hl : Status.clamp (reg.get? e.1) r.next = left) :
    (Tick.Outcome.of shares (e :: waiting)).enter reg owner e.1 r =
      ⟨.of (shares ++ [.ofResult e.1 left r]) waiting,
        Event.ofChange (causeFor owner .tick (some "upkeep") none) e.1 e.2 left⟩ := by
  have hentries := Tick.Outcome.next_of h
  have hnext : (Tick.Outcome.of shares (e :: waiting)).next.write e.1 left =
      (Tick.Outcome.of (shares ++ [.ofResult e.1 left r]) waiting).next := by
    refine Ledger.eq_of_entries ((write_of_entries hentries left).trans ?_)
    rw [Tick.Outcome.next_of (nodup_share (left_ofResult e.1 left r) h), List.flatMap_append,
      List.flatMap_singleton]
    rfl
  have hcount := count_write_self (Tick.Outcome.of shares (e :: waiting)).next e.1
    (hl ▸ clamp_nonneg (reg.get? e.1) r.next)
  unfold Tick.Outcome.enter
  rw [assign_of_entries hentries, hl]
  refine congrArg₂ Traced.mk ?_ (List.append_nil _)
  rw [hnext] at hcount
  simp only [Traced.value_pure, hnext, hcount]
  simp only [Tick.Outcome.of, List.map_append, List.map_singleton, total_append, total_singleton,
    List.flatMap_append, List.flatMap_singleton]
  by_cases hp : (r.prompt && decide (0 < left)) = true <;> simp [hp, Tick.Share.ofResult]

theorem tickEntry_of {shares : List Tick.Share} {waiting : List (String × Int)}
    (h : ((shares.flatMap (·.left) ++ e :: waiting).map Prod.fst).Nodup) :
    tickEntry reg owner (.of shares (e :: waiting)) e = (do
      return .of (shares ++ [← share reg owner e]) waiting) := by
  rw [tickEntry_eq, share, bind_assoc]
  refine congrArg _ (funext fun r => ?_)
  cases r with
  | none =>
    dsimp only
    rw [pure_bind]
    refine congrArg pure ?_
    simp [Tick.Outcome.of, total_append, total_singleton]
  | some r =>
    dsimp only
    rw [enter_of h r rfl]
    exact ExceptT.ext (congrArg (Traced.mk _) (List.append_nil _).symm)

section

variable {s : Tick.Share} {es : List Event}

theorem share_cases (h : Gives (share reg owner e) s es) :
    s = { left := [e] } ∧ harm reg e = 0 ∨
      ∃ left r, s = .ofResult e.1 left r ∧ harm reg e = max 0 r.damage := by
  obtain ⟨r, fs, gs, hr, h, -⟩ := h.bind
  obtain ⟨ht, -⟩ := gives_ofExcept hr
  unfold harm
  rw [ht]
  cases r with
  | none =>
    cases h
    exact .inl ⟨rfl, rfl⟩
  | some r =>
    cases h
    exact .inr ⟨_, r, rfl, rfl⟩

theorem share_left (h : Gives (share reg owner e) s es) :
    (s.left.map Prod.fst).Sublist [e.1] := by
  obtain ⟨rfl, -⟩ | ⟨left, r, rfl, -⟩ := share_cases h
  · exact List.Sublist.refl _
  · exact left_ofResult e.1 left r

theorem share_damage (h : Gives (share reg owner e) s es) : s.damage = harm reg e := by
  obtain ⟨rfl, hd⟩ | ⟨left, r, rfl, hd⟩ := share_cases h <;> exact hd.symm

theorem share_prompts (h : Gives (share reg owner e) s es) :
    ∀ p ∈ s.prompts, 0 < p.count ∧ (p.id, p.count) ∈ s.left := by
  obtain ⟨rfl, -⟩ | ⟨left, r, rfl, -⟩ := share_cases h
  · exact List.forall_mem_nil _
  · intro p hp
    unfold Tick.Share.ofResult at hp ⊢
    dsimp only at hp ⊢
    split at hp
    next hleft =>
      obtain rfl := List.mem_singleton.mp hp
      have hpos : 0 < left := by simpa using (Bool.and_eq_true_iff.mp hleft).2
      rw [if_neg (by omega)]
      exact ⟨hpos, List.mem_singleton.mpr rfl⟩
    next => cases hp

end

def Shares (reg : Registry R) (owner : Option String) (entries : List (String × Int))
    (shares : List Tick.Share) : Prop :=
  List.Forall₂ (fun e s => ∃ es, Gives (share reg owner e) s es) entries shares

namespace Shares

variable {entries : List (String × Int)} {shares : List Tick.Share}

theorem names (h : Shares reg owner entries shares) :
    ((shares.flatMap (·.left)).map Prod.fst).Sublist (entries.map Prod.fst) := by
  induction h with
  | nil => exact List.Sublist.refl _
  | cons hs _ ih =>
    obtain ⟨es, hs⟩ := hs
    rw [List.flatMap_cons, List.map_append, List.map_cons, ← List.singleton_append]
    exact (share_left hs).append ih

theorem next {held : Stacks} (h : Shares reg owner held.entries shares) :
    (Tick.Outcome.of shares []).next.entries = shares.flatMap (·.left) := by
  have hd := held.distinct.sublist h.names
  rw [Tick.Outcome.next_of (by simpa using hd), List.append_nil]

theorem damage (h : Shares reg owner entries shares) :
    shares.map (·.damage) = entries.map (harm reg) := by
  induction h with
  | nil => rfl
  | cons hs _ ih =>
    obtain ⟨es, hs⟩ := hs
    rw [List.map_cons, List.map_cons, ih, share_damage hs]

theorem prompts (h : Shares reg owner entries shares) {p : Tick.Prompt}
    (hp : p ∈ shares.flatMap (·.prompts)) :
    0 < p.count ∧ (p.id, p.count) ∈ shares.flatMap (·.left) := by
  induction h with
  | nil => cases hp
  | cons hs _ ih =>
    rw [List.flatMap_cons, List.mem_append] at hp ⊢
    obtain hp | hp := hp
    · obtain ⟨es, hs⟩ := hs
      obtain ⟨hpos, hleft⟩ := share_prompts hs p hp
      exact ⟨hpos, .inl hleft⟩
    · exact (ih hp).imp_right .inr

end Shares

/-- The statuses that wait tick one after the other, each as it would alone. -/
theorem ticks_of {shares : List Tick.Share} {waiting : List (String × Int)}
    (h : ((shares.flatMap (·.left) ++ waiting).map Prod.fst).Nodup) :
    waiting.foldlM (tickEntry reg owner) (.of shares waiting) = (do
      return .of (shares ++ (← waiting.mapM (share reg owner))) []) := by
  -- The invariant is that no status has a name in common with what is left of those before it.
  induction waiting generalizing shares with
  | nil => rw [List.foldlM_nil, List.mapM_nil, pure_bind, List.append_nil]
  | cons e waiting ih =>
    rw [List.foldlM_cons, tickEntry_of h, List.mapM_cons]
    simp only [bind_assoc, pure_bind]
    refine bind_congr_of_gives fun s es hs => ?_
    rw [ih (nodup_share (share_left hs) h)]
    simp only [List.append_assoc, List.singleton_append]

theorem tick_eq (held : Stacks) : held.tick reg owner = (do
    return .of (← held.entries.mapM (share reg owner)) []) := by
  have hheld : Ledger.ofList held.entries = held :=
    Ledger.eq_of_entries (Ledger.entries_ofList held.distinct)
  have hstart : Tick.Outcome.of [] held.entries = ⟨held, 0, [], []⟩ :=
    congrArg (Tick.Outcome.mk · 0 [] []) hheld
  have hticks := @ticks_of R _ reg owner [] held.entries held.distinct
  rwa [hstart] at hticks

theorem tick_gives {held : Stacks} {o : Tick.Outcome} {es : List Event}
    (h : Gives (held.tick reg owner) o es) :
    ∃ shares, Shares reg owner held.entries shares ∧ o = .of shares [] := by
  rw [tick_eq] at h
  obtain ⟨shares, fs, gs, hs, h, -⟩ := h.bind
  cases h
  exact ⟨shares, gives_mapM_iff.mp ⟨fs, hs⟩, rfl⟩

theorem gives_tick {held : Stacks} {shares : List Tick.Share}
    (h : Shares reg owner held.entries shares) :
    ∃ es, Gives (held.tick reg owner) (.of shares []) es := by
  obtain ⟨es, h⟩ := gives_mapM_iff.mpr h
  rw [tick_eq]
  exact ⟨_, h.seq rfl⟩

theorem share_gives_iff {e : String × Int} :
    (∃ s fs, Gives (share reg owner e) s fs) ↔ ∃ r, ticked reg e = .ok r := by
  constructor
  · rintro ⟨s, fs, h⟩
    obtain ⟨r, gs, hs, hr, -, -⟩ := h.bind
    refine ⟨r, ?_⟩
    cases ht : ticked reg e with
    | error fault =>
      rw [ht] at hr
      cases hr
    | ok r' =>
      rw [ht] at hr
      cases hr
      rfl
  · rintro ⟨r, h⟩
    unfold share
    rw [h]
    cases r with
    | none => exact ⟨_, _, rfl⟩
    | some r => exact ⟨_, _, rfl⟩

theorem Shares.exists_share {entries : List (String × Int)} {shares : List Tick.Share}
    (h : Shares reg owner entries shares) {e : String × Int} (he : e ∈ entries) :
    ∃ s fs, Gives (share reg owner e) s fs := by
  induction h with
  | nil => cases he
  | cons hs _ ih =>
    obtain rfl | he := List.mem_cons.mp he
    · exact ⟨_, hs⟩
    · exact ih he

theorem tick_gives_iff (held : Stacks) : (∃ o fs, Gives (held.tick reg owner) o fs) ↔
    ∀ e ∈ held.entries, ∃ r, ticked reg e = .ok r := by
  constructor
  · rintro ⟨o, fs, h⟩ e he
    obtain ⟨shares, hs, -⟩ := tick_gives h
    exact share_gives_iff.mp (hs.exists_share he)
  · intro h
    have hshares : ∃ shares, Shares reg owner held.entries shares := by
      generalize held.entries = entries at h
      induction entries with
      | nil => exact ⟨[], .nil⟩
      | cons e entries ih =>
        obtain ⟨he, h⟩ := List.forall_mem_cons.mp h
        obtain ⟨s, hs⟩ := share_gives_iff.mpr he
        obtain ⟨shares, hshares⟩ := ih h
        exact ⟨s :: shares, .cons hs hshares⟩
    obtain ⟨shares, hs⟩ := hshares
    exact ⟨_, gives_tick hs⟩

theorem tick_joins {held more both : Stacks} (h : both.entries = held.entries ++ more.entries) :
    both.tick reg owner = (do
      let x ← held.tick reg owner
      let y ← more.tick reg owner
      return x.append y) := by
  rw [tick_eq, tick_eq, tick_eq, h, List.mapM_append]
  simp only [bind_assoc, pure_bind]
  refine bind_congr_of_gives fun xs fs hxs => bind_congr_of_gives fun ys gs hys => ?_
  have hx : Shares reg owner held.entries xs := gives_mapM_iff.mp ⟨fs, hxs⟩
  have hy : Shares reg owner more.entries ys := gives_mapM_iff.mp ⟨gs, hys⟩
  have hd := both.distinct
  rw [h, List.map_append] at hd
  rw [Tick.Outcome.of_append]
  rw [List.flatMap_append, List.map_append]
  exact hd.sublist (hx.names.append hy.names)

/-- A tick of statuses that are put together is a tick of the ones and then of the others. In any
other order the damage is the same, and so is what is left. What heals takes nothing from the
damage, and a prompt tells how many stacks are there to be rolled off. -/
theorem tick_alone (reg : Registry R) (owner : Option String) (held : Stacks) :
    (∀ more both : Stacks, both.entries = held.entries ++ more.entries →
      both.tick reg owner = (do
        let x ← held.tick reg owner
        let y ← more.tick reg owner
        return x.append y) ∧
      ∀ x fs y gs, Gives (held.tick reg owner) x fs → Gives (more.tick reg owner) y gs →
        (x.append y).next.entries = x.next.entries ++ y.next.entries) ∧
    (∀ shuffled : Stacks, shuffled.entries.Perm held.entries → ∀ o es,
      Gives (held.tick reg owner) o es → ∃ o' fs, Gives (shuffled.tick reg owner) o' fs ∧
        o'.damage = o.damage ∧ ∀ id, o'.next.get? id = o.next.get? id) ∧
    ∀ o es, Gives (held.tick reg owner) o es →
      o.damage = total (held.entries.map (harm reg)) ∧
      ∀ p ∈ o.prompts, 0 < p.count ∧ o.next.get? p.id = some p.count := by
  refine ⟨fun more both h => ⟨tick_joins h, fun x fs y gs hx hy => ?_⟩,
    fun shuffled h o es ho => ?_, fun o es ho => ?_⟩
  · obtain ⟨xs, hxs, rfl⟩ := tick_gives hx
    obtain ⟨ys, hys, rfl⟩ := tick_gives hy
    have hd := both.distinct
    rw [h, List.map_append] at hd
    refine Ledger.entries_ofList ?_
    rw [hxs.next, hys.next, List.map_append]
    exact hd.sublist (hxs.names.append hys.names)
  · obtain ⟨shares, hs, rfl⟩ := tick_gives ho
    obtain ⟨shares', hs', hp⟩ := List.perm_comp_forall₂ h hs
    obtain ⟨fs, ho'⟩ := gives_tick hs'
    refine ⟨_, fs, ho', total_perm (hp.map _), Ledger.get?_of_perm ?_⟩
    rw [Shares.next hs, Shares.next hs']
    exact hp.flatMap_right _
  · obtain ⟨shares, hs, rfl⟩ := tick_gives ho
    refine ⟨congrArg total hs.damage, fun p hp => ?_⟩
    obtain ⟨hpos, hleft⟩ := hs.prompts hp
    exact ⟨hpos, Ledger.get?_of_mem (hs.next ▸ hleft)⟩

def burn : Status Rat where
  id := "burn"
  name := "Burn"
  behavior := some (.affliction { tiers := [2, 3, 4], decay := 1 })

def balm : Status Rat where
  id := "balm"
  name := "Balm"
  onTick := some fun n => .ok (some { next := n + 1, damage := -5, prompt := true })
  maxStacks := some 3

def infirmary : Registry Rat := (Registry.empty.define burn).define balm

def embers : Stacks := .ofList [("burn", 2)]

def salves : Stacks := .ofList [("balm", 3), ("dust", 1)]

def fever : Stacks := .ofList [("burn", 2), ("balm", 3), ("dust", 1)]

def shaken : Stacks := .ofList [("dust", 1), ("balm", 3), ("burn", 2)]

theorem tick_returns (held : Stacks) (reg : Registry R) (owner : Option String)
    (p : Tick.Outcome → Bool) (h : (held.tick reg owner).run.value.toOption.any p = true) :
    ∃ o es, Gives (held.tick reg owner) o es ∧ p o = true := by
  cases hv : (held.tick reg owner).run.value with
  | error fault =>
    rw [hv] at h
    cases h
  | ok o =>
    rw [hv] at h
    exact ⟨o, _, .of_value hv, h⟩

theorem tick_alone_fever :
    fever.entries = embers.entries ++ salves.entries ∧ shaken.entries.Perm fever.entries ∧
    ∃ x fs y gs o es, Gives (embers.tick infirmary (some "ai")) x fs ∧
      Gives (salves.tick infirmary (some "ai")) y gs ∧
      Gives (fever.tick infirmary (some "ai")) (x.append y) (fs ++ gs) ∧
      (x.append y).next.entries = [("burn", 1), ("balm", 3), ("dust", 1)] ∧
      Gives (shaken.tick infirmary (some "ai")) o es ∧ o.damage = 3 ∧
      ∀ id, o.next.get? id = (x.append y).next.get? id := by
  have hjoin : fever.entries = embers.entries ++ salves.entries := by decide +kernel
  have hperm : shaken.entries.Perm fever.entries := by decide +kernel
  obtain ⟨x, fs, hx, hembers⟩ := tick_returns embers infirmary (some "ai")
    (fun o => o.next.entries == [("burn", 1)]) (by decide +kernel)
  obtain ⟨y, gs, hy, hsalves⟩ := tick_returns salves infirmary (some "ai")
    (fun o => o.next.entries == [("balm", 3), ("dust", 1)]) (by decide +kernel)
  obtain ⟨hboth, hentries⟩ := (tick_alone infirmary (some "ai") embers).1 salves fever hjoin
  obtain ⟨-, hshuffled, htotals⟩ := tick_alone infirmary (some "ai") fever
  have hfever : Gives (fever.tick infirmary (some "ai")) (x.append y) (fs ++ gs) := by
    rw [hboth, ← List.append_nil gs]
    exact hx.seq (hy.seq rfl)
  obtain ⟨o, es, ho, hdamage, hnext⟩ := hshuffled shaken hperm _ _ hfever
  have hthree : total (fever.entries.map (harm infirmary)) = 3 := by decide +kernel
  have hleft := hentries x fs y gs hx hy
  rw [eq_of_beq hembers, eq_of_beq hsalves] at hleft
  exact ⟨hjoin, hperm, x, fs, y, gs, o, es, hx, hy, hfever, hleft, ho,
    (hdamage.trans (htotals _ _ hfever).1).trans hthree, hnext⟩

end Stacks

end Duel
