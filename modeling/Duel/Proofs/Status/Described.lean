import Duel.Proofs.Content.Packs
import Duel.Proofs.Stacks.Repeating
import Duel.Proofs.Stacks.Wearing
import Duel.Proofs.Status.Entries

namespace Duel

open Duel.Field

theorem Spend.Rule.apply_of_read {d : Document} {rule : Spend.Rule Number}
    (h : Spend.Rule.ofDocument d = .ok rule) : rule.apply = none := by
  obtain ⟨fields, h⟩ := run_of_record h
  obtain ⟨g, needsRoll, hg, -, rfl⟩ := run_seq_ok (run_of_obeying h)
  obtain ⟨f, phases, hf, -, rfl⟩ := run_seq_ok hg
  obtain ⟨cost, -, rfl⟩ := run_map_ok hf
  rfl

theorem Cleanse.Rule.resolve_of_read {d : Document} {rule : Cleanse.Rule}
    (h : Cleanse.Rule.ofDocument d = .ok rule) : rule.resolve = none := by
  obtain ⟨fields, h⟩ := run_of_record h
  obtain ⟨g, animation, hg, -, rfl⟩ := run_seq_ok h
  obtain ⟨threshold, -, rfl⟩ := run_map_ok hg
  rfl

theorem Field.real_ok {d : Document} {r : Number} (h : real d = .ok r) : ∃ x, r = .double x := by
  have hspelled {s : String} (h : realSpelled s = .ok r) : ∃ x, r = .double x := by
    unfold realSpelled at h
    split at h <;> cases h
    exact ⟨_, rfl⟩
  unfold real at h
  split at h
  · cases h
    exact ⟨_, rfl⟩
  · split at h <;> cases h
    exact ⟨_, rfl⟩
  · cases h
    exact ⟨_, rfl⟩
  · unfold spelling at h
    split at h
    · cases h
    · exact hspelled h
  · unfold spellingOfBytes at h
    split at h
    · exact hspelled h
    · cases h
  · cases h

theorem Affliction.decay_of_read {d : Document} {a : Affliction Number}
    (h : Affliction.ofDocument d = .ok a) : a.decay = 1 ∨ ∃ x, a.decay = .double x := by
  obtain ⟨fields, h⟩ := run_of_record h
  obtain ⟨g, prompts, hg, -, rfl⟩ := run_seq_ok (run_of_obeying h)
  obtain ⟨f, decay, hf, hd, rfl⟩ := run_seq_ok hg
  obtain ⟨tiers, -, rfl⟩ := run_map_ok hf
  exact (optional_ok hd).imp_right fun ⟨d, hd⟩ => real_ok hd

theorem Behavior.affliction_of_config {id : String} {config : Document} {a : Affliction Number}
    (h : Behavior.ofConfig id config = .ok (.affliction a)) :
    ∃ d, Affliction.ofDocument d = .ok a := by
  unfold ofConfig at h
  split at h
  · cases h
  next title reader hl =>
    have h := mapError_ok (mapError_ok h)
    generalize (if config.isEmpty then Document.table [] else config) = d at h
    have hmem : (title, reader) ∈ configs.map Prod.snd := by
      obtain ⟨before, after, hl, -⟩ := List.lookup_eq_some_iff.mp hl
      rw [hl]
      simp
    simp only [configs, List.map_cons, List.map_nil, List.mem_cons, Prod.mk.injEq, List.not_mem_nil,
      or_false] at hmem
    obtain ⟨-, rfl⟩ | ⟨-, rfl⟩ | ⟨-, rfl⟩ | ⟨-, rfl⟩ := hmem
    · obtain ⟨pool, -, h⟩ := except_map_ok h
      cases h
    · obtain ⟨reaction, -, h⟩ := except_map_ok h
      cases h
    · obtain ⟨b, hb, h⟩ := except_map_ok h
      cases h
      exact ⟨d, hb⟩
    · obtain ⟨fields, h⟩ := run_of_record h
      cases h

/-- A status as content describes it, without formulas. -/
structure Status.Described (s : Status Number) : Prop where
  tick : s.onTick = none
  spend : ∀ rule, s.spend = some rule → rule.apply = none
  cleanse : ∀ rule, s.cleanse = some rule → rule.resolve = none
  decay : ∀ a, s.behavior = some (.affliction a) → a.decay = 1 ∨ ∃ x, a.decay = .double x

section

variable {R : Type}

/-- The text for a bonus has to tell its size where there is no text of its own. -/
def Bonus.written (field : Bonus → Option Int) (b : Option Bonus) : Option Int :=
  (Bonus.gain field b).bind fun (b, n) => if (Event.spoken b.log).isSome then none else some n

/-- The number that a spend writes into its text, if there is one. -/
def Behavior.written (b : Behavior R) (needsRoll : Bool) (ctx : Spend.Context) (phase : Phase) :
    Option Int :=
  match b with
  | bonusPool pool =>
    match phase with
    | .attackRoll => Bonus.written (·.damage) pool.attack
    | .defenseRoll => Bonus.written (·.block) pool.defense
    | _ => none
  | reaction r =>
    if Reaction.asksThreshold needsRoll ctx.roll then some (ctx.roll.getD r.threshold) else none
  | affliction _ | script => none

def Status.written (s : Status R) (phase : Phase) (ctx : Spend.Context) : Option Int :=
  s.behavior.bind fun b => b.written s.needsRoll ctx phase

theorem Bonus.line_ok_iff (b : Bonus) (name : String) (n : Int) (what : String) :
    (∃ t, b.line name n what = .ok t) ↔
      ∀ m, (if (Event.spoken b.log).isSome then none else some n) = some m → Number.Short m := by
  unfold line
  cases Event.spoken b.log with
  | some log => exact iff_of_true ⟨_, rfl⟩ fun m hm => by cases hm
  | none =>
    dsimp only [Option.isSome_none]
    rw [except_bind_returns]
    simp only [pure_returns, and_true, Number.digits_ok_iff, Bool.false_eq_true, if_false,
      Option.some.injEq, forall_eq']

theorem Bonus.mapM_ok_iff (field : Bonus → Option Int) (b : Option Bonus) {name what : String}
    {f : Bonus × Int → Except Double.Fault (Spend.Result R)}
    (hf : ∀ b n, (∃ r, f (b, n) = .ok r) ↔ ∃ t, b.line name n what = .ok t) :
    (∃ r, (Bonus.gain field b).mapM f = .ok r) ↔
      ∀ n, written field b = some n → Number.Short n := by
  unfold written
  rcases gain field b with _ | ⟨b, n⟩
  · exact iff_of_true ⟨none, rfl⟩ fun n hn => by cases hn
  · exact except_map_returns.trans ((hf b n).trans (b.line_ok_iff name n what))

variable [Scalar R]

theorem Behavior.spend_ok_iff (b : Behavior R) (name : String) (needsRoll : Bool)
    (ctx : Spend.Context) (phase : Phase) : (∃ r, b.spend name needsRoll ctx phase = .ok r) ↔
      ∀ n, b.written needsRoll ctx phase = some n → Number.Short n := by
  cases b with
  | bonusPool pool =>
    have hline {b : Bonus} {n : Int} {what : String} {f : String → Spend.Result R} :
        (∃ r, (do return f (← b.line name n what) : Except Double.Fault _) = .ok r) ↔
          ∃ t, b.line name n what = .ok t := by
      simp only [except_bind_returns, pure_returns, and_true]
    cases phase with
    | attackRoll => exact Bonus.mapM_ok_iff (·.damage) pool.attack fun b n => hline
    | defenseRoll => exact Bonus.mapM_ok_iff (·.block) pool.defense fun b n => hline
    | _ => exact iff_of_true ⟨_, rfl⟩ fun n hn => by cases hn
  | reaction r =>
    unfold spend Reaction.spend written
    cases Reaction.asksThreshold needsRoll ctx.roll with
    | false => exact iff_of_true ⟨_, rfl⟩ fun n hn => by cases hn
    | true => simp [except_map_returns, Number.digits_ok_iff]
  | affliction | script => exact iff_of_true ⟨_, rfl⟩ fun n hn => by cases hn

end

theorem Status.Described.spendResult_ok_iff {s : Status Number} (h : s.Described)
    {rule : Spend.Rule Number} (hr : s.spend = some rule) (phase : Phase) (ctx : Spend.Context) :
    (∃ r, s.spendResult rule phase ctx = .ok r) ↔
      ∀ n, s.written phase ctx = some n → Number.Short n := by
  unfold Status.spendResult Status.written
  rw [h.spend rule hr]
  cases s.behavior with
  | none => exact iff_of_true ⟨none, rfl⟩ fun n hn => by cases hn
  | some b => exact mapError_returns.trans (b.spend_ok_iff s.name s.needsRoll _ phase)

def Cleanse.Rule.rolled (rule : Rule) (name : String) (roll current : Int) : Result :=
  if rule.threshold ≤ roll then
    ⟨true, 0, name ++ " cleanse success " ++ ("(roll " ++ toString roll ++ ")")⟩
  else ⟨false, current, name ++ " cleanse failed " ++ ("(roll " ++ toString roll ++ ")")⟩

theorem Cleanse.Rule.roll_eq {rule : Rule} (h : rule.resolve = none) (name : String)
    (roll current : Int) : rule.roll name roll current =
      if Number.Short roll then .ok (rule.rolled name roll current)
      else .error (.number .lengthy) := by
  unfold Rule.roll outcome rolled
  rw [h, Number.digits_eq]
  dsimp only
  by_cases hshort : Number.Short roll
  · rw [if_pos hshort, if_pos hshort]
    split <;> rfl
  · rw [if_neg hshort, if_neg hshort]
    rfl

namespace Status.Entry

variable {e : Entry} {d : Document} {s : Status Number}

theorem fields_of_read (h : read d = .ok e) :
    (∀ rule, e.spend = some rule → rule.apply = none) ∧
      ∀ rule, e.cleanse = some rule → rule.resolve = none := by
  obtain ⟨fields, h⟩ := run_of_record (mapError_ok h)
  obtain ⟨f₁, priority, h₁, -, rfl⟩ := run_seq_ok (run_of_obeying h)
  obtain ⟨f₂, maxStacks, h₂, -, rfl⟩ := run_seq_ok h₁
  obtain ⟨f₃, cleanse, h₃, hcleanse, rfl⟩ := run_seq_ok h₂
  obtain ⟨f₄, modify, h₄, -, rfl⟩ := run_seq_ok h₃
  obtain ⟨f₅, spend, h₅, hspend, rfl⟩ := run_seq_ok h₄
  obtain ⟨f₆, config, h₆, -, rfl⟩ := run_seq_ok h₅
  obtain ⟨f₇, behavior, h₇, -, rfl⟩ := run_seq_ok h₆
  obtain ⟨f₈, activation, h₈, -, rfl⟩ := run_seq_ok h₇
  obtain ⟨f₉, icon, h₉, -, rfl⟩ := run_seq_ok h₈
  obtain ⟨g, kind, hg, -, rfl⟩ := run_seq_ok h₉
  obtain ⟨g', name, hg', -, rfl⟩ := run_seq_ok hg
  obtain ⟨id, -, rfl⟩ := run_map_ok hg'
  refine ⟨fun rule hr => ?_, fun rule hr => ?_⟩
  · obtain rfl : spend = some rule := hr
    obtain ⟨d, hd⟩ := maybe_ok hspend
    exact Spend.Rule.apply_of_read hd
  · obtain rfl : cleanse = some rule := hr
    obtain ⟨d, hd⟩ := maybe_ok hcleanse
    exact Cleanse.Rule.resolve_of_read hd

theorem described (h : read d = .ok e) (hs : e.Defines s) (hplain : e.modify = none) :
    s.Described := by
  obtain ⟨hspend, hcleanse⟩ := fields_of_read h
  have hdraft : e.draft = .ok {
      status := {
        id := e.id, name := e.name, kind := e.kind, icon := e.icon, activation := e.activation,
        spend := e.spend, cleanse := e.cleanse, maxStacks := e.maxStacks, priority := e.priority }
      behavior := e.behavior
      config := if e.behavior.isSome then e.configDocument else .null } := by
    unfold draft
    rw [hplain]
    rfl
  have hs := hs.2 .empty
  rw [Registry.enterEntry, hdraft] at hs
  dsimp only at hs
  rw [Registry.enter_eq] at hs
  have hf := mapError_ok (congrArg Prod.fst hs)
  unfold Draft.finish at hf
  split at hf
  · cases hf
    exact ⟨rfl, hspend, hcleanse, fun a ha => by cases ha⟩
  next id _ =>
    obtain ⟨b, hb, rfl⟩ := except_map_ok hf
    refine ⟨rfl, hspend, hcleanse, fun a ha => ?_⟩
    obtain rfl : b = .affliction a := Option.some.inj ha
    obtain ⟨d, hd⟩ := Behavior.affliction_of_config hb
    exact Affliction.decay_of_read hd

end Status.Entry

namespace Registry

def Described (reg : Registry Number) : Prop := ∀ id s, reg.get? id = some s → s.Described

theorem described_empty : Registry.empty.Described := fun id s hs => by cases hs

theorem Described.define {reg : Registry Number} (h : reg.Described) {s : Status Number}
    (hs : s.Described) : (reg.define s).Described := by
  intro id t ht
  by_cases hid : id = s.id
  · subst hid
    obtain rfl : s = t := by
      rw [Registry.define, Tables.get?_define_self] at ht
      exact Option.some.inj ht
    exact hs
  · rw [Registry.define, Tables.get?_define_of_ne hid] at ht
    exact h id t ht

theorem enterAll_described {es : List Status.Entry}
    (hread : ∀ e ∈ es, ∃ d, Status.Entry.read d = .ok e) (hplain : ∀ e ∈ es, e.modify = none)
    {reg : Registry Number} (h : reg.Described) :
    (∃ ss, (reg.enterAll es).1 = .ok ss) ∧ (reg.enterAll es).2.Described := by
  induction es generalizing reg with
  | nil => exact ⟨⟨[], rfl⟩, h⟩
  | cons e es ih =>
    obtain ⟨⟨d, hd⟩, hread⟩ := List.forall_mem_cons.mp hread
    obtain ⟨hp, hplain⟩ := List.forall_mem_cons.mp hplain
    have hf : e.formulas = .ok () := by
      unfold Status.Entry.formulas
      rw [hp]
      rfl
    obtain ⟨s, hs⟩ := Status.Entry.defines (Status.Entry.rules_of_read hd) hf
    obtain ⟨⟨ss, hss⟩, hreg⟩ := ih hread hplain (h.define (Status.Entry.described hd hs hp))
    rw [enterAll, hs.2 reg]
    dsimp only
    rw [hss]
    exact ⟨⟨_, rfl⟩, hreg⟩

theorem Described.mild {reg : Registry Number} (h : reg.Described) : reg.Mild := by
  intro id status rule hook ctx r hs hr hhook
  rw [(h id status hs).spend rule hr] at hhook
  cases hhook

end Registry

namespace Stacks

variable {reg : Registry Number} {owner : Option String}

theorem roundHalfUp_iff {r : Number} (h : r = 1 ∨ ∃ x, r = .double x) :
    (∃ d, Scalar.roundHalfUp r = .ok d) ↔ Scalar.isFinite r = true := by
  obtain rfl | ⟨x, rfl⟩ := h
  · have hone : (Scalar.roundHalfUp (1 : Number)).toOption.isSome = true := by decide +kernel
    refine iff_of_true ?_ rfl
    cases hr : Scalar.roundHalfUp (1 : Number) with
    | error fault =>
      rw [hr] at hone
      cases hone
    | ok d => exact ⟨d, rfl⟩
  · rw [Number.roundHalfUp_eq (r := .double x) rfl]
    change _ ↔ x.isFinite = true
    rw [Double.isFinite_iff]
    constructor
    · rintro ⟨d, hd⟩
      cases hv : Double.value? x with
      | none =>
        obtain h | h := Double.floor_add_half_of_none hv <;> rw [h] at hd <;> cases hd
      | some v =>
        obtain ⟨negative, m, e, hr, -⟩ := Double.exists_read hv
        exact ⟨negative, m, e, hr⟩
    · rintro ⟨negative, m, e, hr⟩
      obtain ⟨w, hw⟩ := Double.finite_add_half (Double.value_of_read hr)
      exact ⟨_, Double.floor_of_value hw⟩

theorem ticked_iff (h : reg.Described) (e : String × Int) : (∃ r, ticked reg e = .ok r) ↔
    ∀ s a, reg.get? e.1 = some s → s.behavior = some (.affliction a) →
      Scalar.isFinite a.decay = true ∧ a.Told e.2 := by
  unfold ticked
  cases hs : reg.get? e.1 with
  | none => exact iff_of_true ⟨none, rfl⟩ fun s a hs => by cases hs
  | some s =>
    have hd := h e.1 s hs
    dsimp only
    unfold Status.tick
    rw [hd.tick]
    cases hb : s.behavior with
    | none =>
      refine iff_of_true ⟨none, rfl⟩ fun t a ht ha => ?_
      cases ht
      rw [hb] at ha
      cases ha
    | some b =>
      cases b with
      | affliction a =>
        have htick : (∃ r, ((a.tick s.name e.2).map some).mapError Fault.number = .ok r) ↔
            Scalar.isFinite a.decay = true ∧ a.Told e.2 := by
          rw [← roundHalfUp_iff (hd.decay a hb), ← Affliction.tick_ok_iff s.name]
          cases a.tick s.name e.2 with
          | error fault => exact iff_of_false (fun ⟨r, h⟩ => by cases h) fun ⟨r, h⟩ => by cases h
          | ok r => exact iff_of_true ⟨_, rfl⟩ ⟨r, rfl⟩
        refine htick.trans ⟨fun hf t a' ht ha => ?_, fun hf => hf s a rfl hb⟩
        cases ht
        rw [hb] at ha
        cases ha
        exact hf
      | bonusPool | reaction | script =>
        refine iff_of_true ⟨none, rfl⟩ fun t a ht ha => ?_
        cases ht
        rw [hb] at ha
        cases ha

/-- Whatever number an attempt at a spend has to tell of, it can be written. -/
def Tellable (reg : Registry Number) (id : String) (phase : Phase) (ctx : Spend.Context)
    (held : Stacks) : Prop :=
  ∀ s rule n, reg.get? id = some s → s.spend = some rule →
    rule.admits phase ctx (held.count id) = true → s.written phase ctx = some n → Number.Short n

theorem spend_ok_iff (h : reg.Described) (held : Stacks) (id : String) (phase : Phase)
    (ctx : Spend.Context) (owner : Option String) :
    (∃ out es, Gives (held.spend id phase ctx reg owner) out es) ↔
      Tellable reg id phase ctx held := by
  rw [spend_gives_iff]
  constructor
  · exact fun hok s rule n hs hr ha =>
      ((h id s hs).spendResult_ok_iff hr phase ctx).mp (hok s rule hs hr ha) n
  · exact fun htell s rule hs hr ha =>
      ((h id s hs).spendResult_ok_iff hr phase ctx).mpr fun n => htell s rule n hs hr ha

theorem spendMany_ok_iff (h : reg.Described) (held : Stacks) (id : String) (attempts : Int)
    (phase : Phase) (build : Nat → Spend.Context → Spend.Context) (initial : Option Spend.Context)
    (owner : Option String) :
    (∃ out es, Gives (held.spendMany id attempts phase build initial reg owner) out es) ↔
      ∀ results last next es,
        Row id phase build reg owner 0 (initial.getD { phase }) held results last next es →
        results.length < attempts → Tellable reg id phase (build results.length last) next := by
  rw [gives_iff_not_breaks]
  constructor
  · intro hno results last next es hrow hlen
    rw [← spend_ok_iff h next id phase _ owner, gives_iff_not_breaks]
    rintro ⟨fault, fs, hf⟩
    exact hno ⟨fault, es, (spendMany_breaks_iff held id attempts phase build initial reg owner
      fault es).mpr ⟨results, last, next, hrow, hlen, (spend_eq_throw hf).1⟩⟩
  · rintro htell ⟨fault, es, hb⟩
    obtain ⟨results, last, next, hrow, hlen, hf⟩ :=
      (spendMany_breaks_iff held id attempts phase build initial reg owner fault es).mp hb
    have hok := (spend_ok_iff h next id phase _ owner).mpr (htell results last next es hrow hlen)
    rw [gives_iff_not_breaks, hf] at hok
    exact hok ⟨fault, [], rfl⟩

theorem cleanse_ok_iff (h : reg.Described) (held : Stacks) (id : String) (roll : Int)
    (owner : Option String) : (∃ out es, Gives (held.cleanse id roll reg owner) out es) ↔
      ∀ s rule, reg.get? id = some s → s.cleanse = some rule → Number.Short roll := by
  unfold cleanse
  cases hs : reg.get? id with
  | none => exact iff_of_true ⟨none, [], rfl⟩ fun s rule hs => by cases hs
  | some s =>
    dsimp only
    cases hr : s.cleanse with
    | none =>
      refine iff_of_true ⟨none, [], rfl⟩ fun t rule ht hr' => ?_
      cases ht
      rw [hr] at hr'
      cases hr'
    | some rule =>
      dsimp only
      rw [Cleanse.Rule.roll_eq ((h id s hs).cleanse rule hr)]
      by_cases hshort : Number.Short roll
      · rw [if_pos hshort, ofExcept_ok_bind]
        exact iff_of_true ⟨_, _, (gives_lift _).seq rfl⟩ fun _ _ _ _ => hshort
      · rw [if_neg hshort, ofExcept_error_bind]
        refine iff_of_false (fun ⟨out, es, hx⟩ => ?_) fun hall => hshort (hall s rule rfl hr)
        cases hx

theorem cleanse_clears (h : reg.Described) {held : Stacks} {id : String} {roll : Int}
    {out : Cleanse.Outcome} {es : List Event}
    (ho : Gives (held.cleanse id roll reg owner) (some out) es)
    (hs : out.result.success = true) : out.next.has id = false := by
  obtain ⟨status, rule, cause, hstatus, hrule, hroll, hnext⟩ := cleanse_some ho
  have hzero : out.result.next = 0 := by
    rw [Cleanse.Rule.roll_eq ((h id status hstatus).cleanse rule hrule)] at hroll
    split at hroll
    · rw [← Except.ok.inj hroll] at hs ⊢
      unfold Cleanse.Rule.rolled at hs ⊢
      split at hs
      next hle => rw [if_pos hle]
      next => cases hs
    · cases hroll
  rw [hnext, hzero]
  unfold assign
  split
  next hno => simpa using hno
  next =>
    have hclamp : Status.clamp (reg.get? id) 0 = 0 := by
      unfold Status.clamp
      split
      · split <;> omega
      · rfl
    dsimp only
    rw [hclamp, Ledger.has_eq, get?_write_self]
    rfl

/-- What content describes without formulas ticks exactly where no decay that is held is infinite or
no number, and where the numbers of its texts are not too long. Nothing else stands in the way of a
spend or a cleanse, and what is spent brings factors within bounds. -/
theorem ticks_iff_finite (es : List Status.Entry)
    (hread : ∀ e ∈ es, ∃ d, Status.Entry.read d = .ok e) (hplain : ∀ e ∈ es, e.modify = none) :
    ∃ ss reg, Registry.empty.enterAll es = (.ok ss, reg) ∧
      ∀ (held : Stacks) (owner : Option String),
        ((∃ o fs, Gives (held.tick reg owner) o fs) ↔ ∀ e ∈ held.entries, ∀ s a,
          reg.get? e.1 = some s → s.behavior = some (.affliction a) →
            Scalar.isFinite a.decay = true ∧ a.Told e.2) ∧
        (∀ id phase ctx, ((∃ out fs, Gives (held.spend id phase ctx reg owner) out fs) ↔
            Tellable reg id phase ctx held) ∧
          ∀ out fs, Gives (held.spend id phase ctx reg owner) (some out) fs → out.result.Mild) ∧
        (∀ id attempts phase build initial,
          ((∃ out fs, Gives (held.spendMany id attempts phase build initial reg owner) out fs) ↔
            ∀ results last next fs,
              Row id phase build reg owner 0 (initial.getD { phase }) held results last next fs →
              results.length < attempts → Tellable reg id phase (build results.length last) next) ∧
          ∀ out fs, Gives (held.spendMany id attempts phase build initial reg owner) (some out) fs →
            ∀ r ∈ out.summary.results, r.Mild) ∧
        ∀ id roll, ((∃ out fs, Gives (held.cleanse id roll reg owner) out fs) ↔
            ∀ s rule, reg.get? id = some s → s.cleanse = some rule → Number.Short roll) ∧
          ∀ out fs, Gives (held.cleanse id roll reg owner) (some out) fs →
            out.result.success = true → out.next.has id = false := by
  obtain ⟨⟨ss, hss⟩, hreg⟩ := Registry.enterAll_described hread hplain Registry.described_empty
  refine ⟨ss, _, Prod.ext hss rfl, fun held owner => ⟨?_, ?_, ?_, ?_⟩⟩
  · rw [tick_gives_iff]
    exact forall₂_congr fun e _ => ticked_iff hreg e
  · exact fun id phase ctx => ⟨spend_ok_iff hreg held id phase ctx owner,
      fun out fs ho => spend_brings hreg.mild.brings ho⟩
  · exact fun id attempts phase build initial =>
      ⟨spendMany_ok_iff hreg held id attempts phase build initial owner,
        fun out fs ho => spendMany_brings hreg.mild.brings ho⟩
  · exact fun id roll => ⟨cleanse_ok_iff hreg held id roll owner,
      fun out fs ho hs => cleanse_clears hreg ho hs⟩

def rotting (decay : Float) : Document :=
  .table [(.text "id", .text "rot"), (.text "name", .text "Rot"),
    (.text "behavior", .text "damage_over_time"),
    (.text "behaviorConfig", .table [(.text "tiers", .list [.number (.whole 1)]),
      (.text "decayPerTick", .number (.double decay))])]

def rots : Stacks := .ofList [("rot", 2)]

def decays (d : Document) : Option Bool :=
  (Status.Entry.read d).toOption.bind fun e =>
    if e.modify.isSome then none
    else ((Registry.empty.enterAll [e]).2.get? "rot").bind fun s =>
      match s.behavior with
      | some (.affliction a) => some (decide (Scalar.isFinite a.decay = true ∧ a.Told 2))
      | _ => none

theorem decays_half : decays (rotting 0.5) = some true := by
  delta decays Status.Entry.read Status.Entry.ofDocument Status.Entry.form Field.choice
    Field.spelling
  simp only [Content.hasHalf_eq]
  decide +kernel

theorem decays_infinity : decays (rotting Double.infinity) = some false := by
  delta decays Status.Entry.read Status.Entry.ofDocument Status.Entry.form Field.choice
    Field.spelling
  simp only [Content.hasHalf_eq]
  decide +kernel

theorem entry_of_decays {d : Document} {ticks : Bool} (h : decays d = some ticks) :
    ∃ e s a, Status.Entry.read d = .ok e ∧ e.modify = none ∧
      (Registry.empty.enterAll [e]).2.get? "rot" = some s ∧
      s.behavior = some (.affliction a) ∧
      decide (Scalar.isFinite a.decay = true ∧ a.Told 2) = ticks := by
  unfold decays at h
  obtain ⟨e, he, h⟩ := Option.bind_eq_some_iff.mp h
  have hread : Status.Entry.read d = .ok e := by
    cases hr : Status.Entry.read d with
    | error invalid =>
      rw [hr] at he
      cases he
    | ok e' =>
      rw [hr] at he
      cases he
      rfl
  split at h
  · cases h
  next hmodify =>
    obtain ⟨s, hs, h⟩ := Option.bind_eq_some_iff.mp h
    split at h
    next a ha => exact ⟨e, s, a, hread, by simpa using hmodify, hs, ha, Option.some.inj h⟩
    next => cases h

theorem ticks_iff_finite_rot : ∃ e, Status.Entry.read (rotting 0.5) = .ok e ∧ e.modify = none ∧
    ∃ ss reg, Registry.empty.enterAll [e] = (.ok ss, reg) ∧
      ∃ o fs, Gives (rots.tick reg (some "you")) o fs := by
  obtain ⟨e, s, a, he, hm, hs, ha, hf⟩ := entry_of_decays decays_half
  obtain ⟨ss, reg, hreg, h⟩ := ticks_iff_finite [e] (List.forall_mem_singleton.mpr ⟨_, he⟩)
    (List.forall_mem_singleton.mpr hm)
  rw [hreg] at hs
  refine ⟨e, he, hm, ss, reg, hreg, (h rots (some "you")).1.mpr ?_⟩
  have hrots : rots.entries = [("rot", 2)] := rfl
  rw [hrots, List.forall_mem_singleton]
  intro t b ht hb
  obtain rfl := Option.some.inj (hs.symm.trans ht)
  rw [ha] at hb
  cases hb
  exact of_decide_eq_true hf

/-- An infinite decay can be read, but no stack of it can tick. -/
theorem not_ticked : ¬∀ es : List Status.Entry, (∀ e ∈ es, ∃ d, Status.Entry.read d = .ok e) →
    (∀ e ∈ es, e.modify = none) → ∀ (held : Stacks) (owner : Option String),
      (∀ e ∈ held.entries, 0 < e.2) →
        ∃ o fs, Gives (held.tick (Registry.empty.enterAll es).2 owner) o fs := by
  intro hall
  obtain ⟨e, s, a, he, hm, hs, ha, hf⟩ := entry_of_decays decays_infinity
  have hread : ∀ x ∈ [e], ∃ d, Status.Entry.read d = .ok x :=
    List.forall_mem_singleton.mpr ⟨_, he⟩
  have hplain : ∀ x ∈ [e], x.modify = none := List.forall_mem_singleton.mpr hm
  obtain ⟨-, hreg⟩ := Registry.enterAll_described hread hplain Registry.described_empty
  have hticks := tick_gives_iff rots |>.mp (hall [e] hread hplain rots none (by decide))
  have hfinite := (ticked_iff hreg ("rot", 2)).mp (hticks _ List.mem_cons_self) s a hs ha
  exact of_decide_eq_false hf hfinite

end Stacks

end Duel
