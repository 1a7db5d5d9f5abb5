import Duel.Proofs.Defense
import Duel.Proofs.Match.Board
import Duel.Proofs.Work

namespace Duel.Match

open Board (Leads Move)
open Stacks (Changes)

variable {R G α : Type} {m m' : Match R G}

theorem ofExcept_ok {x : Except Fault α} {a : α} (h : ofExcept x m = .ok a m') :
    x = .ok a ∧ m = m' := by
  cases x with
  | ok b =>
    obtain ⟨rfl, rfl⟩ := pure_ok h
    exact ⟨rfl, rfl⟩
  | error e => cases h

theorem tell_ok {x : Traced α} {a : α} (h : tell x m = .ok a m') :
    x.value = a ∧ m' = { m with history := m.history ++ x.events } := by
  cases h
  exact ⟨rfl, rfl⟩

theorem work_ok {x : Stacks.Work α} {a : α} (h : work x m = .ok a m') :
    ∃ es, Gives x a es ∧ m' = { m with history := m.history ++ es } := by
  obtain ⟨v, _, ht, h⟩ := bind_ok h
  obtain ⟨hv, rfl⟩ := tell_ok ht
  obtain ⟨rfl, rfl⟩ := ofExcept_ok h
  exact ⟨_, .of_value hv, rfl⟩

theorem digits_ok {n : Int} {s : String} (h : digits n m = .ok s m') : m = m' :=
  (ofExcept_ok h).2

theorem play_ok {x : Defense.Play α} {a : α} (h : play x m = .ok a m') :
    ∃ gs es, Defense.Plays x m.formulas a gs es ∧
      m' = { m with history := m.history ++ es, formulas := gs } := by
  obtain ⟨_, _, hg, h⟩ := bind_ok h
  obtain ⟨rfl, rfl⟩ := get_ok hg
  obtain ⟨⟨v, gs⟩, _, ht, h⟩ := bind_ok h
  obtain ⟨hv, rfl⟩ := tell_ok ht
  obtain ⟨_, _, hm, h⟩ := bind_ok h
  obtain rfl := modify_ok hm
  obtain ⟨rfl, rfl⟩ := ofExcept_ok h
  refine ⟨gs, _, ?_, rfl⟩
  rw [Defense.Plays, ← hv]

theorem play_of_plays {x : Defense.Play α} {a : α} {gs : Formula.Cache} {es : List Event}
    (h : Defense.Plays x m.formulas a gs es) :
    play x m = .ok a { m with history := m.history ++ es, formulas := gs } := by
  have ht : tell (x.run.run m.formulas) m =
      .ok (Except.ok a, gs) { m with history := m.history ++ es } := by
    rw [show x.run.run m.formulas = ⟨(.ok a, gs), es⟩ from h]
    rfl
  exact (get_bind _ m).trans ((bind_of_ok ht _).trans rfl)

theorem atDesk_board {x : Cue.Desk.Work R (Stage R) Unit} {a : Unit}
    (h : atDesk x m = .ok a m') : m'.board = m.board := by
  unfold atDesk at h
  split at h <;> cases h
  rfl

theorem rollDie_board [Dice.Source G] {n : Int} (h : rollDie m = .ok n m') :
    m'.board = m.board := by
  cases h
  rfl

theorem keep_board {r : Record} {a : Unit} (h : keep r m = .ok a m') : m'.board = m.board := by
  obtain rfl := modify_ok h
  rfl

theorem keepUpkeep_board {side : Side} {outcome : Attack.Outcome} {a : Unit}
    (h : keepUpkeep side outcome m = .ok a m') : m'.board = m.board := by
  obtain ⟨_, _, hg, h⟩ := bind_ok h
  obtain ⟨rfl, rfl⟩ := get_ok hg
  exact keep_board h

theorem setStatuses_ok {side : Side} {held : Stacks} {a : Unit}
    (h : setStatuses side held m = .ok a m') :
    m' = { m with players := m.players.set side { m.player side with statuses := held } } :=
  modify_ok h

theorem setPlayer_ok {side : Side} {p : Player} {a : Unit} (h : setPlayer side p m = .ok a m') :
    m' = { m with players := m.players.set side p } :=
  modify_ok h

theorem useBuff_board {moment : Buff.Moment} {b : Buff} {line : String}
    (h : useBuff moment b m = .ok line m') : m'.board = m.board.use b := by
  obtain ⟨_, _, hg, h⟩ := bind_ok h
  obtain ⟨rfl, rfl⟩ := get_ok hg
  obtain ⟨_, _, ht, h⟩ := bind_ok h
  obtain ⟨rfl, rfl⟩ := tell_ok ht
  obtain ⟨_, _, hs, h⟩ := bind_ok h
  obtain rfl := setStatuses_ok hs
  obtain ⟨-, rfl⟩ := pure_ok h
  rfl

theorem useBuffs_board {moment : Buff.Moment} {buffs : List Buff} {lines : List String}
    (h : buffs.mapM (useBuff moment) m = .ok lines m') :
    m'.board = buffs.foldl Board.use m.board := by
  induction buffs generalizing m lines with
  | nil =>
    obtain ⟨-, rfl⟩ := pure_ok h
    rfl
  | cons b buffs ih =>
    rw [List.mapM_cons] at h
    obtain ⟨_, _, hb, h⟩ := bind_ok h
    obtain ⟨_, _, hr, h⟩ := bind_ok h
    obtain ⟨-, rfl⟩ := pure_ok h
    rw [ih hr, useBuff_board hb]
    rfl

theorem trigger_board {moment : Buff.Moment} {owner : Option Side} {logs : List String}
    (h : trigger moment owner m = .ok logs m') :
    m'.board = m.board.triggered (m.board.now moment owner) := by
  obtain ⟨_, _, hg, h⟩ := bind_ok h
  obtain ⟨rfl, rfl⟩ := get_ok hg
  obtain ⟨_, u, hu, h⟩ := bind_ok h
  obtain ⟨_, _, hm, h⟩ := bind_ok h
  obtain rfl := modify_ok hm
  obtain ⟨-, rfl⟩ := pure_ok h
  change u.board.withBuffs (Buff.Partition.ofTrigger m.buffs _).pending = _
  rw [useBuffs_board hu]
  rfl

theorem forIn_leads {xs : List α} {f : α → PUnit → Step R G (ForInStep PUnit)} {a b : PUnit}
    (hf : ∀ x a m r m', f x a m = .ok r m' → Leads m.board [] m'.board)
    (h : forIn xs a f m = .ok b m') : Leads m.board [] m'.board := by
  induction xs generalizing m a with
  | nil =>
    obtain ⟨-, rfl⟩ := pure_ok h
    exact .rest _
  | cons x xs ih =>
    rw [List.forIn_cons] at h
    obtain ⟨r, u, hx, h⟩ := bind_ok h
    cases r with
    | done =>
      obtain ⟨-, rfl⟩ := pure_ok h
      exact hf x a m _ _ hx
    | yield => exact (hf x a m _ u hx).trans (ih h)

theorem grant_leads {side : Side} {id : String} {n : Int} {ability : Combo} {a : Unit}
    (h : grant side id n ability m = .ok a m') : Leads m.board [] m'.board := by
  obtain ⟨_, _, hg, h⟩ := bind_ok h
  obtain ⟨rfl, rfl⟩ := get_ok hg
  obtain ⟨_, _, ht, h⟩ := bind_ok h
  obtain ⟨rfl, rfl⟩ := tell_ok ht
  obtain rfl := setStatuses_ok h
  exact .single (.held m.board side (.of_add _ id n rfl))

theorem grantAll_leads {side : Side} {ability : Ability} {a : Unit}
    (h : grantAll side ability m = .ok a m') : Leads m.board [] m'.board := by
  obtain ⟨_, _, hf, h⟩ := bind_ok h
  obtain ⟨-, rfl⟩ := pure_ok h
  refine forIn_leads (fun ⟨id, n⟩ _ m r m' hx => ?_) hf
  obtain ⟨_, _, hg, hx⟩ := bind_ok hx
  obtain ⟨rfl, rfl⟩ := get_ok hg
  cases hs : m.registry.get? id with
  | none =>
    simp only [hs] at hx
    obtain ⟨-, rfl⟩ := pure_ok hx
    exact .rest _
  | some status =>
    simp only [hs] at hx
    obtain ⟨_, _, ht, hx⟩ := bind_ok hx
    obtain ⟨-, rfl⟩ := pure_ok hx
    exact grant_leads ht

theorem knockOut_leads {down : Side} {a : Unit} (h : knockOut down m = .ok a m') :
    Leads m.board [.knockout down] m'.board := by
  obtain rfl := modify_ok h
  exact .single (.knockout m.board down)

variable [Scalar R]

theorem announce_board {key : String} {cue : Cue R} {a : Unit}
    (h : announce key cue m = .ok a m') : m'.board = m.board := by
  obtain ⟨_, _, hg, h⟩ := bind_ok h
  obtain ⟨rfl, rfl⟩ := get_ok hg
  obtain ⟨_, _, hl, h⟩ := bind_ok h
  obtain ⟨-, rfl⟩ := ofExcept_ok hl
  exact atDesk_board h

theorem announceTick_leads {side : Side} {tick : Tick.Outcome} {a : Unit}
    (h : announceTick side tick m = .ok a m') : Leads m.board [] m'.board := by
  obtain ⟨_, u, hl, h⟩ := bind_ok h
  obtain ⟨_, _, hp, h⟩ := bind_ok h
  obtain ⟨-, rfl⟩ := pure_ok h
  refine (forIn_leads (fun _ _ _ _ _ hx => ?_) hl).trans
    (forIn_leads (fun _ _ _ _ _ hx => ?_) hp)
  all_goals
    obtain ⟨_, _, ha, hx⟩ := bind_ok hx
    obtain ⟨-, rfl⟩ := pure_ok hx
    exact .of_eq (announce_board ha)

theorem takeTick_leads {side : Side} {tick : Tick.Outcome}
    (h : takeTick side m = .ok tick m') : Leads m.board [] m'.board := by
  obtain ⟨_, _, hg, h⟩ := bind_ok h
  obtain ⟨rfl, rfl⟩ := get_ok hg
  obtain ⟨o, _, ht, h⟩ := bind_ok h
  obtain ⟨es, hgives, rfl⟩ := work_ok ht
  obtain ⟨_, _, hs, h⟩ := bind_ok h
  obtain rfl := setPlayer_ok hs
  obtain ⟨_, _, hm, h⟩ := bind_ok h
  obtain rfl := modify_ok hm
  obtain ⟨-, rfl⟩ := pure_ok h
  have hl := (Leads.single (.held m.board side (Stacks.tick_changes hgives))).trans
    (Leads.single (.life _ side (max 0 ((m.player side).hp - o.damage))))
  rw [Board.living_holding] at hl
  exact hl

/-- Work that only tells of changes to a stack map, which it passes on. -/
def Tells (reg : Registry R) (owner : String) (held : Stacks) (m : Match R G) (next : Stacks)
    (m' : Match R G) : Prop :=
  ∃ es, m' = { m with history := m.history ++ es } ∧ Changes reg owner held es next

omit [Scalar R] in
theorem foldlM_tells {β γ : Type} {reg : Registry R} {owner : String}
    {f : Stacks × β → γ → Step R G (Stacks × β)}
    (hf : ∀ p e m q m', f p e m = .ok q m' → Tells reg owner p.1 m q.1 m')
    {entries : List γ} {p q : Stacks × β} (h : entries.foldlM f p m = .ok q m') :
    Tells reg owner p.1 m q.1 m' := by
  induction entries generalizing p m with
  | nil =>
    obtain ⟨rfl, rfl⟩ := pure_ok h
    exact ⟨[], by simp, .none _⟩
  | cons e entries ih =>
    rw [List.foldlM_cons] at h
    obtain ⟨mid, u, he, h⟩ := bind_ok h
    obtain ⟨es, rfl, hes⟩ := hf p e m mid u he
    obtain ⟨fs, rfl, hfs⟩ := ih h
    exact ⟨es ++ fs, by simp, hes.trans hfs⟩

theorem spendAll_tells {side : Side} {damage : Int} {spends : Ledger Int} {held : Stacks}
    {out : Stacks × List (Spend.Summary R)} (h : spendAll side damage spends held m = .ok out m') :
    Tells m.registry side.name held m out.1 m' := by
  obtain ⟨_, _, hg, h⟩ := bind_ok h
  obtain ⟨rfl, rfl⟩ := get_ok hg
  refine foldlM_tells (fun p e u q u' hp => ?_) h
  obtain ⟨v, _, ht, hp⟩ := bind_ok hp
  obtain ⟨es, hgives, rfl⟩ := work_ok ht
  have hs := @Stacks.spendMany_tries R m.registry side _ p.1 e.1 e.2 .attackRoll
    (fun _ ctx => ctx) (some { phase := .attackRoll, damage := some damage })
  cases v with
  | none =>
    obtain ⟨rfl, rfl⟩ := pure_ok hp
    exact ⟨es, rfl, hs.silent hgives ▸ .none _⟩
  | some out =>
    obtain ⟨rfl, rfl⟩ := pure_ok hp
    exact ⟨es, rfl, hs.changes hgives⟩

theorem prepare_leads {side : Side} {ability : Ability} {orders : Orders}
    {out : Int × List (Spend.Summary R)} (h : prepare side ability orders m = .ok out m') :
    Leads m.board [] m'.board := by
  obtain ⟨_, _, hg, h⟩ := bind_ok h
  obtain ⟨rfl, rfl⟩ := get_ok hg
  obtain ⟨_, _, hp, h⟩ := bind_ok h
  obtain ⟨gs, es, hr, rfl⟩ := play_ok hp
  obtain rfl := Defense.plays_reckon hr
  obtain ⟨⟨held, spends⟩, _, hs, h⟩ := bind_ok h
  obtain ⟨es, rfl, hes⟩ := spendAll_tells hs
  obtain ⟨_, _, ht, h⟩ := bind_ok h
  obtain rfl := setStatuses_ok ht
  obtain ⟨_, _, hd, h⟩ := bind_ok h
  obtain rfl := digits_ok hd
  obtain ⟨_, u, ha, h⟩ := bind_ok h
  obtain ⟨-, rfl⟩ := pure_ok h
  rw [announce_board ha]
  have hl := Leads.single (.held m.board side hes)
  simpa [Board.holding, board] using! hl

end Duel.Match
