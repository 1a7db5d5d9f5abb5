import Duel.Attack
import Duel.Record
import Duel.View.Buff
import Duel.View.Hero
import Duel.View.Status

namespace Duel

instance Defense.Request.viewed : Viewed Defense.Request where
  view r := .record [
    ("status_id", view r.status),
    ("attempts", view r.attempts),
    ("roll", view r.roll),
    ("required", view r.required)]

instance Defense.Resolution.viewed : Viewed (Defense.Resolution Number) where
  view r := .record [
    ("roll", view r.roll),
    ("base_block", view r.block),
    ("reflect", view r.reflect),
    ("heal", view r.heal),
    ("retaliate_percent", view r.retaliate),
    ("applied_statuses", view r.applied),
    ("status_grants", view r.grants),
    ("label", view r.label),
    ("status_spends", view r.spends),
    ("logs", view r.logs)]

instance Attack.Summary.viewed : Viewed Attack.Summary where
  view s := .record [
    ("attack_damage", view s.damage),
    ("damage_dealt", view s.dealt),
    ("blocked", view s.blocked),
    ("reflected", view s.reflected),
    ("healed", view s.healed),
    ("negated", view s.negated),
    ("attacker_defeated", view s.attackerDefeated),
    ("defender_defeated", view s.defenderDefeated)]

instance Attack.Effect.viewed : Viewed Attack.Effect where
  view e := .record [
    ("side", view e.side),
    ("amount", view e.amount),
    ("kind", view e.kind.name)]

def Attack.TurnEnd.followUp (e : Attack.TurnEnd) : Option String :=
  if e.next = .ai then some "trigger_ai_turn" else none

instance Attack.TurnEnd.viewed : Viewed Attack.TurnEnd where
  view e := .record [
    ("type", view "TURN_END"),
    ("next", view e.next),
    ("delay_ms", view e.delay),
    ("pre_phase", view "turnTransition"),
    ("follow_up", view e.followUp)]

instance Attack.Resolution.viewed : Viewed Attack.Resolution where
  view r := .record [
    ("summary", view r.summary),
    ("fx", view r.effects),
    ("events", view r.turnEnd.toList),
    ("outcome", view r.outcome.name),
    ("next_side", view r.next),
    ("logs", view r.logs)]

instance Record.Damage.viewed : Viewed Record.Damage where
  view d := .record [
    ("base", view d.base),
    ("status_bonus", view d.bonus),
    ("blocked", view d.blocked),
    ("dealt", view d.dealt),
    ("reflected", view d.reflected),
    ("tick", view d.tick)]

instance Record.viewed : Viewed Record where
  view r := .record [
    ("round", view r.round),
    ("turn_id", view r.turn),
    ("attacker", view r.attacker),
    ("defender", view r.defender),
    ("ability", view r.ability),
    ("base_damage", view r.baseDamage),
    ("damage", view r.damage),
    ("attacker_hp_delta", view r.attackerChange),
    ("defender_hp_delta", view r.defenderChange),
    ("statuses_spent", view r.spent),
    ("negated", view r.negated),
    ("outcome", view r.outcome)]

end Duel
