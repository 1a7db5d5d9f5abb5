import Duel.Buff.Fate
import Duel.View.Basic

namespace Duel

instance Expiry.viewed : Viewed Expiry where
  view e := .record [("type", view e.kind.name), ("turns", view e.turns)]

instance CarryOver.viewed : Viewed CarryOver where
  view c := .record [("owner", view c.owner), ("opponent", view c.opponent)]

instance Buff.Source.viewed : Viewed Buff.Source where
  view s := .record [("rule_id", view s.rule), ("effect_id", view s.effect)]

instance Buff.Birth.viewed : Viewed Buff.Birth where
  view b := .record [("round", view b.round), ("turn_id", view b.turn)]

instance Grant.viewed : Viewed Grant where
  view g := .record [
    ("status", view g.status),
    ("target", view g.target.name),
    ("stacks", view g.count),
    ("usable_phase", view g.usable.name),
    ("stack_cap", view g.stackCap),
    ("expires", view g.expires),
    ("cleansable", view g.cleansable),
    ("carry_over_on_ko", view g.carryOver),
    ("source", view g.source)]

instance Buff.viewed : Viewed Buff where
  view b := .record [
    ("id", view b.id),
    ("owner", view b.owner),
    ("kind", view "status"),
    ("status_id", view b.status),
    ("stacks", view b.count),
    ("usable_phase", view b.usable.name),
    ("stack_cap", view b.stackCap),
    ("expires", view b.expires),
    ("cleansable", view b.cleansable),
    ("carry_over_on_ko", view b.carryOver),
    ("turns_remaining", view b.turnsLeft),
    ("created_at", view b.made),
    ("source", view b.source)]

end Duel
