import Duel.Hero
import Duel.View.Basic

namespace Duel

instance Ability.viewed : Viewed Ability where
  view a := .record [
    ("combo", view a.combo.name),
    ("damage", view a.damage),
    ("ultimate", view a.ultimate),
    ("apply", view a.grants),
    ("label", view a.label)]

instance Defense.Tier.viewed : Viewed Defense.Tier where
  view t := .record [
    ("min_roll", view t.minRoll),
    ("block", view t.block),
    ("reflect", view t.reflect),
    ("heal", view t.heal)]

instance Defense.Values.viewed : Viewed Defense.Values where
  view v := .record [
    ("roll", view v.roll),
    ("block", view v.block),
    ("reflect", view v.reflect),
    ("heal", view v.heal)]

instance Hero.viewed : Viewed Hero where
  view h := .record [
    ("id", view h.id),
    ("name", view h.name),
    ("max_hp", view h.maxHp),
    ("abilities", view h.abilities),
    ("defense", view h.defense),
    ("ai_strategy", view h.strategy.name)]

instance Player.viewed : Viewed Player where
  view p := .record [
    ("side", view p.side),
    ("hero", view p.hero),
    ("hp", view p.hp),
    ("statuses", view p.statuses)]

def Player.glance (p : Player) : View :=
  .record [
    ("side", view p.side),
    ("hero", view p.hero.id),
    ("hp", view p.hp),
    ("statuses", view p.statuses),
    ("defeated", view p.defeated)]

end Duel
