import Duel.Status.Cleanse
import Duel.Status.Entry
import Duel.Status.Modifier
import Duel.Status.Tick
import Duel.Status.Totals
import Duel.View.Basic

namespace Duel

instance Phase.viewed : Viewed Phase := ⟨fun p => view p.name⟩

instance Bonus.viewed : Viewed Bonus where
  view b := .record [
    ("bonusDamagePerStack", view b.damage),
    ("bonusBlockPerStack", view b.block),
    ("logTemplate", view b.log)]

instance Behavior.viewed : Viewed (Behavior Number) where
  view
    | .bonusPool p => .record [("attack", view p.attack), ("defense", view p.defense)]
    | .reaction r => .record [
        ("dieSize", view r.dieSize),
        ("successThreshold", view r.threshold),
        ("negateOnSuccess", view r.negates),
        ("successBlock", view r.successBlock),
        ("failBlock", view r.failureBlock),
        ("successLog", view r.successLog),
        ("failureLog", view r.failureLog),
        ("successDamageMultiplier", view r.successFactor),
        ("failureDamageMultiplier", view r.failureFactor)]
    | .affliction a => .record [
        ("tiers", view a.tiers),
        ("decayPerTick", view a.decay),
        ("promptOnDamage", view a.promptOnDamage)]
    | .script => .record []

instance Spend.Rule.viewed : Viewed (Spend.Rule Number) where
  view r := .record [
    ("costStacks", view r.cost),
    ("allowedPhases", view r.phases),
    ("needsRoll", view r.needsRoll)]

instance Formula.Source.viewed : Viewed Formula.Source where
  view
    | .text s => view s
    | .number n => view n

instance Modifier.Formulas.viewed : Viewed Modifier.Formulas where
  view m := .record [
    ("phase", view (m.stance.map (·.name))),
    ("baseDamage", view m.damage),
    ("baseBlock", view m.block),
    ("log", view m.log)]

instance Cleanse.Rule.viewed : Viewed Cleanse.Rule where
  view c := .record [
    ("threshold", view c.threshold),
    ("animationDurationMs", view c.animation)]

instance Status.Entry.viewed : Viewed Status.Entry where
  view e := .record [
    ("id", view e.id),
    ("name", view e.name),
    ("kind", view e.kind.name),
    ("icon", view e.icon),
    ("activation", view e.activation.name),
    ("behavior", view e.behavior),
    ("behaviorConfig", view e.config),
    ("spend", view e.spend),
    ("modify", view e.modify),
    ("cleanse", view e.cleanse),
    ("maxStacks", view e.maxStacks),
    ("priority", view e.priority)]

def View.ofHook {α : Type} (hook : Option α) : View := view (hook.map fun _ => true)

def Spend.Rule.known (r : Spend.Rule Number) : View :=
  .record [
    ("allowed_phases", view r.phases),
    ("cost_stacks", view r.cost),
    ("needs_roll", view r.needsRoll),
    ("apply", .ofHook r.apply)]

def Cleanse.Rule.known (c : Cleanse.Rule) : View :=
  .record [
    ("threshold", view c.threshold),
    ("resolve", .ofHook c.resolve),
    ("animation_duration_ms", view c.animation)]

instance Status.viewed : Viewed (Status Number) where
  view s := .record [
    ("id", view s.id),
    ("name", view s.name),
    ("kind", view s.kind.name),
    ("icon", view s.icon),
    ("activation", view s.activation.name),
    ("behavior_id", view (s.behavior.map (·.id))),
    ("behavior_config", match s.behavior with
      | some b => view b
      | none => view s.notes),
    ("spend", view (s.spend.map (·.known))),
    ("on_tick", .ofHook s.onTick),
    ("on_modify", .ofHook s.onModify),
    ("cleanse", view (s.cleanse.map (·.known))),
    ("max_stacks", view s.maxStacks),
    ("priority", view s.priority)]

instance Event.viewed : Viewed Event where
  view e := .record [
    ("type", view e.kind.name),
    ("status_id", view e.status),
    ("stacks_before", view e.before),
    ("stacks_after", view e.after),
    ("owner", view e.owner),
    ("phase", view e.phase),
    ("source", view e.source),
    ("note", view e.note),
    ("delta", view e.delta),
    ("line", view e.line.toOption)]

instance Spend.Result.viewed : Viewed (Spend.Result Number) where
  view r := .record [
    ("bonus_damage", view r.damage),
    ("bonus_block", view r.block),
    ("negate_incoming", view r.negates),
    ("success", view r.success),
    ("damage_multiplier", view r.factor),
    ("log", view r.log)]

instance Spend.Summary.viewed : Viewed (Spend.Summary Number) where
  view s := .record [
    ("id", view s.id),
    ("stacks_spent", view s.spent),
    ("bonus_damage", view s.damage),
    ("bonus_block", view s.block),
    ("negate_incoming", view s.negates),
    ("success_count", view s.successes),
    ("logs", view s.logs),
    ("results", view s.results)]

instance Spend.Totals.viewed : Viewed (Spend.Totals Number) where
  view t := .record [
    ("bonus_damage", view t.damage),
    ("bonus_block", view t.block),
    ("negate_incoming", view t.negates),
    ("logs", view t.logs),
    ("by_status", view t.byStatus)]

instance Spend.Outcome.viewed : Viewed (Spend.Outcome Number) where
  view o := .record [("next", view o.next), ("spend", view o.result)]

instance Spend.ManyOutcome.viewed : Viewed (Spend.ManyOutcome Number) where
  view o := .record [
    ("next", view o.next),
    ("spends", view o.results),
    ("total_cost", view o.cost),
    ("summary", view o.summary)]

instance Tick.Result.viewed : Viewed Tick.Result where
  view r := .record [
    ("next_stacks", view r.next),
    ("damage", view r.damage),
    ("log", view r.log),
    ("prompt", view r.prompt)]

instance Tick.Prompt.viewed : Viewed Tick.Prompt where
  view p := .record [("id", view p.id), ("stacks", view p.count)]

instance Tick.Outcome.viewed : Viewed Tick.Outcome where
  view o := .record [
    ("next", view o.next),
    ("total_damage", view o.damage),
    ("logs", view o.logs),
    ("prompts", view o.prompts)]

instance Modifier.Context.viewed : Viewed Modifier.Context where
  view c := .record [
    ("phase", view c.stance.name),
    ("attacker_side", view c.attacker),
    ("defender_side", view c.defender),
    ("base_damage", view c.damage),
    ("base_block", view c.block)]

instance Modifier.Outcome.viewed : Viewed Modifier.Outcome where
  view o := .record [("ctx", view o.context), ("logs", view o.logs)]

instance Cleanse.Result.viewed : Viewed Cleanse.Result where
  view r := .record [
    ("success", view r.success),
    ("next_stacks", view r.next),
    ("log", view r.log)]

instance Cleanse.Outcome.viewed : Viewed Cleanse.Outcome where
  view o := .record [("next", view o.next), ("result", view o.result)]

end Duel
