import Duel.Match.Named
import Duel.View.Attack

namespace Duel

instance Cue.viewed : Viewed (Cue Number) where
  view c := .record [
    ("kind", view c.kind.name),
    ("title", view c.title),
    ("subtitle", view c.subtitle),
    ("icon", view c.icon),
    ("banner", view c.banner),
    ("duration_ms", view c.duration),
    ("side", view c.side),
    ("priority", view (c.priority.map (·.name))),
    ("merge_key", view c.mergeKey),
    ("merge_window_ms", view c.mergeWindow),
    ("allow_during_transition", view c.inTransition)]

instance Cue.Queued.viewed : Viewed (Cue.Queued Number) where
  view c := (view c.toCue).extend [
    ("sequence", view c.number),
    ("repeat", view c.repeats),
    ("queued_at", view c.queuedAt),
    ("last_merged_at", view c.mergedAt)]

instance Cue.Active.viewed : Viewed (Cue.Active Number) where
  view c := (view { c.toCue with duration := some c.length }).extend [
    ("id", view c.id),
    ("repeat", view c.repeats),
    ("started_at", view c.startedAt),
    ("ends_at", view c.endsAt),
    ("last_merged_at", view c.mergedAt)]

namespace Match

variable {G : Type}

def promptView (m : Match Number G) : View :=
  view [[view Side.you, view m.prompts.you], [view Side.ai, view m.prompts.ai]]

def waitingView (c : Cue.Queued Number) : List View :=
  [view c.title, view (c.priority.map (·.name)), view c.repeats]

def glance (m : Match Number G) (active : String) : View :=
  .record [
    ("round", view m.round),
    ("turn_id", view m.turn),
    ("active_side", view active),
    ("winner", view m.winner),
    ("in_transition", view m.isPaused),
    ("players", view [m.players.you.glance, m.players.ai.glance]),
    ("pending_buffs", view (m.buffs.map fun b => (view b).slim)),
    ("prompts", m.promptView),
    ("cue", view (m.desk.active.map (·.title))),
    ("queued", view (m.desk.queue.pending.map waitingView)),
    ("now", view m.desk.clock.now)]

def Named.glance (m : Named Number G) : View := m.core.glance m.active

end Match

end Duel
