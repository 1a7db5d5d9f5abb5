import Duel.Field
import Duel.Status.Behavior

namespace Duel

open Duel.Field

namespace Bonus

def ofDocument : Reader Bonus :=
  record (Bonus.mk <$> maybe "bonusDamagePerStack" whole <*> maybe "bonusBlockPerStack" whole <*>
    maybe "logTemplate" text)

end Bonus

namespace BonusPool

def title : String := "BonusPoolConfig"

def ofDocument : Reader BonusPool :=
  record (BonusPool.mk <$> maybe "attack" Bonus.ofDocument <*> maybe "defense" Bonus.ofDocument)

end BonusPool

namespace Reaction

def title : String := "PreDefenseReactionConfig"

def ofDocument : Reader (Reaction Number) :=
  record (Reaction.mk <$> optional "dieSize" 6 whole <*> required "successThreshold" whole <*>
    optional "negateOnSuccess" false truth <*> maybe "successBlock" whole <*>
    maybe "failBlock" whole <*> maybe "successLog" text <*> maybe "failureLog" text <*>
    maybe "successDamageMultiplier" real <*> maybe "failureDamageMultiplier" real)

end Reaction

namespace Affliction

def title : String := "DamageOverTimeConfig"

def rules (a : Affliction Number) : List String :=
  if a.tiers.any (· < 0) then ["damage_over_time tiers must be >= 0"] else []

def ofDocument : Reader (Affliction Number) :=
  record ((Affliction.mk <$> optional "tiers" [] (listOf whole) <*>
    optional "decayPerTick" 1 real <*> optional "promptOnDamage" false truth).obeying rules)

end Affliction

/-- Why a configuration makes no behaviour. -/
inductive Behavior.Fault
  | unknown (id : String)
  | invalid (cause : Invalid)
  deriving DecidableEq, Repr

namespace Behavior

def Fault.text : Fault → String
  | .unknown id => "unknown behavior id '" ++ id ++ "'"
  | .invalid cause => cause.title

def configs : List (String × String × Reader (Behavior Number)) :=
  [("bonus_pool", BonusPool.title, fun d => (BonusPool.ofDocument d).map bonusPool),
   ("pre_defense_reaction", Reaction.title, fun d => (Reaction.ofDocument d).map reaction),
   ("damage_over_time", Affliction.title, fun d => (Affliction.ofDocument d).map affliction),
   ("custom_script", "CustomScriptConfig", record (pure script))]

def ofConfig (id : String) (config : Document) : Except Fault (Behavior Number) :=
  match configs.lookup id with
  | none => .error (.unknown id)
  | some (title, reader) =>
    (readAs title reader (if config.isEmpty then .table [] else config)).mapError .invalid

end Behavior

end Duel
