import Duel.Field
import Duel.Side
import Duel.Total

namespace Duel

open Duel.Field

structure Record.Damage where
  base : Int := 0
  bonus : Int := 0
  blocked : Int := 0
  dealt : Int := 0
  reflected : Int := 0
  tick : Int := 0
  deriving DecidableEq, Repr

/-- What is kept of a turn. -/
structure Record where
  round : Int
  turn : String
  attacker : Side
  defender : Side
  ability : Option String := none
  baseDamage : Int := 0
  damage : Record.Damage := {}
  attackerChange : Int := 0
  defenderChange : Int := 0
  spent : Ledger Int := .empty
  negated : Bool := false
  outcome : String := "continue"

namespace Record

def Damage.ofDocument : Reader Damage :=
  record (Damage.mk <$> optional "base" 0 whole <*> optional "status_bonus" 0 whole <*>
    optional "blocked" 0 whole <*> optional "dealt" 0 whole <*> optional "reflected" 0 whole <*>
    optional "tick" 0 whole)

def title : String := "TurnRecord"

def ofDocument : Reader Record :=
  record ((fun (_ : String) round => Record.mk round) <$> optional "id" "" text <*>
    required "round" whole <*> required "turn_id" text <*>
    required "attacker" (choice Side.named) <*> required "defender" (choice Side.named) <*>
    maybe "ability" text <*> optional "base_damage" 0 whole <*>
    optional "damage" {} Damage.ofDocument <*> optional "attacker_hp_delta" 0 whole <*>
    optional "defender_hp_delta" 0 whole <*> optional "statuses_spent" .empty (ledgerOf whole) <*>
    optional "negated" false truth <*> optional "outcome" "continue" text)

def dealtBy (records : List Record) (side : Side) : Int :=
  total ((records.filter (·.attacker = side)).map (·.damage.dealt))

def enterSpent (totals : Ledger Int) (e : String × Int) : Ledger Int :=
  totals.put e.1 ((totals.get? e.1).getD 0 + e.2)

def spentTotals (records : List Record) : Ledger Int :=
  (records.flatMap (·.spent.entries)).foldl enterSpent .empty

def summary (records : List Record) : Except Double.Fault (List String) := do
  let you ← Number.digits (dealtBy records .you)
  let ai ← Number.digits (dealtBy records .ai)
  let spent := (spentTotals records).entries.mergeSort fun a b => Text.atMost a.1 b.1
  let spends ← spent.mapM fun (id, n) => do
    return "[Stats] spent " ++ id ++ " x" ++ (← Number.digits n)
  return ("[Stats] turns=" ++ toString records.length ++ " dmg you=" ++ you ++ " ai=" ++ ai) ::
    spends

end Record

end Duel
