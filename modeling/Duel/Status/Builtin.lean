import Duel.Status.Draft

namespace Duel.Status.Builtin

def chiResult (ctx : Spend.Context) : Spend.Result Number :=
  if ctx.phase = .attackRoll then { damage := some 1, log := "Chi -> +1 damage" }
  else
    let block : Int := if 5 ≤ ctx.roll.getD 0 then 2 else 1
    { block, log := "Chi -> +" ++ toString block ++ " block" }

def chi : Status Number where
  id := "chi"
  name := "Chi"
  icon := "C"
  maxStacks := some 6
  spend := some {
    phases := [.attackRoll, .defenseRoll], apply := some fun ctx => .ok (chiResult ctx) }

def evasive : Status Number where
  id := "evasive"
  name := "Evasive"
  icon := "E"
  maxStacks := some 3
  behavior := some <| .reaction {
    threshold := 5
    negates := true
    successLog := "\x7bname\x7d success (roll \x7broll\x7d) -> attack dodged"
    failureLog := "\x7bname\x7d failed (roll \x7broll\x7d)" }
  spend := some { phases := [.defenseRoll], needsRoll := true }

def burn : Status Number where
  id := "burn"
  name := "Burn"
  kind := .negative
  icon := "B"
  maxStacks := some 3
  priority := 10
  behavior := some (.affliction { tiers := [2, 3, 4], decay := 1 })
  cleanse := some { threshold := 5 }

def all : List (Status Number) := [chi, evasive, burn]

end Duel.Status.Builtin

namespace Duel.Registry

def defineAll (reg : Registry Number) (statuses : List (Status Number)) : Registry Number :=
  statuses.foldl define reg

def builtin : Registry Number := empty.defineAll Status.Builtin.all

end Duel.Registry
