import Duel.Content.Load
import Duel.Status.Builtin

namespace Duel.Content

namespace Bundled

def focus : String :=
"id: focus
name: Focus
kind: positive
icon: F
activation: passive
maxStacks: 5
priority: 50
modify:
  phase: attack
  baseDamage: \"baseDamage + stacks\"
  log: \"Focus +\x7bstacks\x7d at damage \x7bbaseDamage\x7d\"
"

def icewall : String :=
"id: icewall
name: Icewall
kind: positive
icon: I
maxStacks: 3
behavior: bonus_pool
behaviorConfig:
  defense:
    bonusBlockPerStack: 2
spend:
  costStacks: 1
  allowedPhases: [defenseRoll]
"

def poison : String :=
"id: poison
name: Poison
kind: negative
icon: P
maxStacks: 3
priority: 20
behavior: damage_over_time
behaviorConfig:
  tiers: [1, 2, 3]
  decayPerTick: 1
  promptOnDamage: false
cleanse:
  threshold: 4
"

def preventHalf : String :=
"id: prevent_half
name: Prevent Half
kind: positive
icon: H
maxStacks: 2
behavior: pre_defense_reaction
behaviorConfig:
  successThreshold: 1
  successBlock: 0
  successDamageMultiplier: 0.5
  successLog: \"\x7bname\x7d -> incoming damage halved\"
spend:
  costStacks: 1
  allowedPhases: [defenseRoll]
  needsRoll: false
"

def pyromancer : String :=
"id: pyromancer
name: Pyromancer
max_hp: 30
ai_strategy: most_frequent
abilities:
  - combo: FULL_HOUSE
    damage: 8
    label: Full House
  - combo: 4OAK
    damage: 7
    apply:
      burn: 1
    label: Four of a kind + Burn
  - combo: SMALL_STRAIGHT
    damage: 6
    apply:
      burn: 1
    label: Small straight + Burn
  - combo: 3OAK
    damage: 5
    label: Three of a kind
  - combo: PAIR_PAIR
    damage: 4
    label: Two pairs
  - combo: LARGE_STRAIGHT
    damage: 12
    ultimate: true
    apply:
      burn: 2
    label: \"ULT: Inferno\"
  - combo: 5OAK
    damage: 13
    ultimate: true
    label: \"ULT: Supernova\"
defense:
  - min_roll: 5
    block: 2
  - min_roll: 3
    block: 1
"

def shadowMonk : String :=
"id: shadow_monk
name: Shadow Monk
max_hp: 30
ai_strategy: straight_hunter
abilities:
  - combo: FULL_HOUSE
    damage: 7
    apply:
      chi: 1
    label: Full House + Chi
  - combo: 4OAK
    damage: 6
    apply:
      chi: 1
    label: Four of a kind + Chi
  - combo: SMALL_STRAIGHT
    damage: 5
    apply:
      evasive: 1
    label: Small straight + Evasive
  - combo: 3OAK
    damage: 4
    label: Three of a kind
  - combo: PAIR_PAIR
    damage: 3
    apply:
      chi: 1
    label: Two pairs + Chi
  - combo: LARGE_STRAIGHT
    damage: 10
    ultimate: true
    apply:
      evasive: 1
    label: \"ULT: Palm of Night\"
  - combo: 5OAK
    damage: 11
    ultimate: true
    label: \"ULT: Silent Fist\"
defense:
  - min_roll: 5
    block: 2
  - min_roll: 3
    block: 1
"

def folder : Folder where
  label := "content"
  files := .ofList
    [("statuses/focus.yaml", focus), ("statuses/icewall.yaml", icewall),
     ("statuses/poison.yaml", poison), ("statuses/prevent_half.yaml", preventHalf),
     ("heroes/pyromancer.yaml", pyromancer), ("heroes/shadow_monk.yaml", shadowMonk)]

end Bundled

def bundled : Except Fault Content := load Bundled.folder

end Duel.Content

namespace Duel.Registry

def withContent (reg : Registry Number) : Registry Number :=
  (reg.loadPack (Content.Bundled.folder.enter "statuses")).2

def standard : Registry Number := builtin.withContent

/-- A registry to play with, which is the standard one in place of an empty one. -/
def orStandard (reg : Registry Number) : Registry Number :=
  if reg.list.isEmpty then standard else reg

end Duel.Registry
