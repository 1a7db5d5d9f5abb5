import Duel.Command.Arguments
import Duel.Content.Path

namespace Duel

structure Command.Simulation where
  seed : Option Int
  you : String
  ai : String
  turns : Int
  trace : Bool
  deriving Repr

inductive Command
  | statuses
  | simulate (s : Command.Simulation)
  | validate (root : Option String)
  | exportSchemas (out : String)
  | settings (reset : Bool)
  deriving Repr

namespace Command

def readSimulation (words : List String) : Option Simulation := do
  let a ← Arguments.read ["--seed", "--you", "--ai", "--max-turns"] ["--trace"] words
  a.noPlace
  let seed ← a.number "--seed"
  let turns ← a.number "--max-turns"
  return {
    seed
    you := (a.value? "--you").getD "pyromancer"
    ai := (a.value? "--ai").getD "shadow_monk"
    turns := turns.getD 60
    trace := a.hasFlag "--trace" }

def readPlace (words : List String) : Option (Option String) := do
  let a ← Arguments.read [] [] words
  return (← a.place).map Content.Path.tidy

def readWords : List String → Option Command
  | "statuses" :: words => do
    let a ← Arguments.read [] [] words
    a.noPlace
    return statuses
  | "simulate" :: words => (readSimulation words).map simulate
  | "validate" :: words => (readPlace words).map validate
  | "export-schemas" :: words =>
    (readPlace words).map fun out => exportSchemas (out.getD "docs/schemas")
  | "settings" :: words => do
    let a ← Arguments.read [] ["--reset"] words
    a.noPlace
    return settings (a.hasFlag "--reset")
  | _ => none

/-- Reads a command line. The mark after which there are no options can stand in front. -/
def read : List String → Option Command
  | "--" :: words => readWords words
  | words => readWords words

end Command

end Duel
