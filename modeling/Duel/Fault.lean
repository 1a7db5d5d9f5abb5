import Duel.Field
import Duel.Formula.Evaluation

namespace Duel

/-- Why a step of the rules cannot be carried out. -/
inductive Fault
  | number (cause : Double.Fault)
  | formula (cause : Formula.Failure)
  /-- A defence that has to be made asks for a status that nobody knows. -/
  | unknownDefense (status : String)
  /-- A defence that has to be made cannot be paid for. -/
  | unpaidDefense (status : String)
  /-- A defence has to be made where nothing comes in. -/
  | needlessDefense
  | unknownCombo (name : String)
  /-- A name is that of no side. -/
  | unknownSide (name : String)
  /-- What is made on the way is no valid record. -/
  | invalid (cause : Field.Invalid)
  deriving Repr

namespace Fault

def text : Fault → String
  | number _ => "number out of range"
  | formula cause => cause.text
  | unknownDefense status => "unknown status '" ++ status ++ "' requested for defense"
  | unpaidDefense status => "defense spend of '" ++ status ++ "' could not be made"
  | needlessDefense => "required defense spend with no incoming damage"
  | unknownCombo name | unknownSide name => name
  | invalid cause => cause.title

end Fault

end Duel
