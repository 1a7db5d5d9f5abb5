import Duel.Double

namespace Duel.Formula

/-- What can be wrong with the spelling of a formula. -/
inductive Complaint
  | unexpectedText
  | unexpectedOpening
  | unexpectedClosing
  | unexpectedComma
  | unexpectedConstant
  | unexpectedFunction
  | unexpectedVariable
  | unknownCharacter
  | badEscape (c : Char)
  | unmatched
  | parity
  deriving DecidableEq, Repr

namespace Complaint

def text : Complaint → String
  | unexpectedText => "unexpected string"
  | unexpectedOpening => "unexpected \"(\""
  | unexpectedClosing => "unexpected \")\""
  | unexpectedComma => "unexpected \",\""
  | unexpectedConstant => "unexpected constant"
  | unexpectedFunction => "unexpected function"
  | unexpectedVariable => "unexpected variable"
  | unknownCharacter => "unknown character"
  | badEscape c => "Illegal escape sequence: '\\" ++ String.singleton c ++ "'"
  | unmatched => "unmatched \"()\""
  | parity => "parity"

end Complaint

/-- Why a formula has no value. -/
inductive Failure
  | misspelt (column : Nat) (complaint : Complaint) (source : String)
  | undefined (name : String)
  | notFunction (text : String)
  /-- More than one value is left at the end. -/
  | leftover
  /-- The kind of a value does not fit the operation. -/
  | mismatch (said : String)
  /-- An operand, or a character of the source, is asked for where there is none. -/
  | exhausted
  | badValue (said : String)
  | zeroDivisor
  | overflow
  /-- A text or list that is too long to be made. -/
  | tooLong
  /-- Lists inside of lists without an end. -/
  | tooDeep
  /-- A table has no such entry. -/
  | noEntry (name : String)
  /-- The operator has a name but no meaning between two operands. -/
  | noOperator
  deriving DecidableEq, Repr

namespace Failure

def text : Failure → String
  | misspelt column complaint source =>
    "parse error [column " ++ toString column ++ "]: " ++ complaint.text ++
      ", expression: " ++ source
  | undefined name => "undefined variable: " ++ name
  | notFunction t => t ++ " is not a function"
  | leftover => "invalid Expression (parity)"
  | mismatch said => said
  | exhausted => "string index out of range"
  | badValue said => said
  | zeroDivisor => "division by zero"
  | overflow => "number out of range"
  | tooLong => ""
  | tooDeep => "maximum recursion depth exceeded in comparison"
  | noEntry name => "'" ++ name ++ "'"
  | noOperator => "not"

def ofNumber : Double.Fault → Failure
  | .notANumber => badValue "cannot convert float NaN to integer"
  | .infinite => overflow
  | .outsized => overflow
  | .lengthy => badValue "Exceeds the limit (4300 digits) for integer string conversion"

end Failure

abbrev Outcome (α : Type) := Except Failure α

end Duel.Formula
