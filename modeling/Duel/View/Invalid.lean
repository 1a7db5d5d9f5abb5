import Duel.Field
import Duel.View.Basic

namespace Duel.Field

def Problem.word : Problem → String
  | .missing => "missing"
  | .notRecord => "model_type"
  | .notList => "list_type"
  | .notTable => "dict_type"
  | .notText => "string_type"
  | .brokenText => "string_unicode"
  | .notChoice => "literal_error"
  | .notWhole => "int_type"
  | .unreadableWhole => "int_parsing"
  | .fractional => "int_from_float"
  | .notFinite => "finite_number"
  | .outsized => "int_parsing_size"
  | .notReal => "float_type"
  | .unreadableReal => "float_parsing"
  | .notTruth => "bool_type"
  | .unreadableTruth => "bool_parsing"
  | .malformed => "json_invalid"
  | .broken _ => "value_error"

def Problem.rule? : Problem → Option String
  | .broken rule => some rule
  | _ => none

instance Place.viewed : Viewed Place where
  view
    | .name s => view s
    | .index n => view n

instance Issue.viewed : Viewed Issue where
  view i := View.slim <| .record [
    ("loc", view i.path),
    ("type", view i.problem.word),
    ("msg", view (i.problem.rule?.map ("Value error, " ++ ·)))]

instance Invalid.viewed : Viewed Invalid where
  view e := .record [("title", view e.title), ("issues", view e.issues)]

end Duel.Field
