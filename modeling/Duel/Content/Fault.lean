import Duel.Json.Reader
import Duel.Status.Entry
import Duel.Yaml.Graph

namespace Duel.Content

/-- Why a content folder cannot be loaded, or a file cannot be read or written. -/
inductive Fault
  | json (cause : Json.Fault)
  | yaml (cause : Yaml.Fault)
  | invalid (cause : Field.Invalid)
  | formula (cause : Formula.Failure)
  | behavior (cause : Behavior.Fault)
  | repeatedStatus (id file : String)
  | repeatedHero (id file : String)
  | noFile (path : String)
  /-- There is a folder instead of a file. -/
  | notFile (path : String)
  /-- There is a file instead of a folder on the way. -/
  | notFolder (path : String)
  /-- There is a file where a folder is to be made. -/
  | taken (path : String)
  /-- A name is longer than any that a folder can hold. -/
  | longName (path : String)
  /-- Too many folders would have to be made within each other. -/
  | tooDeep (path : String)
  /-- The character that ends names stands in one. -/
  | endInName (path : String)
  /-- A path, or a text for a file, has a half of a character that cannot be written. -/
  | half (text : String)
  | unknownHero (id : String)
  | unknownStatus (id : String)

def Fault.text : Fault → String
  | json _ | yaml _ => "unreadable document"
  | invalid cause => "invalid " ++ cause.title
  | formula cause => cause.text
  | behavior cause => cause.text
  | repeatedStatus id file => "Duplicate status id " ++ id ++ " in " ++ file
  | repeatedHero id file => "Duplicate hero id " ++ id ++ " in " ++ file
  | noFile path | notFile path | notFolder path | taken path | longName path
  | tooDeep path | endInName path => path
  | half text => text
  | unknownHero id | unknownStatus id => id

end Duel.Content
