import Duel.Field

namespace Duel.Command

structure Arguments where
  /-- Options with their values, the last one first. -/
  values : List (String × String) := []
  flags : List String := []
  places : List String := []
  deriving Repr

namespace Arguments

def addValue (name value : String) (a : Arguments) : Arguments :=
  { a with values := a.values ++ [(name, value)] }

def addFlag (name : String) (a : Arguments) : Arguments := { a with flags := name :: a.flags }

def addPlace (s : String) (a : Arguments) : Arguments := { a with places := s :: a.places }

inductive Word
  | place
  | flag (name : String)
  | value (name value : String)
  /-- The value is the next word. -/
  | name (name : String)
  /-- No more options follow. -/
  | close
  | unknown

/-- Tells what a word is, where some options take a value and others are flags. A value follows
its option, or stands in one word with it. -/
def wordOf (valued flags : List String) (word : String) : Word :=
  let name := String.ofList (word.toList.takeWhile (· != '='))
  if word == "--" then .close
  else if !word.startsWith "-" || word == "-" then .place
  else
    match word.toList.dropWhile (· != '=') with
    | [] =>
      if valued.contains name then .name name
      else if flags.contains name then .flag name
      else .unknown
    | _ :: value =>
      if valued.contains name then .value name (String.ofList value) else .unknown

def readFrom (valued flags : List String) : Option String → List String → Option Arguments
  | none, [] => some {}
  | some _, [] => none
  | some name, word :: rest => (readFrom valued flags none rest).map (addValue name word)
  | none, word :: rest =>
    match wordOf valued flags word with
    | .place => (readFrom valued flags none rest).map (addPlace word)
    | .flag name => (readFrom valued flags none rest).map (addFlag name)
    | .value name value => (readFrom valued flags none rest).map (addValue name value)
    | .name name => readFrom valued flags (some name) rest
    | .close => some { places := rest }
    | .unknown => none

def read (valued flags words : List String) : Option Arguments :=
  readFrom valued flags none words

def value? (a : Arguments) (name : String) : Option String := a.values.lookup name

def hasFlag (a : Arguments) (name : String) : Bool := a.flags.contains name

def number (a : Arguments) (name : String) : Option (Option Int) :=
  match a.value? name with
  | none => some none
  | some s => (Field.wholeOfText s).toOption.map some

/-- The only argument that is no option, if there is one; nothing if there are more. -/
def place (a : Arguments) : Option (Option String) :=
  match a.places with
  | [] => some none
  | [s] => some (some s)
  | _ => none

def noPlace (a : Arguments) : Option Unit := if a.places.isEmpty then some () else none

end Arguments

end Duel.Command
