import Duel.Content.Load
import Duel.Buff.Basic
import Duel.Cue.Basic
import Duel.Json.Writer

namespace Duel.Content

structure Schema where
  /-- The name of its file. -/
  file : String
  title : String
  /-- The fields, and whether each has to be there. -/
  fields : List (String × Bool)

namespace Schema

def all : List Schema :=
  [⟨"StatusDefinition.schema.json", Status.Entry.title, Status.Entry.form.names⟩,
   ⟨"Hero.schema.json", Hero.title, Hero.form.names⟩,
   ⟨"DefenseStatusGrant.schema.json", Grant.title, Grant.form.names⟩,
   ⟨"PendingDefenseBuff.schema.json", Buff.title, Buff.form.names⟩,
   ⟨"Cue.schema.json", Cue.formTitle, Cue.form.names⟩]

def sorted (names : List String) : List String := names.mergeSort fun a b => decide (a ≤ b)

def properties (s : Schema) : List String := sorted (s.fields.map Prod.fst)

def required (s : Schema) : List String :=
  sorted ((s.fields.filter Prod.snd).map Prod.fst)

instance viewed : Viewed Schema where
  view s := .record [
    ("title", view s.title),
    ("type", view "object"),
    ("properties", .table (s.properties.map fun name => (name, .record []))),
    ("required", view s.required)]

end Schema

end Duel.Content
