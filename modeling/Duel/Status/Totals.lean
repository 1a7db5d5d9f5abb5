import Duel.Status.Spend

namespace Duel.Spend

/-- The summaries of several spends put together, one for each status. -/
structure Totals (R : Type) where
  damage : Int := 0
  block : Int := 0
  negates : Bool := false
  logs : List String := []
  byStatus : Ledger (Summary R) := .empty

namespace Summary

variable {R : Type}

def join (s t : Summary R) : Summary R where
  id := s.id
  spent := s.spent + t.spent
  damage := s.damage + t.damage
  block := s.block + t.block
  negates := s.negates || t.negates
  successes := s.successes + t.successes
  logs := s.logs ++ t.logs
  results := s.results ++ t.results

def enter (l : Ledger (Summary R)) (s : Summary R) : Ledger (Summary R) :=
  l.put s.id (match l.get? s.id with
    | some earlier => earlier.join s
    | none => s)

def byId (summaries : List (Summary R)) : Ledger (Summary R) := summaries.foldl enter .empty

end Summary

namespace Totals

variable {R : Type}

def ordered (l : Ledger (Summary R)) : List (String × Summary R) :=
  l.entries.mergeSort fun a b => Text.atMost a.1 b.1

/-- Summaries of one status are joined, and the statuses come in the order of their ids. -/
def ofSummaries (summaries : List (Summary R)) : Totals R :=
  let entries := ordered (Summary.byId summaries)
  let parts := entries.map Prod.snd
  { damage := total (parts.map (·.damage))
    block := total (parts.map (·.block))
    negates := parts.any (·.negates)
    logs := parts.flatMap fun s => s.logs.filter (!·.isEmpty)
    byStatus := .ofList entries }

def factor [Scalar R] (t : Totals R) : Option R :=
  Scalar.least? (t.byStatus.values.flatMap fun s => s.results.filterMap (·.factor))

end Totals

end Duel.Spend
