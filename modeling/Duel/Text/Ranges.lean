namespace Duel.Text

def inRanges (ranges : Array (Nat × Nat)) (c : Char) : Bool :=
  let rec search : Nat → Nat → Nat → Bool
    | 0, _, _ => false
    | fuel + 1, lo, hi =>
      if hi ≤ lo then false
      else
        let mid := (lo + hi) / 2
        match ranges[mid]? with
        | none => false
        | some (first, last) =>
          if c.toNat < first then search fuel lo mid
          else if last < c.toNat then search fuel (mid + 1) hi
          else true
  search (ranges.size + 1) 0 ranges.size

end Duel.Text
