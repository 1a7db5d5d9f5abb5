namespace Duel

def total (ns : List Int) : Int := ns.foldr (· + ·) 0

theorem total_singleton (n : Int) : total [n] = n := Int.add_zero n

theorem total_append (xs ys : List Int) : total (xs ++ ys) = total xs + total ys := by
  induction xs with
  | nil => simp [total]
  | cons x xs ih =>
    change x + total (xs ++ ys) = x + total xs + total ys
    omega

theorem total_perm {xs ys : List Int} (h : xs.Perm ys) : total xs = total ys := by
  induction h with
  | nil => rfl
  | cons x _ ih => exact congrArg (x + ·) ih
  | swap x y xs => exact Int.add_left_comm y x (total xs)
  | trans _ _ ih ih' => exact ih.trans ih'

end Duel
