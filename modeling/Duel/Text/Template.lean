namespace Duel.Text

/-- Puts `new` in the place of every `old`, from left to right; `skip` characters are behind an
`old` that has been replaced. -/
def substitute (old new : List Char) : Nat → List Char → List Char
  | _, [] => []
  | skip + 1, _ :: r => substitute old new skip r
  | 0, c :: r =>
    if old.isPrefixOf (c :: r) then new ++ substitute old new (old.length - 1) r
    else c :: substitute old new 0 r

/-- Fills the placeholders of a template, one name after the other; unknown ones stay. -/
def fill (template : String) (names : List (String × String)) : String :=
  String.ofList <| names.foldl
    (fun s (name, value) => substitute (['\x7b'] ++ name.toList ++ ['\x7d']) value.toList 0 s)
    template.toList

end Duel.Text
