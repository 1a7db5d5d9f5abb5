namespace Duel

/-- The two sides of a duel. -/
inductive Side
  | you
  | ai
  deriving DecidableEq, Repr, Inhabited

namespace Side

def other : Side → Side
  | you => ai
  | ai => you

def opponentOf : Option Side → Side
  | some s => s.other
  | none => you

def name : Side → String
  | you => "you"
  | ai => "ai"

def named : List (String × Side) := [you, ai].map fun s => (s.name, s)

@[simp] theorem other_other (s : Side) : s.other.other = s := by cases s <;> rfl

end Side

end Duel
