namespace Duel.Formula

structure Chance where
  state : UInt64 := 0
  deriving Repr

namespace Chance

/-- The next word: the state moves on by a fixed odd step, and its bits are stirred. -/
def next (c : Chance) : UInt64 × Chance :=
  let s := c.state + 0x9e3779b97f4a7c15
  let z := (s ^^^ (s >>> 30)) * 0xbf58476d1ce4e5b9
  let z := (z ^^^ (z >>> 27)) * 0x94d049bb133111eb
  (z ^^^ (z >>> 31), ⟨s⟩)

def words : Nat → Chance → Nat × Chance
  | 0, c => (0, c)
  | n + 1, c =>
    let (high, c) := words n c
    let (low, c) := c.next
    (high * 0x10000000000000000 + low.toNat, c)

/-- A number below `n`, from one word more than `n` has. -/
def below (n : Nat) (c : Chance) : Nat × Chance :=
  let (k, c) := words (n.log2 / 64 + 2) c
  (k % n, c)

def unit (c : Chance) : Float × Chance :=
  let (w, c) := c.next
  (Float.ofNat (w >>> 11).toNat / 9007199254740992, c)

end Chance

end Duel.Formula
