namespace Duel.Dice

/-- The generator MT19937: 624 words, and the place of the next one to be used. -/
structure Twister where
  words : Array UInt32
  place : Nat

namespace Twister

def size : Nat := 624

def seedWord (seed : UInt32) : Array UInt32 :=
  (List.range (size - 1)).foldl (fun (ws : Array UInt32) i =>
    let last := ws.getD i 0
    ws.push ((last ^^^ (last >>> 30)) * 1812433253 + UInt32.ofNat (i + 1))) #[seed]

/-- A pass over the words: each is mixed with the one before it, by its place and the number of
the step. The first word follows the last one. -/
def mix (f : (step place : Nat) → UInt32 → UInt32 → UInt32) (steps : Nat)
    (start : Array UInt32 × Nat) : Array UInt32 × Nat :=
  (List.range steps).foldl (fun (ws, i) k =>
    let last := ws.getD (i - 1) 0
    let ws := ws.set! i (f k i (ws.getD i 0) (last ^^^ (last >>> 30)))
    if i + 1 < size then (ws, i + 1) else (ws.set! 0 (ws.getD (size - 1) 0), 1)) start

def ofKey (key : Array UInt32) : Twister :=
  let length := max 1 key.size
  let first := mix (fun k _ w last =>
    (w ^^^ (last * 1664525)) + key.getD (k % length) 0 + UInt32.ofNat (k % length))
    (max size length) (seedWord 19650218, 1)
  let second := mix (fun _ i w last => (w ^^^ (last * 1566083941)) - UInt32.ofNat i)
    (size - 1) first
  { words := second.1.set! 0 0x80000000, place := size }

def wordsOf : Nat → Nat → List UInt32
  | 0, _ => []
  | fuel + 1, n => if n = 0 then [] else UInt32.ofNat n :: wordsOf fuel (n >>> 32)

def ofSeed (seed : Int) : Twister :=
  let n := seed.natAbs
  let key := wordsOf (n.log2 / 32 + 1) n
  ofKey (if key.isEmpty then #[0] else key.toArray)

def refill (words : Array UInt32) : Array UInt32 :=
  (List.range size).foldl (fun ws i =>
    let y := (ws.getD i 0 &&& 0x80000000) ||| (ws.getD ((i + 1) % size) 0 &&& 0x7fffffff)
    let odd : UInt32 := if y &&& 1 = 1 then 0x9908b0df else 0
    ws.set! i (ws.getD ((i + 397) % size) 0 ^^^ (y >>> 1) ^^^ odd)) words

def temper (y : UInt32) : UInt32 :=
  let y := y ^^^ (y >>> 11)
  let y := y ^^^ ((y <<< 7) &&& 0x9d2c5680)
  let y := y ^^^ ((y <<< 15) &&& 0xefc60000)
  y ^^^ (y >>> 18)

def next (t : Twister) : UInt32 × Twister :=
  let t := if t.place < size then t else { words := refill t.words, place := 0 }
  (temper (t.words.getD t.place 0), { t with place := t.place + 1 })

/-- A number of so many bits; of the last word the high bits count. -/
def bits : Nat → Nat → Twister → Nat × Twister
  | 0, _, t => (0, t)
  | fuel + 1, k, t =>
    let (w, t) := t.next
    if k ≤ 32 then (w.toNat >>> (32 - k), t)
    else
      let (high, t) := bits fuel (k - 32) t
      (w.toNat + high <<< 32, t)

/-- A number below `n`: numbers of as many bits as `n` are drawn until one is small enough. -/
def below (n : Nat) : Nat → Twister → Nat × Twister
  | 0, t => (0, t)
  | fuel + 1, t =>
    let k := n.log2 + 1
    let (r, t) := bits (k / 32 + 1) k t
    if r < n then (r, t) else below n fuel t

/-- How often a number is drawn before zero is taken; each draw suffices at least half the time. -/
def patience : Nat := 4096

end Twister

end Duel.Dice
