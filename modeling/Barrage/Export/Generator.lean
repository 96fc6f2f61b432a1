/-!
# The placement generator

A linear congruential generator on 64 bit words.  The same seed gives the same
numbers.
-/

namespace Barrage

/-- A pseudorandom generator. -/
structure Generator where
  state : UInt64
deriving Repr, DecidableEq

namespace Generator

/-- The generator one step on. -/
def step (g : Generator) : Generator := ⟨g.state * 6364136223846793005 + 1442695040888963407⟩

/-- The next number, the upper 31 bits of the next state. -/
def next (g : Generator) : Nat × Generator :=
  let g := g.step
  (g.state.toNat >>> 33, g)

/-- The next number from `lo` to `hi`.  A range of at most one number gives `lo`
and draws nothing. -/
def between (lo hi : Int) (g : Generator) : Int × Generator :=
  if hi ≤ lo then
    (lo, g)
  else
    let (n, g) := g.next
    (lo + (n : Int) % (hi - lo + 1), g)

/-- The next `n` numbers from `lo` to `hi`. -/
def betweens (lo hi : Int) : Nat → Generator → List Int × Generator
  | 0, g => ([], g)
  | n + 1, g =>
    let (k, g) := g.between lo hi
    let (ks, g) := betweens lo hi n g
    (k :: ks, g)

end Generator

end Barrage
