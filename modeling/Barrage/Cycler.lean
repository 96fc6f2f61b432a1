import Barrage.Error

/-!
# Cyclers

A cycler hands out the numbers of a range one after the other and starts again
at the first after the last.
-/

namespace Barrage

/-- A cursor in a range of numbers. -/
structure Cycler where
  /-- The first number of the range. -/
  first : Nat
  /-- The last number of the range. -/
  last : Nat
  /-- The number that comes next. -/
  cursor : Nat
  /-- The cursor is not before the range. -/
  first_le : first ≤ cursor
  /-- The cursor is not behind the range. -/
  le_last : cursor ≤ last
deriving DecidableEq

namespace Cycler

/-- A cycler at the start of its range. -/
def new (first last : Nat) : Except PatternError Cycler :=
  if h : first ≤ last then
    .ok ⟨first, last, first, Nat.le_refl first, h⟩
  else
    .error (.emptyRange first last)

/-- The next number, and the cycler after it. -/
def next (c : Cycler) : Nat × Cycler :=
  (c.cursor,
    if h : c.cursor < c.last then
      { c with
        cursor := c.cursor + 1
        first_le := Nat.le_succ_of_le c.first_le
        le_last := h }
    else
      { c with
        cursor := c.first
        first_le := Nat.le_refl c.first
        le_last := Nat.le_trans c.first_le c.le_last })

/-- The next `n` numbers, and the cycler after them. -/
def take : Nat → Cycler → List Nat × Cycler
  | 0, c => ([], c)
  | n + 1, c =>
    let (k, c) := c.next
    let (ks, c) := take n c
    (k :: ks, c)

end Cycler

end Barrage
