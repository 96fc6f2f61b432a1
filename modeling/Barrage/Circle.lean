import Barrage.Group

/-!
# Guider circles

A guider circle is a ring of 360 anchors around a center, one per whole degree,
whose groups are numbered one after the other.  The numbers have no bound here.
What becomes of a circle whose anchors leave 32 bits is left out.
-/

namespace Barrage

/-- A ring of anchors. -/
structure Circle where
  /-- The group of the whole ring. -/
  all : Group
  /-- The group of its center. -/
  center : Group
  /-- The anchor at one degree. -/
  pointer : Group
deriving Repr, DecidableEq

namespace Circle

/-- The main circle of a stage. -/
def main : Circle := ⟨5461, 5461, 5101⟩

/-- The anchor at a degree, also where this is beyond `Group.greatest`.  A full
turn and no turn are the last anchor. -/
def anchor (c : Circle) (degree : Nat) : Group :=
  let turn := degree % 360
  c.pointer + (if turn = 0 then 360 else turn) - 1

/-- Every degree from 1 to 360 with its anchor. -/
def anchors (c : Circle) : List (Nat × Group) :=
  (List.range 360).map fun i => (i + 1, c.anchor (i + 1))

end Circle

end Barrage
