import Barrage.Cycler

/-!
# Bullet pools

A pool is a range of bullet groups that are handed out in turn.  Each bullet
has a collision group, as many numbers further on as the pool has bullets, so
that the collision groups follow the bullets.
-/

namespace Barrage

/-- A range of bullets with a cursor. -/
structure Pool where
  /-- Where the pool is in its range. -/
  cycler : Cycler
  /-- Do its bullets need an aim? -/
  oriented : Bool := false
deriving DecidableEq

namespace Pool

/-- A pool at the start of its range. -/
def new (first last : Group) (oriented : Bool) : Except PatternError Pool := do
  let cycler ← Cycler.new first last
  pure { cycler, oriented }

/-- The number of bullets. -/
def size (p : Pool) : Nat := p.cycler.last - p.cycler.first + 1

/-- The collision group of a bullet. -/
def collision (p : Pool) (bullet : Group) : Group := bullet + p.size

/-- The next bullet with its collision group, and the pool after it. -/
def next (p : Pool) : (Group × Group) × Pool :=
  let (bullet, cycler) := p.cycler.next
  ((bullet, p.collision bullet), { p with cycler })

/-- The next `n` bullets with their collision groups, and the pool after them. -/
def take : Nat → Pool → List (Group × Group) × Pool
  | 0, p => ([], p)
  | n + 1, p =>
    let (shot, p) := p.next
    let (shots, p) := take n p
    (shot :: shots, p)

end Pool

end Barrage
