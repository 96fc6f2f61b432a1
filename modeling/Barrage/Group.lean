/-!
# Groups

Every object of a level belongs to groups, and triggers address objects through
them.  A group is known by its number.  Some numbers are *placeholders*: a
component is written against them once, and each spawn of the component puts
real groups in their place.

The groups of a level have 32 bits.  Sums of groups are not cut to them here.
-/

namespace Barrage

/-- A group of level objects. -/
abbrev Group := Nat

namespace Group

/-- The greatest group of 32 bits, which is the greatest that a remap text can name. -/
def greatest : Group := 4294967295

/-- The player. -/
def player : Group := 2

/-- The center of the screen. -/
def screenCenter : Group := 30

/-- Placeholder for the bullet of a template. -/
def bullet : Group := 10

/-- Placeholder for what a bullet aims at. -/
def target : Group := 20

/-- Placeholder for what a bullet comes from. -/
def emitter : Group := 21

/-- Placeholder for the collision group of a bullet. -/
def auxiliary : Group := 23

/-- Placeholder for what a scale keyframe acts on. -/
def keyframe : Group := 24

/-- Placeholder for the template that a burst spawns. -/
def template : Group := 9989

end Group

end Barrage
