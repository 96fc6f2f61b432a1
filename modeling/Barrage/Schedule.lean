import Barrage.Error

/-!
# Time and distance

The level scrolls past the player at a fixed speed, so a moment of the schedule
is a place of the level.  Times are in seconds.
-/

namespace Barrage.Schedule

/-- One step of the game. -/
def tick : Float := 1.0 / 240.0

/-- Units that the level scrolls in a second. -/
def playerSpeed : Float := 311.58

/-- A distance that takes a bullet off the screen. -/
def offscreen : Float := 480.0

/-- The place of a moment. -/
def distance (time : Float) : Float := playerSpeed * time

/-- The moment of a place. -/
def time (distance : Float) : Float := distance / playerSpeed

/-- The gap between triggers that leaves `studs` between bullets of a speed. -/
def bulletSpacing (speed studs : Float) : Float := studs / speed * playerSpeed

/-- A quantity must be at least zero, which NaN is not. -/
def nonNegative (what : Quantity) (value : Float) : Except TriggerError Unit :=
  if 0.0 ≤ value then .ok () else .error (.negative what value)

end Barrage.Schedule
