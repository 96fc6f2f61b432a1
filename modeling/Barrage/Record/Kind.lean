/-!
# Kinds of trigger objects
-/

namespace Barrage

/-- The kind of a trigger object. -/
inductive Kind where
  | toggle
  | spawn
  | pulse
  | scale
  | move
  | rotate
  | collision
  | stop
  | count
  | follow
  | alpha
  | instantCount
  | pickup
deriving Repr, DecidableEq

namespace Kind

/-- The number of a kind in a document. -/
def id : Kind → Nat
  | .toggle => 1049
  | .spawn => 1268
  | .pulse => 1006
  | .scale => 2067
  | .move => 901
  | .rotate => 1346
  | .collision => 1815
  | .stop => 1616
  | .count => 1611
  | .follow => 1347
  | .alpha => 1007
  | .instantCount => 1811
  | .pickup => 1817

/-- The name of a kind. -/
def name : Kind → String
  | .toggle => "Toggle"
  | .spawn => "Spawn"
  | .pulse => "Pulse"
  | .scale => "Scale"
  | .move => "Move"
  | .rotate => "Rotate"
  | .collision => "Collision"
  | .stop => "Stop"
  | .count => "Count"
  | .follow => "Follow"
  | .alpha => "Alpha"
  | .instantCount => "InstantCount"
  | .pickup => "Pickup"

/-- All kinds. -/
def all : List Kind :=
  [.toggle, .spawn, .pulse, .scale, .move, .rotate, .collision, .stop, .count, .follow, .alpha,
    .instantCount, .pickup]

/-- The kind with a number. -/
def ofId? (id : Nat) : Option Kind := all.find? fun k => k.id = id

end Kind

end Barrage
