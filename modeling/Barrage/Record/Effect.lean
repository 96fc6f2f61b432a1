import Barrage.Color
import Barrage.Easing
import Barrage.Record.Kind
import Barrage.Record.Value
import Barrage.Remap.Wire

/-!
# Effects

An effect is what a trigger does once it is reached.  Each effect has a kind,
the groups it refers to, and the fields that spell it in a document.  A field
is known by its number, and some numbers mean different things in different
kinds.
-/

namespace Barrage

/-- What a stop trigger does to its target. -/
inductive StopMode where
  | stop
  | pause
  | resume
deriving Repr, DecidableEq

/-- The number of a stop mode in a document. -/
def StopMode.id : StopMode → Nat
  | .stop => 0
  | .pause => 1
  | .resume => 2

/-- What a pickup does with its factor. -/
inductive PickupMode where
  | multiply
  | divide
deriving Repr, DecidableEq

/-- The number of a pickup mode in a document. -/
def PickupMode.id : PickupMode → Nat
  | .multiply => 1
  | .divide => 2

/-- The fades of a pulse, in seconds. -/
structure PulseTiming where
  fadeIn : Float
  hold : Float
  fadeOut : Float
deriving DecidableEq

/-- What a trigger does. -/
inductive Effect where
  /-- Switches the target on or off. -/
  | toggle (target : Group) (activate : Bool)
  /-- Runs the target, some time later, with other groups in its records. -/
  | spawn (target : Group) (ordered : Bool) (delay : Option Float) (remap : Option Remap)
  /-- Tints the target. -/
  | pulse (target : Group) (color : Color) (timing : PulseTiming) (exclusive : Bool)
  /-- Scales the target up, or back down. -/
  | scale (target : Group) (factor : Float) (divide : Bool) (tween : Tween)
  /-- Moves the target some way toward a group. -/
  | moveTowards (target direction : Group) (distance : Float) (tween : Tween) (dynamic : Bool)
  /-- Moves the target by a vector. -/
  | moveBy (target : Group) (dx dy : Float) (tween : Tween)
  /-- Moves the target onto a group. -/
  | moveTo (target location : Group) (tween : Tween)
  /-- Turns the target around a group. -/
  | rotate (target center : Group) (angle : Float) (tween : Tween)
  /-- Turns the target toward a group. -/
  | aim (target direction : Group) (tween : Tween) (dynamic : Bool)
  /-- Fades the target. -/
  | alpha (target : Group) (opacity duration : Float)
  /-- Makes the target copy the motion of a group. -/
  | follow (target leader : Group) (duration : Float)
  /-- Stops, pauses or resumes the target. -/
  | stop (target : Group) (mode : StopMode) (useControlId : Bool)
  /-- Switches the target when two blocks touch. -/
  | collision (target : Group) (blockA blockB : Nat) (activate : Bool)
  /-- Switches the target when an item has a count. -/
  | count (target : Group) (item : Nat) (number : Int) (activate : Bool)
  /-- Adds to an item, or sets it. -/
  | pickup (item : Nat) (number : Int) (overwrite : Bool)
  /-- Multiplies or divides an item. -/
  | pickupModify (item : Nat) (factor : Float) (mode : PickupMode)
deriving DecidableEq

/-- The number of a field in a document. -/
abbrev Field := Nat

namespace Field

/-- The number of the kind. -/
def kind : Field := 1

/-- The place in the level, along it. -/
def x : Field := 2

/-- The place in the level, across it. -/
def y : Field := 3

/-- The duration of an animation. -/
def duration : Field := 10

/-- The layer of the editor. -/
def layer : Field := 20

/-- The group that a trigger acts on. -/
def target : Field := 51

/-- The groups that a trigger belongs to. -/
def groups : Field := 57

/-- Does the trigger wait to be spawned? -/
def spawnTriggered : Field := 62

/-- The delay of a spawn. -/
def spawnDelay : Field := 63

/-- A second group: a leader, a center, a direction or a location. -/
def second : Field := 71

/-- Can the trigger run more than once? -/
def multiTriggered : Field := 87

/-- The center of what a move acts on. -/
def moveCenter : Field := 395

/-- The group that a rotation aims at. -/
def aimTarget : Field := 401

/-- Does a spawn keep the order of its target? -/
def spawnOrdered : Field := 441

/-- The remap of a spawn. -/
def remap : Field := 442

end Field

namespace Effect

/-- The kind of trigger that has the effect. -/
def kind : Effect → Kind
  | .toggle .. => .toggle
  | .spawn .. => .spawn
  | .pulse .. => .pulse
  | .scale .. => .scale
  | .moveTowards .. => .move
  | .moveBy .. => .move
  | .moveTo .. => .move
  | .rotate .. => .rotate
  | .aim .. => .rotate
  | .alpha .. => .alpha
  | .follow .. => .follow
  | .stop .. => .stop
  | .collision .. => .collision
  | .count .. => .instantCount
  | .pickup .. => .pickup
  | .pickupModify .. => .pickup

/-- The group that the effect acts on. -/
def target? : Effect → Option Group
  | .toggle t .. => some t
  | .spawn t .. => some t
  | .pulse t .. => some t
  | .scale t .. => some t
  | .moveTowards t .. => some t
  | .moveBy t .. => some t
  | .moveTo t .. => some t
  | .rotate t .. => some t
  | .aim t .. => some t
  | .alpha t .. => some t
  | .follow t .. => some t
  | .stop t .. => some t
  | .collision t .. => some t
  | .count t .. => some t
  | .pickup .. => none
  | .pickupModify .. => none

/-- Every group that a field of the effect names, in the order target, second
group, aim, center. -/
def groupRefs : Effect → List Group
  | .toggle t .. => [t]
  | .spawn t .. => [t]
  | .pulse t .. => [t]
  | .scale t .. => [t, t]
  | .moveTowards t d .. => [t, d, t]
  | .moveBy t .. => [t]
  | .moveTo t l .. => [t, l, t]
  | .rotate t c .. => [t, c]
  | .aim t d .. => [t, t, d]
  | .alpha t .. => [t]
  | .follow t l .. => [t, l]
  | .stop t .. => [t]
  | .collision t .. => [t]
  | .count t .. => [t]
  | .pickup .. => []
  | .pickupModify .. => []

/-- Is the effect a spawn? -/
def isSpawn : Effect → Bool
  | .spawn .. => true
  | _ => false

/-- Does the effect aim its target at a group? -/
def isAim : Effect → Bool
  | .aim .. => true
  | _ => false

/-- The remap of a spawn that has one. -/
def remap? : Effect → Option Remap
  | .spawn _ _ _ remap => remap
  | _ => none

/-- The delay of a spawn, zero if it has none. -/
def delay : Effect → Float
  | .spawn _ _ delay _ => delay.getD 0.0
  | _ => 0.0

/-- Does a spawn keep the order of its target? -/
def isOrdered : Effect → Bool
  | .spawn _ ordered _ _ => ordered
  | _ => false

/-- The fields of a tween. -/
def tweenFields (t : Tween) : List (Field × Value) :=
  [(Field.duration, .float t.duration), (30, .int t.easing.id), (85, .float t.rate)]

/-- The fields that belong to one kind of effect. -/
def ownFields : Effect → List (Field × Value)
  | .toggle _ activate => [(56, .bool activate)]
  | .spawn _ ordered delay remap =>
    [(Field.spawnOrdered, .bool ordered)]
      ++ (delay.toList.map fun d => (Field.spawnDelay, .float d))
      ++ (remap.toList.map fun r => (Field.remap, .text r.wire))
  | .pulse _ color timing exclusive =>
    [(45, .float timing.fadeIn), (46, .float timing.hold), (47, .float timing.fadeOut),
      (48, .bool true), (49, .text color.wire), (52, .bool true)]
      ++ (if exclusive then [(86, .bool true)] else [])
  | .scale t factor divide tween =>
    tweenFields tween
      ++ [(Field.second, .group t), (150, .float factor), (151, .float factor),
        (153, .bool divide), (154, .bool divide)]
  | .moveTowards t direction distance tween dynamic =>
    tweenFields tween
      ++ [(Field.second, .group direction), (393, .bool true), (394, .bool true),
        (Field.moveCenter, .group t), (396, .float distance), (544, .bool (tween.duration == 0.0))]
      ++ (if dynamic then [(397, .bool true)] else [])
  | .moveBy _ dx dy tween =>
    tweenFields tween
      ++ [(28, .float dx), (29, .float dy), (393, .bool true),
        (544, .bool (tween.duration == 0.0))]
  | .moveTo t location tween =>
    tweenFields tween
      ++ [(Field.second, .group location), (100, .bool true), (Field.moveCenter, .group t),
        (544, .bool (tween.duration == 0.0))]
  | .rotate _ center angle tween =>
    tweenFields tween ++ [(68, .float angle), (Field.second, .group center)]
  | .aim t direction tween dynamic =>
    tweenFields tween
      ++ [(Field.second, .group t), (100, .bool true), (397, .bool dynamic),
        (Field.aimTarget, .group direction)]
  | .alpha _ opacity duration => [(Field.duration, .float duration), (35, .float opacity)]
  | .follow _ leader duration =>
    [(Field.duration, .float duration), (Field.second, .group leader)]
  | .stop _ mode useControlId => [(535, .bool useControlId), (580, .int mode.id)]
  | .collision _ blockA blockB activate =>
    [(56, .bool activate), (80, .int blockA), (95, .int blockB)]
  | .count _ item number activate =>
    [(56, .bool activate), (77, .int number), (80, .int item)]
  | .pickup item number overwrite =>
    [(77, .int number), (80, .int item), (139, .bool overwrite)]
  | .pickupModify item factor mode =>
    [(80, .int item), (88, .int mode.id), (449, .float factor)]

/-- The fields of an effect: its target and what belongs to its kind. -/
def fields (e : Effect) : List (Field × Value) :=
  (e.target?.toList.map fun t => (Field.target, .group t)) ++ e.ownFields

end Effect

end Barrage
