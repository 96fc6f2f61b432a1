import Barrage.Json.Basic
import Barrage.Record.Effect

/-!
# Records

A record is a trigger of the level: an effect with its place, its layer and the
groups it belongs to.  The first of them is the group that runs its component.
Along the level the place is first a moment of the schedule and becomes a place
in the editor when the record is exported.  Only then it has a place across the
level.
-/

namespace Barrage

/-- A trigger. -/
structure Record where
  /-- The place along the level. -/
  x : Float
  /-- The place across the level. -/
  y : Option Float := none
  /-- The groups that the record belongs to. -/
  groups : List Group
  /-- The layer of the editor. -/
  layer : Nat
  /-- What the record does. -/
  effect : Effect
deriving DecidableEq

namespace Record

/-- The kind of the record. -/
def kind (r : Record) : Kind := r.effect.kind

/-- Is the record a spawn? -/
def isSpawn (r : Record) : Bool := r.effect.isSpawn

/-- Does the record spawn its target at once? -/
def isImmediateSpawn (r : Record) : Bool := r.isSpawn && r.effect.delay == 0.0

/-- Does the record spawn its target at once and as it is? -/
def isPlainSpawn (r : Record) : Bool := r.isImmediateSpawn && r.effect.remap?.isNone

/-- The record at another place. -/
def moveTo (r : Record) (x y : Float) : Record := { r with x, y := some y }

/-- All fields, in the order of their numbers. -/
def fields (r : Record) : List (Field × Value) :=
  let own :=
    [(Field.kind, .int r.kind.id), (Field.x, .float r.x)]
      ++ (r.y.toList.map fun y => (Field.y, .float y))
      ++ [(Field.layer, .int r.layer), (Field.groups, .groups r.groups),
        (Field.spawnTriggered, .bool true), (Field.multiTriggered, .bool true)]
  (own ++ r.effect.fields).mergeSort fun a b => a.1 ≤ b.1

/-- The value of a field. -/
def field? (r : Record) (f : Field) : Option Value := r.fields.lookup f

end Record

/-- A value as JSON. -/
def Value.toJson : Value → Json
  | .bool b => .bool b
  | .int n => .int n
  | .float x => .float x
  | .text s => Json.ofText s
  | .groups gs => .array (gs.map Json.ofNat)

/-- A record as JSON: an object from field numbers to values. -/
def Record.toJson (r : Record) : Json :=
  Json.ofFields (r.fields.map fun f => (toString f.1, f.2.toJson))

end Barrage
