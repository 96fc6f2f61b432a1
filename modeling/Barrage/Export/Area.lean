import Barrage.Export.Error

/-!
# The trigger area

The part of the editor in which an export places records.
-/

namespace Barrage

/-- A rectangle of the editor. -/
structure Area where
  minX : Int := 1350
  minY : Int := 1300
  maxX : Int := 25000
  maxY : Int := 3000
deriving Repr, DecidableEq

namespace Area

/-- The width. -/
def width (a : Area) : Float := Float.ofInt (a.maxX - a.minX)

/-- What is wrong with an area: no extent, or a negative corner. -/
def fault? (a : Area) : Option AreaFault :=
  if a.maxX ≤ a.minX ∨ a.maxY ≤ a.minY then
    some (.empty a.minX a.minY a.maxX a.maxY)
  else if a.minX < 0 ∨ a.minY < 0 then
    some .negative
  else
    none

/-- Refuses an area with a fault. -/
def validate (a : Area) : Except ExportError Unit :=
  match a.fault? with
  | none => .ok ()
  | some fault => .error (.invalidArea fault)

end Area

end Barrage
