import Barrage.Error

/-!
# Failures of an export
-/

namespace Barrage

open Number (Layout)

/-- What is wrong with an area. -/
inductive AreaFault where
  /-- It has no width or no height. -/
  | empty (minX minY maxX maxY : Int)
  /-- It begins below zero. -/
  | negative
deriving Repr, DecidableEq

/-- The text of an area fault. -/
def AreaFault.message : AreaFault → String
  | .empty minX minY maxX maxY =>
    "(" ++ toString minX ++ ", " ++ toString minY ++ ")..(" ++ toString maxX ++ ", "
      ++ toString maxY ++ ") is empty"
  | .negative => "coordinates must be non-negative"

/-- Why a file cannot be read or written. -/
inductive DiskError where
  | notFound
  | busy
  | notDirectory
  | isDirectory
  | nameTooLong
  | invalidName
  /-- Any other reason, with its text. -/
  | other (text : String)
deriving Repr, DecidableEq

/-- The text of a disk error. -/
def DiskError.message : DiskError → String
  | .notFound => "No such file or directory (os error 2)"
  | .busy => "Device or resource busy (os error 16)"
  | .notDirectory => "Not a directory (os error 20)"
  | .isDirectory => "Is a directory (os error 21)"
  | .nameTooLong => "File name too long (os error 36)"
  | .invalidName => "file name contained an unexpected NUL byte"
  | .other text => text

/-- Why a document cannot be exported. -/
inductive ExportError where
  /-- Spawns would be lost. -/
  | hazard (cause : HazardError)
  /-- A component without records cannot be placed. -/
  | emptyComponent (component : String)
  /-- The records of a component do not fit side by side. -/
  | chainTooWide (component : String) (width area : Float)
  /-- A record belongs to a reserved group. -/
  | reservedGroup (component : String) (group : Group)
  /-- Two records are too close to keep their order. -/
  | spawnOrderBroken (component : String) (x previous : Float)
  /-- The area is refused. -/
  | invalidArea (fault : AreaFault)
  /-- The file cannot be written. -/
  | disk (path : String) (cause : DiskError)
deriving DecidableEq

/-- The text of a failed export. -/
def ExportError.message : ExportError → String
  | .hazard cause => cause.message
  | .emptyComponent component => "component '" ++ component ++ "' has no triggers to spread"
  | .chainTooWide component width area =>
    "rigid chain in '" ++ component ++ "' is " ++ Layout.quantity.render width
      ++ " wide, trigger area only fits " ++ Layout.quantity.render area
  | .reservedGroup component group =>
    "reserved group " ++ toString group ++ " detected in '" ++ component ++ "'"
  | .spawnOrderBroken component x previous =>
    "trigger at x=" ++ Layout.quantity.render x ++ " in '" ++ component
      ++ "' is within 1 unit of the previous one at x=" ++ Layout.quantity.render previous
      ++ ", spawn order not preserved"
  | .invalidArea fault => "invalid trigger area: " ++ fault.message
  | .disk path cause => "failed to write " ++ path ++ ": " ++ cause.message

end Barrage
