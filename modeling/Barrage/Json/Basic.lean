/-!
# JSON values

Settings are read from JSON and documents are written as JSON.  Integers and
other numbers are told apart, as the settings demand integers that are written
as such.  An object keeps its fields in order and keeps repeated ones.
-/

namespace Barrage

/-- The content of a quoted string.  An escape can spell one half of a
surrogate pair without the other.  Such a string is legal JSON, but no text. -/
inductive Json.Text where
  /-- A string that is a text. -/
  | plain (s : String)
  /-- A string with an unpaired surrogate. -/
  | unpaired
deriving DecidableEq

/-- A JSON value. -/
inductive Json where
  | null
  | bool (b : Bool)
  /-- A number written without point and exponent. -/
  | int (n : Int)
  /-- Any other number. -/
  | float (x : Float)
  | string (t : Json.Text)
  | array (items : List Json)
  | object (fields : List (Json.Text × Json))

namespace Json

/-- The text of a string. -/
def Text.get? : Text → Option String
  | .plain s => some s
  | .unpaired => none

/-- A text as a value. -/
def ofText (s : String) : Json := .string (.plain s)

/-- A natural number as a value. -/
def ofNat (n : Nat) : Json := .int n

/-- An object of named values. -/
def ofFields (fields : List (String × Json)) : Json :=
  .object (fields.map fun f => (.plain f.1, f.2))

/-- The value of a field: the first one of that name. -/
def field? (name : String) : Json → Option Json
  | .object fields => (fields.find? fun f => f.1 = .plain name).map Prod.snd
  | _ => none

end Json

end Barrage
