import Barrage.Group

/-!
# Field values

A document holds five kinds of values.  A group is written as an integer.
-/

namespace Barrage

/-- The value of a field. -/
inductive Value where
  | bool (b : Bool)
  | int (n : Int)
  | float (x : Float)
  | text (s : String)
  | groups (gs : List Group)
deriving DecidableEq

namespace Value

/-- A group as a value. -/
def group (g : Group) : Value := .int g

/-- The value as a number. -/
def float? : Value → Option Float
  | .int n => some (Float.ofInt n)
  | .float x => some x
  | _ => none

/-- The value as a group.  A group has at most 32 bits. -/
def group? : Value → Option Group
  | .int n => if 0 ≤ n ∧ n ≤ Group.greatest then some n.toNat else none
  | _ => none

/-- The value as a truth value. -/
def bool? : Value → Option Bool
  | .bool b => some b
  | _ => none

/-- The value as a text. -/
def text? : Value → Option String
  | .text s => some s
  | _ => none

end Value

end Barrage
