import Barrage.Json.Basic

/-!
# Structures in JSON

A structure is written as an object from field names to values, or as an array
of the values in the order of the fields.  An object may have further fields,
but none of the structure twice.  An array may be too short but not too long.
Which fields may be absent is for the structure to say.
-/

namespace Barrage.Json

/-- The only value of a field.  `none` for a repeated field, `some none` for an
absent one. -/
def unique? (fields : List (Text × Json)) (name : String) : Option (Option Json) :=
  match fields.filter fun f => f.1 = .plain name with
  | [] => some none
  | [f] => some (some f.2)
  | _ => none

/-- The values of the fields of a structure, `none` for absent ones.  Every key
of an object must be a text. -/
def members? (names : List String) : Json → Option (List (Option Json))
  | .object fields =>
    if fields.all fun f => f.1.get?.isSome then names.mapM (unique? fields) else none
  | .array items =>
    if items.length ≤ names.length then
      some (items.map some ++ List.replicate (names.length - items.length) none)
    else
      none
  | _ => none

/-- The value of a field, or its default if it is absent. -/
def orDefault {α : Type} (default : α) (decode : Json → Option α) : Option Json → Option α
  | none => some default
  | some v => decode v

/-- The value of a field that must be there. -/
def required {α : Type} (decode : Json → Option α) : Option Json → Option α
  | none => none
  | some v => decode v

/-- An integer in a range. -/
def int? (lo hi : Int) : Json → Option Int
  | .int n => if lo ≤ n ∧ n ≤ hi then some n else none
  | _ => none

/-- A natural number that is not above a greatest one. -/
def natUpTo? (greatest : Nat) (v : Json) : Option Nat := (int? 0 greatest v).map Int.toNat

/-- A text. -/
def text? : Json → Option String
  | .string t => t.get?
  | _ => none

/-- A list of values. -/
def list? {α : Type} (decode : Json → Option α) : Json → Option (List α)
  | .array items => items.mapM decode
  | _ => none

end Barrage.Json
