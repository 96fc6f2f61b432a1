/-!
# Exact readings of binary floats

A finite `Float` is `± m · 2 ^ e` for a natural `m` and an integer `e`.  The
functions here read a float through that form and do all arithmetic on `Nat`
and `Int`, so none of them rounds unless its doc comment says so.

* `whole?` reads a float whose value is an integer.
* `truncate` drops the fraction and clamps to 64 bits.
* `roundAway` rounds to the nearest integer, a half away from zero.
* `nearest` is the closest integer of at most 53 significant bits, which is
  what a float keeps of a large integer.
* `totalKey` orders all floats, with `-0.0` below `0.0`.
-/

namespace Barrage.Number

open Float.Model (UnpackedFloat)
open Float.Model.UnpackedFloat (Sign)

/-- A sign applied to a natural number. -/
def signed (negative : Bool) (n : Nat) : Int := if negative then -(n : Int) else (n : Int)

/-- The sign, as a truth value: is it negative? -/
def isNegative : Sign → Bool
  | .negative => true
  | .positive => false

/-- The value of a float that is an integer.  Infinities, NaN and floats with a
fraction have none. -/
def whole? (x : Float) : Option Int :=
  match x.toModel.unpack with
  | .infinity _ => none
  | .notANumber => none
  | .zero _ => some 0
  | .finite s m e _ =>
    if 0 ≤ e then
      some (signed (isNegative s) (m * Nat.pow 2 e.toNat))
    else if m % Nat.pow 2 (-e).toNat = 0 then
      some (signed (isNegative s) (m / Nat.pow 2 (-e).toNat))
    else
      none

/-- The least and the greatest integer of 64 bits. -/
def int64Min : Int := -9223372036854775808

@[inherit_doc int64Min]
def int64Max : Int := 9223372036854775807

/-- An integer moved into the 64 bit range. -/
def clamp64 (n : Int) : Int := max int64Min (min int64Max n)

/-- The integer part, toward zero.  Values outside the 64 bit range stop at its
ends, and NaN gives zero. -/
def truncate (x : Float) : Int :=
  match x.toModel.unpack with
  | .infinity s => if isNegative s then int64Min else int64Max
  | .notANumber => 0
  | .zero _ => 0
  | .finite s m e _ =>
    clamp64 (signed (isNegative s)
      (if 0 ≤ e then m * Nat.pow 2 e.toNat else m / Nat.pow 2 (-e).toNat))

/-- The nearest integer, a half away from zero.  A value that is an integer
already, an infinity and NaN stay as they are. -/
def roundAway (x : Float) : Float :=
  match x.toModel.unpack with
  | .infinity _ => x
  | .notANumber => x
  | .zero _ => x
  | .finite s m e _ =>
    if 0 ≤ e then
      x
    else
      let unit := Nat.pow 2 (-e).toNat
      let rounded := Float.ofNat ((2 * m + unit) / (2 * unit))
      if isNegative s then -rounded else rounded

/-- A quotient rounded to the nearest natural number, a half to the even one. -/
def roundDiv (num den : Nat) : Nat :=
  let quotient := num / den
  let rest := 2 * (num % den)
  if rest < den then
    quotient
  else if den < rest then
    quotient + 1
  else
    quotient + quotient % 2

/-- All integers up to here are floats: the power of two with exponent 53. -/
def exactLimit : Nat := 9007199254740992

/-- The nearest integer of at most 53 significant bits, a half to the even one. -/
def nearest (n : Int) : Int :=
  if n.natAbs ≤ exactLimit then
    n
  else
    let unit := Nat.pow 2 (n.natAbs.log2 - 52)
    signed (decide (n < 0)) (roundDiv n.natAbs unit * unit)

/-- A key by which all floats are ordered: negative ones from `-∞` up to `-0.0`,
then `0.0` up to `∞`. -/
def totalKey (x : Float) : Int :=
  let bits := x.toBits.toNat
  if bits < 9223372036854775808 then (bits : Int) else 9223372036854775807 - (bits : Int)

/-- The total order of floats. -/
def totalLe (x y : Float) : Bool := totalKey x ≤ totalKey y

theorem nearest_of_small {n : Int} (h : n.natAbs ≤ exactLimit) : nearest n = n := by
  simp only [nearest, if_pos h]

end Barrage.Number
