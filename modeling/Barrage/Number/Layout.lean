import Barrage.Number.Shortest

/-!
# The text of numbers

A layout says how the shortest decimal of a float is written: where positional
notation ends, whether a whole number keeps `.0`, how an exponent is signed and
which words stand for values that are no real numbers.  The program writes
floats in three layouts, one for documents and two for messages.
-/

namespace Barrage.Number

/-- How floats are written. -/
structure Layout where
  /-- The powers of ten of the first digit, from the first number to before the
  second, that are written positionally.  `none` means all. -/
  plain : Option (Int × Int)
  /-- Is a whole number in positional notation followed by `.0`? -/
  keepsPoint : Bool
  /-- Is a positive exponent written with a plus sign? -/
  plusSign : Bool
  /-- The choice between two nearest decimals. -/
  tie : Tie

namespace Layout

/-- Documents: positional from `1e-5` to below `1e16`. -/
def document : Layout := ⟨some (-5, 16), true, true, .even⟩

/-- Quantities in messages: always positional, whole numbers without a point. -/
def quantity : Layout := ⟨none, false, false, .up⟩

/-- Rejected arguments in messages: positional from `1e-4` to below `1e16`. -/
def argument : Layout := ⟨some (-4, 16), true, false, .up⟩

/-- Digits in positional notation. -/
def positional (l : Layout) (d : Decimal) : List Char :=
  let digits := d.text
  let point : Int := digits.length + d.exponent
  if 0 ≤ d.exponent then
    digits ++ List.replicate d.exponent.toNat '0' ++ (if l.keepsPoint then ['.', '0'] else [])
  else if 0 < point then
    digits.take point.toNat ++ '.' :: digits.drop point.toNat
  else
    '0' :: '.' :: List.replicate (-point).toNat '0' ++ digits

/-- Digits in scientific notation: a point after the first one, then the power
of ten. -/
def scientific (l : Layout) (d : Decimal) : List Char :=
  let mantissa :=
    match d.text with
    | [] => []
    | [c] => [c]
    | c :: rest => c :: '.' :: rest
  let power := d.magnitude
  let mark := if power < 0 then ['-'] else if l.plusSign then ['+'] else []
  mantissa ++ 'e' :: mark ++ Nat.toDigits 10 power.natAbs

/-- The digits in the notation that the layout chooses for them. -/
def digits (l : Layout) (d : Decimal) : List Char :=
  match l.plain with
  | none => l.positional d
  | some (first, limit) =>
    if first ≤ d.magnitude ∧ d.magnitude < limit then l.positional d else l.scientific d

/-- The text of a float. -/
def render (l : Layout) (x : Float) : String :=
  let mark (s : Float.Model.UnpackedFloat.Sign) : String := if isNegative s then "-" else ""
  match x.toModel.unpack with
  | .notANumber => "NaN"
  | .infinity s => mark s ++ "inf"
  | .zero s => mark s ++ (if l.keepsPoint then "0.0" else "0")
  | .finite s m e _ => mark s ++ String.ofList (l.digits (shortest l.tie m e))

end Layout

/-- A float with exactly `places` digits after the point, a half to the even
neighbour. -/
def fixed (places : Nat) (x : Float) : String :=
  match x.toModel.unpack with
  | .notANumber => "NaN"
  | .infinity s => if isNegative s then "-inf" else "inf"
  | .zero s => (if isNegative s then "-" else "") ++ body 0
  | .finite s m e _ =>
    (if isNegative s then "-" else "")
      ++ body (roundDiv (m * Nat.pow 10 places * Nat.pow 2 e.toNat) (Nat.pow 2 (-e).toNat))
where
  /-- `n` units of the last place. -/
  body (n : Nat) : String :=
    let digits := Nat.toDigits 10 (n % Nat.pow 10 places)
    let fraction := List.replicate (places - digits.length) '0' ++ digits
    toString (n / Nat.pow 10 places) ++ (if places = 0 then "" else "." ++ String.ofList fraction)

end Barrage.Number
