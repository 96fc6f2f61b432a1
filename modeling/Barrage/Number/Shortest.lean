import Barrage.Number.Binary

/-!
# Shortest decimals

The decimal of a float is the one with the fewest digits that still reads back
as the float, and the nearest to it among those.

A positive float `m · 2 ^ e` is the nearest float of every real in an interval
around it.  The interval reaches half way to each neighbour, and its ends
belong to it when `m` is even.  For one digit, two digits, and so on the two
neighbours of the float on that decimal grid are tested in exact arithmetic.
The first grid with a neighbour inside the interval gives the digits.  A double
needs at most seventeen.
-/

namespace Barrage.Number

/-- Which neighbour wins when a float lies half way between two grid points. -/
inductive Tie where
  /-- The greater one. -/
  | up
  /-- The one with the even last digit. -/
  | even
deriving Repr, DecidableEq

/-- The decimal `digits · 10 ^ exponent`. -/
structure Decimal where
  /-- All digits, as one number. -/
  digits : Nat
  /-- The power of ten of the last digit. -/
  exponent : Int
deriving Repr, DecidableEq

namespace Decimal

/-- The digits from first to last. -/
def text (d : Decimal) : List Char := Nat.toDigits 10 d.digits

/-- The power of ten of the first digit. -/
def magnitude (d : Decimal) : Int := d.exponent + d.text.length - 1

/-- Drops final zeros, at most `fuel` of them. -/
def trim : Nat → Decimal → Decimal
  | 0, d => d
  | fuel + 1, d =>
    if d.digits % 10 = 0 then trim fuel ⟨d.digits / 10, d.exponent + 1⟩ else d

end Decimal

/-- A positive rational with the interval of reals that round to it, all over
one denominator. -/
structure Window where
  /-- The lower end. -/
  low : Nat
  /-- The value itself. -/
  mid : Nat
  /-- The upper end. -/
  high : Nat
  /-- The common denominator. -/
  den : Nat
  /-- Do the ends belong to the interval? -/
  closed : Bool

namespace Window

/-- The interval of the float `m · 2 ^ e`.  The gap below a power of two is half
as wide as the gap above it, except at the least exponent. -/
def ofParts (m : Nat) (e : Int) : Window :=
  let below := if m = 4503599627370496 ∧ -1074 < e then 1 else 2
  let up := Nat.pow 2 (e - 2).toNat
  { low := (4 * m - below) * up
    mid := 4 * m * up
    high := (4 * m + 2) * up
    den := Nat.pow 2 (2 - e).toNat
    closed := m % 2 = 0 }

/-- The window in units of `10 ^ k`. -/
def scale (w : Window) (k : Int) : Window :=
  let times := Nat.pow 10 (-k).toNat
  { low := w.low * times
    mid := w.mid * times
    high := w.high * times
    den := w.den * Nat.pow 10 k.toNat
    closed := w.closed }

/-- Is the integer `n` inside the window? -/
def has (w : Window) (n : Nat) : Bool :=
  if w.closed then
    w.low ≤ n * w.den ∧ n * w.den ≤ w.high
  else
    w.low < n * w.den ∧ n * w.den < w.high

/-- The integer next to the middle that lies inside the window, if one does. -/
def pick (tie : Tie) (w : Window) : Option Nat :=
  let lower := w.mid / w.den
  let rest := 2 * (w.mid % w.den)
  match w.has lower, w.has (lower + 1) with
  | false, false => none
  | true, false => some lower
  | false, true => some (lower + 1)
  | true, true =>
    if rest < w.den then
      some lower
    else if w.den < rest then
      some (lower + 1)
    else
      match tie with
      | .up => some (lower + 1)
      | .even => some (lower + lower % 2)

end Window

/-- The power of ten of the first digit of `m · 2 ^ e`.  The logarithm to base
two gives it up to one, and comparisons settle the rest. -/
def leadingPower (m : Nat) (e : Int) : Int :=
  let guess := ((m.log2 + e) * 30103).fdiv 100000 - 1
  let w := Window.ofParts m e
  [guess + 1, guess + 2, guess + 3].foldl
    (fun best k =>
      let v := w.scale k
      if v.den ≤ v.mid then k else best)
    guess

/-- Tries `n` digits, then one more, up to `fuel` times. -/
def searchDigits (tie : Tie) (w : Window) (lead : Int) : (fuel n : Nat) → Option Decimal
  | 0, _ => none
  | fuel + 1, n =>
    let k := lead + 1 - n
    match (w.scale k).pick tie with
    | some d => some (Decimal.trim 20 ⟨d, k⟩)
    | none => searchDigits tie w lead fuel (n + 1)

/-- The shortest decimal of the positive float `m · 2 ^ e`. -/
def shortest (tie : Tie) (m : Nat) (e : Int) : Decimal :=
  let w := Window.ofParts m e
  (searchDigits tie w (leadingPower m e) 17 1).getD ⟨m * Nat.pow 2 e.toNat, 0⟩

end Barrage.Number
