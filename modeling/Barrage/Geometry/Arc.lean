import Barrage.Error

/-!
# Arcs and radials

An arc puts bullets at whole degrees, evenly spaced and centered on an angle.
A center is a multiple of half a degree, so the arc is computed in half degrees
on integers: `n` bullets at spacing `s` around the center `k` start at
`k - (n - 1) * s`.  The start must be a whole degree.

Without `anyParity` three rules reject centers before the start is looked at.
They depend on whether the number of bullets and the spacing are odd.

A radial fills the circle.  Its center is where the first bullet goes, so it is
the arc around a center moved on by half of the arc.
-/

namespace Barrage

open Number (whole? nearest)

/-- Bullets on a part of a circle. -/
structure Arc where
  /-- How many bullets. -/
  bullets : Nat
  /-- Degrees from one to the next. -/
  spacing : Nat
  /-- The angle of the middle, in degrees. -/
  center : Float
  /-- Are centers of any parity accepted? -/
  anyParity : Bool := false
deriving DecidableEq

namespace Arc

/-- The angles of an arc. -/
structure Placed where
  /-- One whole degree per bullet. -/
  angles : List Nat
  /-- Do the bullets fill the circle? -/
  closes : Bool
deriving Repr, DecidableEq

/-- An angle in half degrees, if it is a whole number of them. -/
def halves? (angle : Float) : Option Int := whole? (angle * 2.0)

/-- Refuses a center, in half degrees, of the wrong parity.  An odd number of
bullets has one in the middle.  An even number has a gap there, and the middle
of the gap is a half degree exactly when the spacing is odd. -/
def checkParity (a : Arc) (k : Int) : Except PatternError Unit :=
  let half := k % 2 = 1
  if a.bullets % 2 = 1 then
    if half then .error (.oddBulletsCenter a.center) else .ok ()
  else if a.spacing % 2 = 1 then
    if half then .ok () else .error (.evenBulletsOddSpacingCenter a.center)
  else
    if half then .error (.evenBulletsEvenSpacingCenter a.center) else .ok ()

/-- The first bullet of an arc around `k`, in half degrees from 0 to 719. -/
def start (a : Arc) (k : Int) : Nat :=
  (nearest (k - ((a.bullets - 1) * a.spacing : Nat)) % 720).toNat

/-- The angles from a whole degree on. -/
def angles (a : Arc) (first : Nat) : List Nat :=
  (List.range a.bullets).map fun i => (first + i * a.spacing) % 360

/-- The angles of an arc. -/
def place (a : Arc) : Except PatternError Placed := do
  if ¬ (1 ≤ a.spacing ∧ a.spacing ≤ 360) then
    throw (.spacing a.spacing)
  if ¬ (1 ≤ a.bullets ∧ a.bullets ≤ 360) then
    throw (.bulletCount a.bullets)
  if 360 < a.bullets * a.spacing then
    throw (.arcTooWide a.bullets a.spacing)
  match halves? a.center with
  | none => throw (.centerFraction a.center)
  | some k =>
    if ¬ a.anyParity then
      a.checkParity k
    let start := a.start k
    if start % 2 = 1 then
      throw (.fractionalStart (Float.ofNat start / 2.0))
    pure { angles := a.angles (start / 2), closes := a.bullets * a.spacing = 360 }

end Arc

/-- Bullets on a whole circle.  One of the two numbers is enough. -/
structure Radial where
  /-- How many bullets. -/
  bullets : Option Nat
  /-- Degrees from one to the next. -/
  spacing : Option Nat
  /-- The angle of the first bullet, in degrees. -/
  center : Float
deriving DecidableEq

namespace Radial

/-- A number of bullets that divides the circle. -/
def checkCount (n : Nat) : Except PatternError Unit :=
  if ¬ (1 ≤ n ∧ n ≤ 360) then
    .error (.bulletCount n)
  else if 360 % n ≠ 0 then
    .error (.radialCountFactor n)
  else
    .ok ()

/-- A spacing that divides the circle. -/
def checkSpacing (s : Nat) : Except PatternError Unit :=
  if ¬ (1 ≤ s ∧ s ≤ 360) then
    .error (.spacing s)
  else if 360 % s ≠ 0 then
    .error (.radialSpacingFactor s)
  else
    .ok ()

/-- The number of bullets and the spacing, each found from the other if it is
not given. -/
def division (r : Radial) : Except PatternError (Nat × Nat) :=
  match r.bullets, r.spacing with
  | none, none => .error .radialUnderspecified
  | some n, none => do
    checkCount n
    pure (n, 360 / n)
  | none, some s => do
    checkSpacing s
    pure (360 / s, s)
  | some n, some s => do
    checkCount n
    checkSpacing s
    if n * s ≠ 360 then
      throw (.radialMismatch s n)
    pure (n, s)

/-- The arc that covers the circle and starts at the center. -/
def toArc (r : Radial) : Except PatternError Arc := do
  let (n, s) ← r.division
  pure
    { bullets := n
      spacing := s
      center := r.center + Float.ofNat ((n - 1) * s) / 2.0
      anyParity := true }

end Radial

end Barrage
