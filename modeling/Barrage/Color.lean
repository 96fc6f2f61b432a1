import Barrage.Number.Layout

/-!
# Colors

A pulse tints a group by hue, saturation and brightness.  The three are written
as one text, each followed by the letter `a`, with two unused zeros at the end.
-/

namespace Barrage

open Number (roundAway Layout)

/-- A color by hue, saturation and brightness. -/
structure Color where
  hue : Float
  saturation : Float
  brightness : Float
deriving DecidableEq

namespace Color

/-- The text of a color in a document. -/
def wire (c : Color) : String :=
  let part := Layout.quantity.render
  part c.hue ++ "a" ++ part c.saturation ++ "a" ++ part c.brightness ++ "a0a0"

/-- A value rounded to two places. -/
def hundredths (x : Float) : Float := roundAway (x * 100.0) / 100.0

/-- The greater of two numbers. -/
def larger (x y : Float) : Float := if x < y then y else x

/-- The smaller of two numbers. -/
def smaller (x y : Float) : Float := if y < x then y else x

/-- The place of a color on the hexagon of hues, from 0 to 6, for channels
between 0 and 1.  The sector is that of the greatest channel, the first of equal
ones. -/
def sector (r g b : Float) : Float :=
  let most := larger (larger r g) b
  let spread := most - smaller (smaller r g) b
  if spread == 0.0 then
    0.0
  else if most == r then
    let x := (g - b) / spread
    if x < 0.0 then x + 6.0 else x
  else if most == g then
    (b - r) / spread + 2.0
  else
    (r - g) / spread + 4.0

/-- The color of three channels from 0 to 255.  Hue is in whole degrees,
saturation and brightness in hundredths. -/
def ofChannels (red green blue : Nat) : Color :=
  let r := Float.ofNat red / 255.0
  let g := Float.ofNat green / 255.0
  let b := Float.ofNat blue / 255.0
  let most := larger (larger r g) b
  let spread := most - smaller (smaller r g) b
  { hue := roundAway (60.0 * sector r g b)
    saturation := hundredths (if most == 0.0 then 0.0 else spread / most)
    brightness := hundredths most }

end Color

end Barrage
