import Barrage.Error

/-!
# Easings and tweens

An easing is one of nineteen curves that shape an animation.  A tween is a
duration with an easing and the rate of its curve.
-/

namespace Barrage

/-- The curve of an animation. -/
inductive Easing where
  | none
  | easeInOut
  | easeIn
  | easeOut
  | elasticInOut
  | elasticIn
  | elasticOut
  | bounceInOut
  | bounceIn
  | bounceOut
  | exponentialInOut
  | exponentialIn
  | exponentialOut
  | sineInOut
  | sineIn
  | sineOut
  | backInOut
  | backIn
  | backOut
deriving Repr, DecidableEq

namespace Easing

/-- The number of an easing in a document. -/
def id : Easing → Nat
  | .none => 0
  | .easeInOut => 1
  | .easeIn => 2
  | .easeOut => 3
  | .elasticInOut => 4
  | .elasticIn => 5
  | .elasticOut => 6
  | .bounceInOut => 7
  | .bounceIn => 8
  | .bounceOut => 9
  | .exponentialInOut => 10
  | .exponentialIn => 11
  | .exponentialOut => 12
  | .sineInOut => 13
  | .sineIn => 14
  | .sineOut => 15
  | .backInOut => 16
  | .backIn => 17
  | .backOut => 18

/-- The name of an easing. -/
def name : Easing → String
  | .none => "None"
  | .easeInOut => "EaseInOut"
  | .easeIn => "EaseIn"
  | .easeOut => "EaseOut"
  | .elasticInOut => "ElasticInOut"
  | .elasticIn => "ElasticIn"
  | .elasticOut => "ElasticOut"
  | .bounceInOut => "BounceInOut"
  | .bounceIn => "BounceIn"
  | .bounceOut => "BounceOut"
  | .exponentialInOut => "ExponentialInOut"
  | .exponentialIn => "ExponentialIn"
  | .exponentialOut => "ExponentialOut"
  | .sineInOut => "SineInOut"
  | .sineIn => "SineIn"
  | .sineOut => "SineOut"
  | .backInOut => "BackInOut"
  | .backIn => "BackIn"
  | .backOut => "BackOut"

/-- All easings, in the order of their numbers. -/
def all : List Easing :=
  [.none, .easeInOut, .easeIn, .easeOut, .elasticInOut, .elasticIn, .elasticOut, .bounceInOut,
    .bounceIn, .bounceOut, .exponentialInOut, .exponentialIn, .exponentialOut, .sineInOut, .sineIn,
    .sineOut, .backInOut, .backIn, .backOut]

/-- The easing with a number. -/
def ofId (id : Int) : Except TriggerError Easing :=
  match all.find? fun e => (e.id : Int) = id with
  | some e => .ok e
  | Option.none => .error (.easingType id)

end Easing

/-- The timing of an animation. -/
structure Tween where
  /-- How long it takes. -/
  duration : Float
  /-- Its curve. -/
  easing : Easing := .none
  /-- How strong the curve is. -/
  rate : Float := 1.0
deriving DecidableEq

namespace Tween

/-- No animation at all. -/
def instant : Tween := { duration := 0.0 }

/-- A linear animation. -/
def linear (duration : Float) : Tween := { duration }

/-- The duration may not be negative, and the rate lies above 0.1 and not above
20. -/
def validate (t : Tween) : Except TriggerError Unit :=
  if t.duration < 0.0 ∨ t.duration.isNaN then
    .error (.negative .duration t.duration)
  else if 0.10 < t.rate ∧ t.rate ≤ 20.0 then
    .ok ()
  else
    .error (.easingRate t.rate)

end Tween

end Barrage
