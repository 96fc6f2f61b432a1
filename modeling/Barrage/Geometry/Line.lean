import Barrage.Error

/-!
# Travel times of a line

The bullets of a line leave together and spread out, because each travels a
little longer than the one before it.
-/

namespace Barrage.Line

/-- Travel times in even steps from the fastest bullet to the slowest. -/
def durations (fastest slowest : Float) (bullets : Nat) : Except PatternError (List Float) := do
  if ¬ 0.0 < fastest then
    throw (.fastestTime fastest)
  if ¬ fastest < slowest then
    throw (.lineTiming fastest slowest)
  if bullets < 3 then
    throw (.tooFewBullets 3 bullets)
  let step := (slowest - fastest) / Float.ofNat (bullets - 1)
  pure ((List.range bullets).map fun i => fastest + step * Float.ofNat i)

end Barrage.Line
