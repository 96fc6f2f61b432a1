import Barrage.Pattern.Instant

/-!
# Patterns over time

* A radial wave repeats a radial.  The waves are fired one after the other, and
  the waves before one that fails remain.
* A timed line fires bullets one after the other in one direction.
-/

namespace Barrage

/-- A radial that is repeated. -/
structure RadialWave where
  radial : Radial
  waves : Nat
  /-- Seconds from one wave to the next. -/
  interval : Float
deriving DecidableEq

/-- Bullets that leave one after the other. -/
structure TimedLine where
  bullets : Nat
  /-- Seconds from one bullet to the next. -/
  gap : Float
  /-- The travel time of each bullet. -/
  duration : Float
  distance : Float
deriving DecidableEq

namespace Pattern

/-- Refuses a wave pattern before its first wave. -/
def checkWaves (ctx : Context) (time : Float) (template : Nat) (w : RadialWave) :
    Except BuildError Unit := do
  if w.waves = 0 then
    throw (.pattern .noWaves)
  if w.waves = 1 then
    throw (.pattern .singleWave)
  if ¬ 0.0 ≤ w.interval then
    throw (.pattern (.negative .interval w.interval))
  Schedule.nonNegative .time time
  let _ ← w.radial.toArc
  let _ ← ctx.enforceTemplate template .arc [Group.bullet, Group.target]

/-- Fires a radial several times. -/
def radialWave (caller : Nat) (time : Float) (template : Nat) (circle : Circle) (w : RadialWave) :
    Build Firing Unit := do
  Build.check fun s => do
    let _ ← s.context.component caller
    checkWaves s.context time template w
  Build.each
    (fun k => radial caller (time + Float.ofNat k * w.interval) template circle w.radial)
    (List.range w.waves)

/-- Checks a timed line and draws its bullets. -/
def aimTimedLine (ctx : Context) (pool : Pool) (time : Float) (template : Nat)
    (emitter direction : Group) (line : TimedLine) : Except BuildError Volley := do
  if line.bullets < 2 then
    throw (.pattern (.tooFewBullets 2 line.bullets))
  if ¬ 0.0 ≤ line.gap then
    throw (.pattern (.negative .spacing line.gap))
  Schedule.nonNegative .time time
  (Tween.linear line.duration).validate
  let c ← ctx.enforceTemplate template .line [Group.bullet]
  ctx.validateGroup emitter
  ctx.validateGroup direction
  let (shots, pool) := pool.take line.bullets
  checkShots ctx shots
  pure
    { assignments := lineAssignments emitter direction shots
      pool
      warning := Context.orientationWarning? pool c }

/-- Spawns the template for one bullet and moves the bullet. -/
def timedShot (caller : Nat) (time : Float) (template : Nat) (direction : Group)
    (line : TimedLine) (a : Assignment) : Build Context Unit := do
  Context.perform caller time (.spawn (.component template) true (.table a.remap) 0.0)
  moveBullet caller time direction line.distance a.bullet line.duration

/-- Fires a timed line. -/
def timedLine (caller : Nat) (time : Float) (template : Nat) (emitter direction : Group)
    (line : TimedLine) : Build Firing Unit := do
  let volley ← Build.check fun s => do
    let _ ← s.context.component caller
    aimTimedLine s.context s.pool time template emitter direction line
  Firing.onContext (Context.warn? volley.warning)
  Firing.onContext (Build.each
    (fun (a, k) => timedShot caller (time + Float.ofNat k * line.gap) template direction line a)
    volley.assignments.zipIdx)
  Firing.setPool volley.pool

end Pattern

end Barrage
