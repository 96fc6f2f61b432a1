import Barrage.Circle
import Barrage.Geometry.Arc
import Barrage.Geometry.Line
import Barrage.Pattern.Basic

/-!
# Patterns of one moment

* An arc fires bullets from the center of a circle at anchors on it.
* A radial fires them at anchors all around the circle.
* A line fires bullets from an emitter in one direction, then moves each at a
  speed of its own.
-/

namespace Barrage

/-- Bullets that leave together and travel at different speeds. -/
structure Line where
  bullets : Nat
  /-- The travel time of the first bullet. -/
  fastest : Float
  /-- The travel time of the last bullet. -/
  slowest : Float
  distance : Float
deriving DecidableEq

/-- A pattern that is checked and ready to be fired. -/
structure Volley where
  assignments : List Assignment
  /-- The pool after the bullets were drawn. -/
  pool : Pool
  warning : Option Warning

namespace Pattern

/-- The instances of an arc: a bullet for each angle, aimed at its anchor. -/
def arcAssignments (circle : Circle) (shots : List (Group × Group)) (angles : List Nat) :
    List Assignment :=
  (shots.zip angles).map fun ((bullet, collision), angle) =>
    ⟨bullet, circle.anchor angle, circle.center, collision⟩

/-- Checks an arc and draws its bullets. -/
def aimArc (ctx : Context) (pool : Pool) (time : Float) (template : Nat) (circle : Circle)
    (arc : Arc) : Except BuildError Volley := do
  Schedule.nonNegative .time time
  let _ ← ctx.enforceTemplate template .arc [Group.bullet, Group.target]
  let placed ← arc.place
  ctx.validateGroup circle.center
  let (shots, pool) := pool.take placed.angles.length
  let assignments := arcAssignments circle shots placed.angles
  ctx.validateGroups (assignments.flatMap fun a => [a.bullet, a.collision, a.target])
  let warning :=
    if placed.closes && !arc.anyParity then
      some (.arcClosesCircle arc.bullets arc.spacing)
    else
      none
  pure { assignments, pool, warning }

/-- Fires an arc. -/
def arc (caller : Nat) (time : Float) (template : Nat) (circle : Circle) (arc : Arc) :
    Build Firing Unit := do
  let volley ← Build.check fun s => do
    let _ ← s.context.component caller
    aimArc s.context s.pool time template circle arc
  Firing.onContext (Context.warn? volley.warning)
  Firing.onContext (Context.fire caller time template volley.assignments)
  Firing.setPool volley.pool

/-- Fires a radial. -/
def radial (caller : Nat) (time : Float) (template : Nat) (circle : Circle) (radial : Radial) :
    Build Firing Unit := do
  let arc ← Build.check fun s => do
    let _ ← s.context.component caller
    radial.toArc
  Pattern.arc caller time template circle arc

/-- The instances of a line: all aim in one direction. -/
def lineAssignments (emitter direction : Group) (shots : List (Group × Group)) :
    List Assignment :=
  shots.map fun (bullet, collision) => ⟨bullet, direction, emitter, collision⟩

/-- The groups of a shot must be valid, for each shot. -/
def checkShots (ctx : Context) (shots : List (Group × Group)) : Except TriggerError Unit :=
  ctx.validateGroups (shots.flatMap fun (bullet, collision) => [bullet, collision])

/-- Checks a line and draws its bullets.  Gives its travel times too. -/
def aimLine (ctx : Context) (pool : Pool) (time : Float) (template : Nat)
    (emitter direction : Group) (line : Line) : Except BuildError (Volley × List Float) := do
  Schedule.nonNegative .time time
  let c ← ctx.enforceTemplate template .line [Group.bullet]
  let durations ← Line.durations line.fastest line.slowest line.bullets
  ctx.validateGroup emitter
  ctx.validateGroup direction
  let (shots, pool) := pool.take durations.length
  checkShots ctx shots
  let volley : Volley :=
    { assignments := lineAssignments emitter direction shots
      pool
      warning := Context.orientationWarning? pool c }
  pure (volley, durations)

/-- Moves a bullet one step after it was fired. -/
def moveBullet (caller : Nat) (time : Float) (direction : Group) (distance : Float)
    (bullet : Group) (duration : Float) : Build Context Unit :=
  Context.perform caller (time + Schedule.tick)
    (.moveTowards bullet direction distance (Tween.linear duration) false)

/-- Fires a line and moves its bullets. -/
def line (caller : Nat) (time : Float) (template : Nat) (emitter direction : Group) (line : Line) :
    Build Firing Unit := do
  let (volley, durations) ← Build.check fun s => do
    let _ ← s.context.component caller
    aimLine s.context s.pool time template emitter direction line
  Firing.onContext (Context.warn? volley.warning)
  Firing.onContext (Context.fire caller time template volley.assignments)
  Firing.onContext (Build.each
    (fun (a, duration) => moveBullet caller time direction line.distance a.bullet duration)
    (volley.assignments.zip durations))
  Firing.setPool volley.pool

end Pattern

end Barrage
