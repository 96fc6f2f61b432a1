import Barrage.Burst.Fire
import Barrage.Pool

/-!
# Patterns

A pattern fires a template component once per bullet of a pool.  It draws the
bullets from a copy of the pool, and the pool itself advances only when the
whole pattern is out.

This module holds what patterns share: the demands on a template, and the state
they work on.
-/

namespace Barrage

/-- What a pattern works on: the context, and the pool it draws from. -/
structure Firing where
  context : Context
  pool : Pool

namespace Firing

/-- A step on the context is a step of a pattern. -/
def onContext {α : Type} (x : Build Context α) : Build Firing α := fun s =>
  let (result, context) := x s.context
  (result, { s with context })

/-- Puts the pool at another place. -/
def setPool (pool : Pool) : Build Firing Unit := fun s => (.ok (), { s with pool })

end Firing

namespace Context

/-- Refuses a template that does not require spawn order, does not refer to a
required group, or refers to a forbidden one. -/
def enforceTemplate (ctx : Context) (template : Nat) (family : PatternFamily)
    (required : List Group) : Except BuildError Component := do
  let c ← ctx.component template
  if ¬ c.requiresSpawnOrder then
    throw (.pattern (.spawnOrderRequired family))
  let missing := required.filter fun g => ¬ c.refersTo g
  if missing ≠ [] then
    throw (.pattern (.missingTargets family missing))
  if c.refersTo Group.template then
    throw (.pattern (.forbiddenTargets family [Group.template]))
  pure c

/-- The warning for bullets that need an aim and a template that gives none. -/
def orientationWarning? (pool : Pool) (template : Component) : Option Warning :=
  if pool.oriented && !template.hasAim then some (.missingOrientation template.name) else none

/-- Gives a warning, if there is one. -/
def warn? : Option Warning → Build Context Unit
  | none => pure ()
  | some w => Build.change fun ctx => ctx.warn w

end Context

end Barrage
