import Barrage.Component
import Barrage.Config
import Barrage.Schedule
import Barrage.Warning

/-!
# The compiler context

A context is all that one compilation has built: components in the order of
their registration, spells that bundle them, fresh groups that were issued, the
caches of keyframes and bases, warnings and the log.

Components and spells are known by their place in the list.  A group is *valid*
in a context if it is not reserved and is either assigned by hand or issued.

The counter of issued groups has no bound here.  What becomes of a compilation
whose counter leaves 32 bits is left out.
-/

namespace Barrage

/-- A named bundle of components. -/
structure Spell where
  name : String
  /-- The group that starts the spell. -/
  caller : Group
  /-- The components, by their numbers, each once. -/
  components : List Nat := []
deriving Repr, DecidableEq

/-- A base component: it spawns the template placeholder as often as its
capacity says. -/
structure Base where
  capacity : Nat
  /-- The number of the component. -/
  component : Nat
  /-- The group that runs it. -/
  group : Group
deriving Repr, DecidableEq

/-- The bases of a compilation, smallest capacity first. -/
structure Bases where
  tiers : List Base
  /-- The first group of the scratch area. -/
  scratchStart : Group
deriving Repr, DecidableEq

/-- An animation that changes the size of a group. -/
structure Scaling where
  factor : Float
  /-- How long the new size is kept. -/
  hold : Float := 0.0
  tween : Tween := Tween.instant
  /-- Is the size changed back? -/
  reverse : Bool := false
deriving DecidableEq

namespace Scaling

/-- The number with a negative zero made positive. -/
def foldZero (x : Float) : Float := x + 0.0

/-- The scaling up to the sign of zeros.  Scalings of one key share a keyframe. -/
def key (s : Scaling) : Scaling where
  factor := foldZero s.factor
  hold := foldZero s.hold
  tween :=
    { duration := foldZero s.tween.duration
      easing := s.tween.easing
      rate := foldZero s.tween.rate }
  reverse := s.reverse

end Scaling

/-- All that a compilation has built. -/
structure Context where
  config : Config
  /-- Components, oldest first. -/
  components : List Component := []
  /-- Spells, oldest first. -/
  spells : List Spell := []
  /-- The group that is issued next. -/
  nextUnknown : Group
  /-- The bases, once they are built. -/
  bases : Option Bases := none
  /-- Keyframe components by the keys of their scalings. -/
  keyframes : List (Scaling × Nat) := []
  /-- Warnings, oldest first. -/
  warnings : List Warning := []
  /-- The log, oldest first. -/
  journal : List Event := []
deriving DecidableEq

namespace Context

/-- A context in which nothing is built. -/
def ofConfig (config : Config) : Context := { config, nextUnknown := config.unknownStart }

/-- A context of a configuration without fault. -/
def withConfig (config : Config) : Except StructureError Context := do
  config.validate
  pure (ofConfig config)

/-- The last group that was issued. -/
def lastUnknown? (ctx : Context) : Option Group :=
  if ctx.config.unknownStart < ctx.nextUnknown then some (ctx.nextUnknown - 1) else none

/-- Was the group issued? -/
def isIssued (ctx : Context) (g : Group) : Bool :=
  ctx.config.unknownStart ≤ g ∧ g < ctx.nextUnknown

/-- Is the group assigned by hand? -/
def isHandAssigned (ctx : Context) (g : Group) : Bool := 1 ≤ g ∧ g ≤ ctx.config.maxGroup

/-- Refuses a group that is not valid. -/
def validateGroup (ctx : Context) (g : Group) : Except TriggerError Unit :=
  if ctx.config.isReserved g then
    .error (.restrictedGroup g)
  else if ctx.isHandAssigned g || ctx.isIssued g then
    .ok ()
  else
    .error (.groupOutOfRange g)

/-- Refuses the first group of a list that is not valid. -/
def validateGroups (ctx : Context) : List Group → Except TriggerError Unit
  | [] => .ok ()
  | g :: rest => do
    ctx.validateGroup g
    ctx.validateGroups rest

/-- A component by its number. -/
def component (ctx : Context) (i : Nat) : Except StructureError Component :=
  match ctx.components[i]? with
  | some c => .ok c
  | none => .error (.unknownComponent i)

/-- Replaces a component. -/
def setComponent (ctx : Context) (i : Nat) (c : Component) : Context :=
  { ctx with components := ctx.components.set i c }

/-- Adds an event to the log. -/
def log (ctx : Context) (e : Event) : Context := { ctx with journal := ctx.journal ++ [e] }

/-- Adds a warning, to the warnings and to the log. -/
def warn (ctx : Context) (w : Warning) : Context :=
  { ctx.log (.ofWarning w) with warnings := ctx.warnings ++ [w] }

/-- Issues a fresh group.  The counter goes on without bound, also beyond
`Group.greatest`. -/
def issueGroup (ctx : Context) : Group × Context :=
  (ctx.nextUnknown, { ctx with nextUnknown := ctx.nextUnknown + 1 })

/-- Registers a component, on the default layer if none is given. -/
def register (ctx : Context) (name : String) (caller : Group) (layer : Option Nat) :
    Nat × Context :=
  let event : Event :=
    ⟨.debug, .compiler, "Registered component '" ++ name ++ "' on group " ++ toString caller⟩
  let component : Component := { name, caller, layer := layer.getD ctx.config.defaultLayer }
  (ctx.components.length, { ctx.log event with components := ctx.components ++ [component] })

/-- Registers a spell. -/
def addSpell (ctx : Context) (name : String) (caller : Group) : Nat × Context :=
  (ctx.spells.length, { ctx with spells := ctx.spells ++ [{ name, caller }] })

/-- Adds a component to a spell, once. -/
def addToSpell (ctx : Context) (spell component : Nat) : Except StructureError Context := do
  let _ ← ctx.component component
  match ctx.spells[spell]? with
  | none => throw (.unknownSpell spell)
  | some s =>
    if component ∈ s.components then
      pure ctx
    else
      let s := { s with components := s.components ++ [component] }
      pure { ctx with spells := ctx.spells.set spell s }

end Context

end Barrage
