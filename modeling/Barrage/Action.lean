import Barrage.Build
import Barrage.Context.Basic

/-!
# Actions

An action is a request for one record.  It is checked against the context, and
either it is refused and nothing changes, or one record is appended to one
component.  The checks of an action come first, then its target, its time and
the groups of its component.

A spawn whose remap is not in its shortest form is accepted with a warning.
-/

namespace Barrage

/-- What a spawn or a toggle acts on. -/
inductive Target where
  | group (g : Group)
  /-- A component stands for the group that runs it. -/
  | component (i : Nat)
deriving Repr, DecidableEq

/-- The remap of a spawn, as it is requested. -/
inductive RemapRequest where
  | none
  | text (s : String)
  | table (r : Remap)
deriving DecidableEq

/-- The request without pairs that change nothing.  An empty text and an empty
table request no remap. -/
def RemapRequest.clean : RemapRequest → Except RemapError (Option Remap.Cleaned)
  | .none => .ok Option.none
  | .text s => if s = "" then .ok Option.none else some <$> Remap.cleanText s
  | .table r => if r.isEmpty then .ok Option.none else some <$> r.clean

/-- A request for a record. -/
inductive Action where
  /-- Runs the target. -/
  | spawn (target : Target) (ordered : Bool) (remap : RemapRequest) (delay : Float)
  /-- Switches the target on or off. -/
  | toggle (target : Target) (activate : Bool)
  /-- Moves the target some way toward a group. -/
  | moveTowards (target direction : Group) (distance : Float) (tween : Tween) (dynamic : Bool)
  /-- Moves the target by a vector. -/
  | moveBy (target : Group) (dx dy : Float) (tween : Tween)
  /-- Moves the target onto a group. -/
  | moveTo (target location : Group) (tween : Tween)
  /-- Turns the target around a group, or around itself. -/
  | rotate (target : Group) (angle : Float) (center : Option Group) (tween : Tween)
  /-- Turns the target toward a group. -/
  | aim (target direction : Group) (tween : Tween) (dynamic : Bool)
  /-- Tints the target. -/
  | pulse (target : Group) (color : Color) (timing : PulseTiming) (exclusive : Bool)
  /-- Fades the target to a percentage. -/
  | alpha (target : Group) (opacity duration : Float)
  /-- Makes the target copy the motion of a group. -/
  | follow (target leader : Group) (duration : Float)
  /-- Stops, pauses or resumes the target. -/
  | stop (target : Group) (mode : StopMode) (useControlId : Bool)
  /-- Switches the target when two blocks touch. -/
  | collision (target : Group) (blockA blockB : Nat) (activate : Bool)
  /-- Switches the target when an item has a count. -/
  | count (target : Group) (item : Nat) (number : Int) (activate : Bool)
  /-- Adds to an item, or sets it. -/
  | pickup (item : Nat) (number : Int) (overwrite : Bool)
  /-- Multiplies or divides an item. -/
  | pickupModify (item : Nat) (factor : Float) (mode : PickupMode)
deriving DecidableEq

namespace Context

/-- The group of a target. -/
def resolve (ctx : Context) : Target → Except StructureError Group
  | .group g => .ok g
  | .component i => do
    let c ← ctx.component i
    pure c.caller

end Context

/-- An item has a number from 1 to 9999. -/
def checkItem (item : Nat) : Except TriggerError Unit :=
  if 1 ≤ item ∧ item ≤ 9999 then .ok () else .error (.itemId item)

namespace Action

open Schedule (nonNegative)

/-- The effect of an action, or why it is refused. -/
def effect (ctx : Context) : Action → Except BuildError Effect
  | .spawn target ordered remap delay => do
    let g ← ctx.resolve target
    nonNegative .spawnDelay delay
    let cleaned ← remap.clean
    pure (.spawn g ordered (if 0.0 < delay then some delay else none) (cleaned.map (·.table)))
  | .toggle target activate => do
    let g ← ctx.resolve target
    pure (.toggle g activate)
  | .moveTowards target direction distance tween dynamic => do
    tween.validate
    ctx.validateGroup direction
    pure (.moveTowards target direction distance tween dynamic)
  | .moveBy target dx dy tween => do
    tween.validate
    pure (.moveBy target dx dy tween)
  | .moveTo target location tween => do
    tween.validate
    ctx.validateGroup location
    pure (.moveTo target location tween)
  | .rotate target angle center tween => do
    tween.validate
    ctx.validateGroups center.toList
    pure (.rotate target (center.getD target) angle tween)
  | .aim target direction tween dynamic => do
    tween.validate
    if dynamic ∧ tween.easing ≠ .none then
      throw (.trigger (.dynamicEasing .curve))
    if dynamic ∧ tween.rate != 1.0 then
      throw (.trigger (.dynamicEasing .rate))
    ctx.validateGroup direction
    pure (.aim target direction tween dynamic)
  | .pulse target color timing exclusive => do
    nonNegative .fadeIn timing.fadeIn
    nonNegative .hold timing.hold
    nonNegative .fadeOut timing.fadeOut
    pure (.pulse target color timing exclusive)
  | .alpha target opacity duration => do
    if ¬ (0.0 ≤ opacity ∧ opacity ≤ 100.0) then
      throw (.trigger (.opacity opacity))
    nonNegative .duration duration
    pure (.alpha target (opacity / 100.0) duration)
  | .follow target leader duration => do
    nonNegative .duration duration
    ctx.validateGroup leader
    pure (.follow target leader duration)
  | .stop target mode useControlId => pure (.stop target mode useControlId)
  | .collision target blockA blockB activate => pure (.collision target blockA blockB activate)
  | .count target item number activate => do
    checkItem item
    pure (.count target item number activate)
  | .pickup item number overwrite => do
    checkItem item
    if number = 0 then
      throw (.trigger .pickupNoChange)
    pure (.pickup item number overwrite)
  | .pickupModify item factor mode => do
    checkItem item
    if factor == 1.0 then
      throw (.trigger .modifierIdentity)
    if ¬ 0.0 < factor then
      throw (.trigger (.modifierFactor factor))
    pure (.pickupModify item factor mode)

/-- The warning that an accepted action gives. -/
def warning? : Action → Option Warning
  | .spawn _ _ remap _ =>
    match remap.clean with
    | .ok (some cleaned) =>
      if cleaned.changed then some (.redundantRemap cleaned.given cleaned.table.wire) else none
    | _ => none
  | _ => none

end Action

namespace Context

/-- The record of an effect in a component at a time.  Its target, its time and
the groups of the component are checked. -/
def place (ctx : Context) (c : Component) (time : Float) (e : Effect) :
    Except BuildError Record := do
  ctx.validateGroups e.target?.toList
  Schedule.nonNegative .time time
  ctx.validateGroups c.recordGroups
  pure { x := Schedule.distance time, groups := c.recordGroups, layer := c.layer, effect := e }

/-- The record of an action in a component at a time. -/
def draft (ctx : Context) (i : Nat) (time : Float) (a : Action) : Except BuildError Record := do
  let c ← ctx.component i
  let e ← a.effect ctx
  ctx.place c time e

/-- Appends a record to a component. -/
def append (ctx : Context) (i : Nat) (r : Record) : Context :=
  { ctx with components := ctx.components.modify i (·.push r) }

/-- Carries out an action in a component at a time. -/
def perform (i : Nat) (time : Float) (a : Action) : Build Context Unit := fun ctx =>
  match ctx.draft i time a with
  | .error e => (.error e, ctx)
  | .ok r =>
    let ctx := a.warning?.elim ctx ctx.warn
    (.ok (), ctx.append i r)

/-- Appends the record of an effect to a component. -/
def inscribe (i : Nat) (time : Float) (e : Effect) : Build Context Unit := fun ctx =>
  match (do let c ← ctx.component i; ctx.place c time e : Except BuildError Record) with
  | .error e => (.error e, ctx)
  | .ok r => (.ok (), ctx.append i r)

/-! ## Structure of a component -/

/-- Says whether the records of a component must keep their order. -/
def assertSpawnOrder (i : Nat) (required : Bool) : Build Context Unit := fun ctx =>
  match ctx.component i with
  | .error e => (.error (.misuse e), ctx)
  | .ok c => (.ok (), ctx.setComponent i { c with spawnOrder := some required })

/-- Opens a group context in a component. -/
def startGroupContext (i : Nat) (gs : List Group) : Build Context Unit := fun ctx =>
  let result : Except BuildError Component := do
    let c ← ctx.component i
    ctx.validateGroups gs
    c.startContext gs
  match result with
  | .error e => (.error e, ctx)
  | .ok c => (.ok (), ctx.setComponent i c)

/-- Closes the group context of a component. -/
def endGroupContext (i : Nat) : Build Context Unit := fun ctx =>
  let result : Except BuildError Component := do
    let c ← ctx.component i
    c.endContext
  match result with
  | .error e => (.error e, ctx)
  | .ok c => (.ok (), ctx.setComponent i c)

/-- Adds groups to the last record of a component.  When one of them is already
there, those before it stay added. -/
def groupLastRecord (i : Nat) (gs : List Group) : Build Context Unit := fun ctx =>
  let result : Except BuildError Component := do
    let c ← ctx.component i
    ctx.validateGroups gs
    pure c
  match result with
  | .error e => (.error e, ctx)
  | .ok c =>
    let (outcome, c) := c.groupLast gs
    (outcome.mapError .misuse, ctx.setComponent i c)

end Context

end Barrage
