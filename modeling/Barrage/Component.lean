import Barrage.Record.Basic

/-!
# Components

A component is a named list of records that one group runs.  While a *group
context* is open, every new record also belongs to the groups of the context.
The last record can be given further groups afterwards.
-/

namespace Barrage

/-- A named list of records. -/
structure Component where
  /-- The name, for messages. -/
  name : String
  /-- The group that runs the component. -/
  caller : Group
  /-- The layer of the editor. -/
  layer : Nat
  /-- Groups of the open group context. -/
  context : Option (List Group) := none
  /-- Must the records keep their order?  `none` until it was said. -/
  spawnOrder : Option Bool := none
  /-- The records, oldest first. -/
  records : List Record := []
deriving DecidableEq

namespace Component

/-- Was it said that the records must keep their order? -/
def requiresSpawnOrder (c : Component) : Bool := c.spawnOrder = some true

/-- Has the component a spawn? -/
def hasSpawn (c : Component) : Bool := c.records.any Record.isSpawn

/-- Does a record of the component aim? -/
def hasAim (c : Component) : Bool := c.records.any fun r => r.effect.isAim

/-- The groups that records of the component refer to, with repetitions. -/
def groupRefs (c : Component) : List Group := c.records.flatMap fun r => r.effect.groupRefs

/-- Does a record of the component refer to the group? -/
def refersTo (c : Component) (g : Group) : Bool := c.groupRefs.contains g

/-- The groups of the next record: the caller, then the context. -/
def recordGroups (c : Component) : List Group := c.caller :: c.context.getD []

/-- Adds a record at the end. -/
def push (c : Component) (r : Record) : Component := { c with records := c.records ++ [r] }

/-- The first group that stands in the list a second time. -/
def firstRepeated? : List Group → List Group → Option Group
  | _, [] => none
  | seen, g :: rest => if g ∈ seen then some g else firstRepeated? (g :: seen) rest

/-- A list of groups must not be empty and must not repeat a group. -/
def checkGroups (gs : List Group) : Except StructureError Unit :=
  if gs = [] then
    .error .emptyGroups
  else
    match firstRepeated? [] gs with
    | some g => .error (.duplicateGroup g)
    | none => .ok ()

/-- Opens a group context. -/
def startContext (c : Component) (gs : List Group) : Except StructureError Component := do
  if c.context.isSome then
    throw (.nestedGroupContext c.name)
  checkGroups gs
  pure { c with context := some gs }

/-- Closes the group context. -/
def endContext (c : Component) : Except StructureError Component :=
  if c.context.isSome then .ok { c with context := none } else .error (.noGroupContext c.name)

/-- Adds groups to a list one by one, up to the first that it already has. -/
def addGroups : List Group → List Group → Except StructureError Unit × List Group
  | current, [] => (.ok (), current)
  | current, g :: rest =>
    if g ∈ current then (.error (.duplicateGroup g), current) else addGroups (current ++ [g]) rest

/-- Changes the last record. -/
def mapLast (f : Record → Record) : List Record → List Record
  | [] => []
  | [r] => [f r]
  | r :: rest => r :: mapLast f rest

/-- Adds groups to the last record.  Those before a repeated one stay added. -/
def groupLast (c : Component) (gs : List Group) : Except StructureError Unit × Component :=
  match checkGroups gs with
  | .error e => (.error e, c)
  | .ok () =>
    match c.records.getLast? with
    | none => (.error (.noTriggers c.name), c)
    | some last =>
      let (result, groups) := addGroups last.groups gs
      (result, { c with records := mapLast (fun r => { r with groups }) c.records })

end Component

end Barrage
