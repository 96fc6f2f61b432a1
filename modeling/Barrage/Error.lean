import Barrage.Group
import Barrage.Number.Layout

/-!
# Causes of failure

Each way in which the compiler can refuse its input is a constructor with the
values that its message needs.  The families follow what is refused: an
argument of a trigger, a remap, a pattern, the structure of the project, a
spawn hazard.  `message` gives the text shown to the user.
-/

namespace Barrage

open Number (Layout)

/-- The text of a list of groups in a message. -/
def groupListText (gs : List Group) : String :=
  "[" ++ ", ".intercalate (gs.map toString) ++ "]"

/-- Quantities that may not be negative. -/
inductive Quantity where
  | time
  | spawnDelay
  | duration
  | hold
  | fadeIn
  | fadeOut
  | interval
  | spacing
deriving Repr, DecidableEq

/-- The name of a quantity in messages. -/
def Quantity.name : Quantity → String
  | .time => "time"
  | .spawnDelay => "spawn delay"
  | .duration => "duration"
  | .hold => "hold"
  | .fadeIn => "fade in"
  | .fadeOut => "fade out"
  | .interval => "interval"
  | .spacing => "spacing"

/-- The message for a quantity that is negative or no number. -/
def negativeMessage (what : Quantity) (value : Float) : String :=
  what.name ++ " must be non-negative, got " ++ Layout.argument.render value

/-! ## Triggers -/

/-- What of an easing a dynamic aim cannot follow. -/
inductive EasingPart where
  | curve
  | rate
deriving Repr, DecidableEq

/-- The name of an easing part in messages. -/
def EasingPart.name : EasingPart → String
  | .curve => "type"
  | .rate => "rate"

/-- A refused argument of a trigger. -/
inductive TriggerError where
  /-- The quantity is below zero or no number. -/
  | negative (what : Quantity) (value : Float)
  /-- No easing curve has this number. -/
  | easingType (id : Int)
  /-- The easing rate is outside its range. -/
  | easingRate (rate : Float)
  /-- The group is neither assigned by hand nor issued. -/
  | groupOutOfRange (group : Group)
  /-- The group is reserved. -/
  | restrictedGroup (group : Group)
  /-- The opacity is no percentage. -/
  | opacity (value : Float)
  /-- The scale factor is not positive. -/
  | scaleFactor (factor : Float)
  /-- The scale factor is one. -/
  | scaleIdentity
  /-- The item number is outside its range. -/
  | itemId (item : Nat)
  /-- The pickup adds nothing. -/
  | pickupNoChange
  /-- The pickup factor is one. -/
  | modifierIdentity
  /-- The pickup factor is not positive. -/
  | modifierFactor (factor : Float)
  /-- A dynamic aim was given an easing. -/
  | dynamicEasing (part : EasingPart)
deriving DecidableEq

/-- The text of a refused trigger argument. -/
def TriggerError.message : TriggerError → String
  | .negative what value => negativeMessage what value
  | .easingType id =>
    "easing type must be an integer between 0 and 18, got " ++ toString id
  | .easingRate rate =>
    "easing rate must be greater than 0.10 and at most 20, got " ++ Layout.argument.render rate
  | .groupOutOfRange g => "group " ++ toString g ++ " is out of valid range"
  | .restrictedGroup g => "group " ++ toString g ++ " is restricted due to known conflicts"
  | .opacity value => "opacity must be between 0 and 100, got " ++ Layout.argument.render value
  | .scaleFactor factor => "scale factor must be positive, got " ++ Layout.argument.render factor
  | .scaleIdentity => "scale factor of 1 has no effect"
  | .itemId item => "item id must be a positive integer up to 9999, got " ++ toString item
  | .pickupNoChange => "pickup count of 0 makes no change"
  | .modifierIdentity => "pickup factor of 1 has no effect"
  | .modifierFactor factor => "pickup factor must be positive, got " ++ Layout.argument.render factor
  | .dynamicEasing part =>
    "dynamic point-to-group ignores easing, remove the easing " ++ part.name

/-! ## Remaps -/

/-- A refused remap. -/
inductive RemapError where
  /-- The text is empty. -/
  | empty
  /-- The text has an odd number of parts. -/
  | oddParts (text : String)
  /-- A part is no group number. -/
  | invalidToken (token : String)
  /-- A group is mapped twice. -/
  | duplicateSource (source : Group)
  /-- Two groups of a strict remap are mapped to one. -/
  | duplicateTarget (target : Group)
  /-- Every pair of the text maps a group to itself. -/
  | emptyAfterCleaning (text : String)
deriving Repr, DecidableEq

/-- The text of a refused remap. -/
def RemapError.message : RemapError → String
  | .empty => "remap string is empty"
  | .oddParts text => "remap string must contain an even number of parts: '" ++ text ++ "'"
  | .invalidToken token => "remap token '" ++ token ++ "' is not a group id"
  | .duplicateSource g =>
    "Duplicate source " ++ toString g ++ " in remap: one group cannot map to several targets"
  | .duplicateTarget g => "duplicate target " ++ toString g ++ " in remap builder"
  | .emptyAfterCleaning text =>
    "remap '" ++ text ++ "' is empty after removing redundant mappings"

/-! ## Patterns -/

/-- The families of patterns that make demands on their template. -/
inductive PatternFamily where
  | arc
  | line
deriving Repr, DecidableEq

/-- The name of a pattern family in messages. -/
def PatternFamily.name : PatternFamily → String
  | .arc => "Arc"
  | .line => "Line"

/-- A refused pattern. -/
inductive PatternError where
  /-- The template does not require spawn order. -/
  | spawnOrderRequired (family : PatternFamily)
  /-- The template does not address these groups. -/
  | missingTargets (family : PatternFamily) (groups : List Group)
  /-- The template addresses these groups. -/
  | forbiddenTargets (family : PatternFamily) (groups : List Group)
  /-- The spacing is no angle of a circle. -/
  | spacing (degrees : Nat)
  /-- The number of bullets is outside its range. -/
  | bulletCount (count : Nat)
  /-- The bullets need more than a circle. -/
  | arcTooWide (count degrees : Nat)
  /-- The center is no multiple of half a degree. -/
  | centerFraction (center : Float)
  /-- An odd number of bullets lies around a half degree. -/
  | oddBulletsCenter (center : Float)
  /-- An even number of bullets at odd spacing lies around a whole degree. -/
  | evenBulletsOddSpacingCenter (center : Float)
  /-- An even number of bullets at even spacing lies around a half degree. -/
  | evenBulletsEvenSpacingCenter (center : Float)
  /-- The first bullet lies between two degrees. -/
  | fractionalStart (start : Float)
  /-- A radial has neither a number of bullets nor a spacing. -/
  | radialUnderspecified
  /-- The number of bullets and the spacing of a radial do not fill the circle. -/
  | radialMismatch (degrees count : Nat)
  /-- The spacing of a radial does not divide the circle. -/
  | radialSpacingFactor (degrees : Nat)
  /-- The number of bullets of a radial does not divide the circle. -/
  | radialCountFactor (count : Nat)
  /-- The fastest bullet of a line has no positive time. -/
  | fastestTime (time : Float)
  /-- The slowest bullet of a line is not slower than the fastest. -/
  | lineTiming (fastest slowest : Float)
  /-- The pattern needs more bullets. -/
  | tooFewBullets (least got : Nat)
  /-- A wave pattern without waves. -/
  | noWaves
  /-- A wave pattern with one wave. -/
  | singleWave
  /-- The quantity is below zero or no number. -/
  | negative (what : Quantity) (value : Float)
  /-- A burst with nothing to spawn. -/
  | emptyMultitarget
  /-- A burst with more instances than the bases can spawn. -/
  | multitargetCapacity (requested ceiling : Nat)
  /-- A range whose first number is above its last. -/
  | emptyRange (first last : Nat)
deriving DecidableEq

/-- The text of a refused pattern. -/
def PatternError.message : PatternError → String
  | .spawnOrderRequired family =>
    family.name ++ ": template component must require spawn order"
  | .missingTargets family gs =>
    family.name ++ ": template component must target groups " ++ groupListText gs
  | .forbiddenTargets family gs =>
    family.name ++ ": template component must not target groups " ++ groupListText gs
  | .spacing s => "spacing must be between 1 and 360, got " ++ toString s
  | .bulletCount n => "numBullets must be between 1 and 360, got " ++ toString n
  | .arcTooWide n s =>
    "arc of " ++ toString n ++ " bullets at " ++ toString s
      ++ " degree spacing exceeds 360 degrees"
  | .centerFraction c =>
    "centerAt must be an integer or integer.5, got " ++ Layout.argument.render c
  | .oddBulletsCenter c =>
    "odd bullets requires integer centerAt, got " ++ Layout.argument.render c
  | .evenBulletsOddSpacingCenter c =>
    "even bullets with odd spacing requires centerAt ending in .5, got "
      ++ Layout.argument.render c
  | .evenBulletsEvenSpacingCenter c =>
    "even bullets with even spacing requires integer centerAt, got " ++ Layout.argument.render c
  | .fractionalStart s =>
    "arc starts at " ++ Layout.argument.render s ++ " degrees, which is not a whole degree"
  | .radialUnderspecified => "radial must provide spacing or numBullets"
  | .radialMismatch s n =>
    "radial spacing " ++ toString s ++ " and numBullets " ++ toString n ++ " don't match"
  | .radialSpacingFactor s => "radial spacing must be a factor of 360, got " ++ toString s
  | .radialCountFactor n => "radial numBullets must be a factor of 360, got " ++ toString n
  | .fastestTime t => "fastestTime must be positive, got " ++ Layout.argument.render t
  | .lineTiming fastest slowest =>
    "slowestTime must be greater than fastestTime, got " ++ Layout.argument.render slowest
      ++ " and " ++ Layout.argument.render fastest
  | .tooFewBullets least got =>
    "numBullets must be at least " ++ toString least ++ ", got " ++ toString got
  | .noWaves => "waves must be at least 1"
  | .singleWave => "a single wave is a plain radial, use Radial instead"
  | .negative what value => negativeMessage what value
  | .emptyMultitarget => "multitarget count must be at least 1"
  | .multitargetCapacity requested ceiling =>
    "multitarget count " ++ toString requested ++ " exceeds capacity " ++ toString ceiling
  | .emptyRange first last =>
    "number range " ++ toString first ++ "..=" ++ toString last ++ " is empty"

/-! ## Structure -/

/-- What is wrong with a configuration. -/
inductive ConfigFault where
  /-- The number of tiers is outside its range. -/
  | tiers (got : Nat)
  /-- Issued groups would collide with hand-assigned ones. -/
  | unknownStart (start greatest : Group)
  /-- The scratch area leaves the hand-assigned groups. -/
  | scratchOutside (first last greatest : Group)
  /-- The scratch area holds a reserved group. -/
  | scratchReserved (group : Group)
deriving Repr, DecidableEq

/-- The text of a configuration fault. -/
def ConfigFault.message : ConfigFault → String
  | .tiers got => "multitarget_tiers must be between 1 and 16, got " ++ toString got
  | .unknownStart start greatest =>
    "unknown_group_start " ++ toString start ++ " must be above max_group " ++ toString greatest
  | .scratchOutside first last greatest =>
    "scratch groups " ++ toString first ++ "..=" ++ toString last
      ++ " must lie within 1..=" ++ toString greatest
  | .scratchReserved g => "scratch area overlaps reserved group " ++ toString g

/-- A misuse of components, group contexts and registries. -/
inductive StructureError where
  /-- The component already has a group context. -/
  | nestedGroupContext (component : String)
  /-- The component has no group context. -/
  | noGroupContext (component : String)
  /-- The component has no record to widen. -/
  | noTriggers (component : String)
  /-- A group is listed twice. -/
  | duplicateGroup (group : Group)
  /-- No group is listed. -/
  | emptyGroups
  /-- The bases are already built. -/
  | alreadyInitialized
  /-- No component has this number. -/
  | unknownComponent (index : Nat)
  /-- No spell has this number. -/
  | unknownSpell (index : Nat)
  /-- The configuration is refused. -/
  | invalidConfig (fault : ConfigFault)
deriving Repr, DecidableEq

/-- The text of a misuse. -/
def StructureError.message : StructureError → String
  | .nestedGroupContext name => "component '" ++ name ++ "' already has an active group context"
  | .noGroupContext name => "component '" ++ name ++ "' has no active group context"
  | .noTriggers name => "component '" ++ name ++ "' has no triggers"
  | .duplicateGroup g => "duplicate group " ++ toString g
  | .emptyGroups => "at least one group is required"
  | .alreadyInitialized => "multitarget registry is already initialized"
  | .unknownComponent i => "component handle #" ++ toString i ++ " is not registered"
  | .unknownSpell i => "spell handle " ++ toString i ++ " is not registered"
  | .invalidConfig fault => "invalid compiler config: " ++ fault.message

/-! ## Hazards and builds -/

/-- Simultaneous spawns that the game would run only once. -/
inductive HazardError where
  /-- The component itself spawns the group several times at one place. -/
  | direct (component : String) (group : Group) (x : Float) (expected : Nat)
  /-- A remapped spawn of the component sends several spawns into the group. -/
  | indirect (component : String) (activated group : Group) (expected : Nat)
deriving DecidableEq

/-- The text of a hazard. -/
def HazardError.message : HazardError → String
  | .direct component group x expected =>
    "component '" ++ component ++ "': " ++ toString expected ++ " simultaneous spawns of group "
      ++ toString group ++ " at x=" ++ Layout.quantity.render x ++ " collapse into one (expected "
      ++ toString expected ++ " executions, actual 1)"
  | .indirect component activated group expected =>
    "component '" ++ component ++ "': remapped spawn of group " ++ toString activated ++ " sends "
      ++ toString expected ++ " simultaneous spawns into group " ++ toString group ++ " (expected "
      ++ toString expected ++ " executions, actual 1)"

/-- Anything that can go wrong while components are built. -/
inductive BuildError where
  | trigger (cause : TriggerError)
  | remap (cause : RemapError)
  | pattern (cause : PatternError)
  | misuse (cause : StructureError)
deriving DecidableEq

/-- The text of a build failure: that of its cause. -/
def BuildError.message : BuildError → String
  | .trigger cause => cause.message
  | .remap cause => cause.message
  | .pattern cause => cause.message
  | .misuse cause => cause.message

end Barrage
