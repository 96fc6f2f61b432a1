/-!
# Warnings and events

A warning tells of input that is accepted but probably not meant.  An event is
a line of the log: how loud it is, which part of the program speaks, and what
it says.  Every warning is an event too.
-/

namespace Barrage

/-- Accepted input that is probably not meant. -/
inductive Warning where
  /-- A remap text has pairs that change nothing, or spells groups in an unusual
  way. -/
  | redundantRemap (given cleaned : String)
  /-- A burst spawns a template that itself spawns. -/
  | multitargetIntoSpawner (component : String)
  /-- An arc fills the circle. -/
  | arcClosesCircle (bullets spacing : Nat)
  /-- Bullets that need an aim are used with a template that gives none. -/
  | missingOrientation (component : String)
deriving Repr, DecidableEq

/-- The text of a warning. -/
def Warning.message : Warning → String
  | .redundantRemap given cleaned =>
    "redundant remap '" ++ given ++ "' cleaned to '" ++ cleaned ++ "'"
  | .multitargetIntoSpawner component =>
    "multitarget template '" ++ component
      ++ "' contains spawn triggers; nested spawns may collapse"
  | .arcClosesCircle bullets spacing =>
    "arc of " ++ toString bullets ++ " bullets at " ++ toString spacing
      ++ " degrees closes the circle, use Radial"
  | .missingOrientation component =>
    "oriented bullet pool used with template '" ++ component ++ "' that has no aim rotation"

/-- How loud an event is. -/
inductive Level where
  | debug
  | info
  | warn
deriving Repr, DecidableEq

/-- The name of a level in the log. -/
def Level.name : Level → String
  | .debug => "DEBUG"
  | .info => "INFO"
  | .warn => "WARN"

/-- The part of the program that an event comes from. -/
inductive Origin where
  | program
  | compiler
  | warnings
  | bursts
  | exporter
  | statistics
deriving Repr, DecidableEq

/-- The name of an origin in the log. -/
def Origin.name : Origin → String
  | .program => "shard"
  | .compiler => "shard_core"
  | .warnings => "shard_core::diagnostics"
  | .bursts => "shard_core::multitarget"
  | .exporter => "shard_export"
  | .statistics => "shard_export::stats"

/-- A line of the log. -/
structure Event where
  level : Level
  origin : Origin
  text : String
deriving Repr, DecidableEq

namespace Event

/-- The event of a warning. -/
def ofWarning (w : Warning) : Event := ⟨.warn, .warnings, w.message⟩

/-- The event as a line of the log. -/
def line (e : Event) : String := e.level.name ++ " " ++ e.origin.name ++ ": " ++ e.text

end Event

end Barrage
