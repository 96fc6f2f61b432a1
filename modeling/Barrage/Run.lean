import Barrage.Export.Save
import Barrage.Stage

/-!
# A run of the program

A run reads its settings, builds the demo stage, exports it and compares it with
the budget.  It ends in the events that it logged and, when it failed, in a
report of the failure.
-/

namespace Barrage

/-- Why a run failed. -/
structure Failure where
  message : String
  /-- What lies behind it. -/
  cause : Option String := none
deriving Repr, DecidableEq

/-- The report of a failure. -/
def Failure.report (f : Failure) : String :=
  "Error: " ++ f.message
    ++ (match f.cause with
      | none => ""
      | some cause => "\n\nCaused by:\n    " ++ cause)

/-- The failure of an export.  Behind a file that cannot be written lies the
disk. -/
def Failure.ofExport (e : ExportError) : Failure where
  message := e.message
  cause :=
    match e with
    | .disk _ cause => some cause.message
    | _ => none

/-- What a run ended in. -/
structure Outcome where
  events : List Event
  failure : Option Failure
deriving Repr, DecidableEq

namespace Run

/-- The first line of the log. -/
def banner : Event := ⟨.info, .program, "Shard compiler v0.1.0"⟩

variable {m : Type → Type} [Monad m]

/-- The settings of a run: those in a file, or the defaults. -/
def loadSettings (disk : Disk m) : Option String → m (Except Failure Settings)
  | none => pure (.ok {})
  | some path => do
    match ← disk.read path with
    | .error e => pure (.error ⟨"reading settings from " ++ path, some e.message⟩)
    | .ok text =>
      match Settings.parse text with
      | none => pure (.error ⟨"parsing settings in " ++ path, none⟩)
      | some settings => pure (.ok settings)

/-- The line of the log that counts warnings, if there are any. -/
def warningCount (ctx : Context) : List Event :=
  if ctx.warnings = [] then
    []
  else
    [⟨.info, .program, "Stage compiled with " ++ toString ctx.warnings.length ++ " warnings"⟩]

/-- The verdict on the budget. -/
def overBudget? (t : Tally) : Option Failure :=
  if t.remaining < 0 then
    some ⟨"stage uses " ++ toString t.total ++ " triggers, over the budget of "
      ++ toString t.budget, none⟩
  else
    none

/-- Builds the stage with settings and exports it. -/
def compile (disk : Disk m) (settings : Settings) : m Outcome :=
  match Context.withConfig settings.compiler with
  | .error e => pure ⟨[banner], some ⟨e.message, none⟩⟩
  | .ok ctx =>
    match Stage.build ctx with
    | (.error e, ctx) => pure ⟨banner :: ctx.journal, some ⟨e.message, none⟩⟩
    | (.ok (), ctx) => do
      let (result, events) ← ctx.exportTo disk settings.exporter
      let events := banner :: ctx.journal ++ warningCount ctx ++ events
      match result with
      | .error e => pure ⟨events, some (.ofExport e)⟩
      | .ok tally => pure ⟨events, overBudget? tally⟩

/-- Runs the program with a path to settings, or without. -/
def run (disk : Disk m) (argument : Option String) : m Outcome := do
  match ← loadSettings disk argument with
  | .error failure => pure ⟨[banner], some failure⟩
  | .ok settings => compile disk settings

end Run

end Barrage
