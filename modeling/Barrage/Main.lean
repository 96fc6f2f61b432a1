import Barrage.Run

/-!
# The command line

The program takes the path of a settings file, or nothing.  The log goes to
standard output and the report of a failure to standard error.
-/

namespace Barrage

/-- The reason of a failed file operation. -/
def DiskError.ofError : IO.Error → DiskError
  | .noFileOrDirectory _ _ _ => .notFound
  | .resourceBusy _ _ => .busy
  | .inappropriateType _ code details =>
    if code = 20 then .notDirectory else if code = 21 then .isDirectory else .other details
  | e => .other (toString e)

/-- A file operation with its failure as a value. -/
def attemptFile {α : Type} (x : IO α) : IO (Except DiskError α) := do
  match ← x.toBaseIO with
  | .ok a => pure (.ok a)
  | .error e => pure (.error (.ofError e))

/-- The disk of the machine. -/
def machineDisk : Disk IO where
  read path := attemptFile (IO.FS.readFile path)
  write path text := attemptFile (IO.FS.writeFile path text)
  rename source target := attemptFile (IO.FS.rename source target)
  remove path := attemptFile (IO.FS.removeFile path)

end Barrage

/-- Compiles the demo stage. -/
def main (args : List String) : IO UInt32 := do
  let outcome ← Barrage.Run.run Barrage.machineDisk args.head?
  for event in outcome.events do
    if event.level ≠ .debug then
      IO.println event.line
  match outcome.failure with
  | none => pure 0
  | some failure =>
    IO.eprintln failure.report
    pure 1
