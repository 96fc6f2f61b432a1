import Barrage.Error

/-!
# Builds

A build is a step that reads and changes a state and can fail.  It keeps what
it changed before it failed: the state after a failure is the state at that
moment.  So a sequence of builds that fails in the middle leaves the work of its
first part behind.
-/

namespace Barrage

/-- A step on a state that can fail. -/
def Build (σ α : Type) : Type := σ → Except BuildError α × σ

namespace Build

variable {σ α β : Type}

/-- Does nothing and succeeds. -/
def done (a : α) : Build σ α := fun s => (.ok a, s)

/-- Fails where it stands. -/
def fail (e : BuildError) : Build σ α := fun s => (.error e, s)

/-- Runs a step, and a second one if the first succeeds. -/
def andThen (x : Build σ α) (f : α → Build σ β) : Build σ β := fun s =>
  match x s with
  | (.ok a, s) => f a s
  | (.error e, s) => (.error e, s)

instance : Monad (Build σ) where
  pure := done
  bind := andThen

/-- A check that reads the state and changes nothing. -/
def check (f : σ → Except BuildError α) : Build σ α := fun s => (f s, s)

/-- Reads the state. -/
def read : Build σ σ := fun s => (.ok s, s)

/-- Changes the state. -/
def change (f : σ → σ) : Build σ Unit := fun s => (.ok (), f s)

/-- Changes the state and gives a result. -/
def update (f : σ → α × σ) : Build σ α := fun s =>
  let (a, s) := f s
  (.ok a, s)

/-- Runs steps one after the other, up to the first that fails. -/
def each (f : α → Build σ Unit) : List α → Build σ Unit
  | [] => done ()
  | a :: rest => andThen (f a) fun _ => each f rest

theorem bind_apply (x : Build σ α) (f : α → Build σ β) (s : σ) :
    (x >>= f) s =
      match x s with
      | (.ok a, s) => f a s
      | (.error e, s) => (.error e, s) := rfl

theorem pure_apply (a : α) (s : σ) : (pure a : Build σ α) s = (.ok a, s) := rfl

end Build

/-! ## A failure of a family is a failure of a build -/

instance : MonadLift (Except TriggerError) (Except BuildError) := ⟨Except.mapError .trigger⟩

instance : MonadLift (Except RemapError) (Except BuildError) := ⟨Except.mapError .remap⟩

instance : MonadLift (Except PatternError) (Except BuildError) := ⟨Except.mapError .pattern⟩

instance : MonadLift (Except StructureError) (Except BuildError) := ⟨Except.mapError .misuse⟩

end Barrage
