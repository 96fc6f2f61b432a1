import Barrage.Context.Basic

/-!
# Statistics

A counter adds up numbers by name and lists the names in the order in which they
first occurred.  A tally counts the records of a context by component and by
spell.  A component of several spells belongs to none of them: its records are
counted once, as shared.

What is left of a budget is an integer here, though it is meant as a signed word
of 64 bits.  What becomes of a difference that is no such word is left out.
-/

namespace Barrage

/-- Numbers by name. -/
structure Counter where
  /-- Names with their sums, in the order of their first occurrence. -/
  entries : List (String × Nat) := []
deriving Repr, DecidableEq

namespace Counter

/-- Adds to the sum of a name in a list of entries. -/
def addTo (name : String) (n : Nat) : List (String × Nat) → List (String × Nat)
  | [] => [(name, n)]
  | (key, m) :: rest => if key = name then (key, m + n) :: rest else (key, m) :: addTo name n rest

/-- Adds to the sum of a name. -/
def add (c : Counter) (name : String) (n : Nat) : Counter := ⟨addTo name n c.entries⟩

/-- The sum of a name. -/
def get (c : Counter) (name : String) : Nat := (c.entries.lookup name).getD 0

/-- A counter of a list of names with numbers. -/
def ofList (xs : List (String × Nat)) : Counter := xs.foldl (fun c x => c.add x.1 x.2) {}

end Counter

/-- How many records a context holds, and where. -/
structure Tally where
  total : Nat
  /-- How many objects the level can hold. -/
  budget : Nat
  components : Counter
  spells : Counter
  shared : Nat
deriving Repr, DecidableEq

namespace Context

/-- The records of a component. -/
def recordsOf (ctx : Context) (i : Nat) : List Record :=
  (ctx.components[i]?.map Component.records).getD []

/-- The number of records of a component. -/
def recordCount (ctx : Context) (i : Nat) : Nat := (ctx.recordsOf i).length

/-- The number of spells that a component belongs to. -/
def spellCount (ctx : Context) (i : Nat) : Nat :=
  (ctx.spells.filter fun s => s.components.contains i).length

/-- Does the component belong to more than one spell? -/
def isShared (ctx : Context) (i : Nat) : Bool := 1 < ctx.spellCount i

/-- The records of a spell that are its own. -/
def ownCount (ctx : Context) (s : Spell) : Nat :=
  ((s.components.filter fun i => ¬ ctx.isShared i).flatMap ctx.recordsOf).length

/-- The records that several spells share. -/
def sharedCount (ctx : Context) : Nat :=
  (((List.range ctx.components.length).filter ctx.isShared).flatMap ctx.recordsOf).length

/-- Counts the records of a context. -/
def tally (ctx : Context) (budget : Nat) : Tally where
  total := (ctx.components.flatMap Component.records).length
  budget := budget
  components := .ofList (ctx.components.map fun c => (c.name, c.records.length))
  spells := .ofList (ctx.spells.map fun s => (s.name, ctx.ownCount s))
  shared := ctx.sharedCount

end Context

namespace Tally

/-- How much of the budget is used, in percent. -/
def usagePercent (t : Tally) : Float :=
  if t.budget = 0 then 0.0 else Float.ofNat t.total / Float.ofNat t.budget * 100.0

/-- What is left of the budget, negative when there is too much.  The budget is
taken as a signed word of 64 bits, so one of the upper half counts as negative.
The difference has no bound. -/
def remaining (t : Tally) : Int := Int.bmod t.budget 18446744073709551616 - t.total

/-- The lines of the log that report a tally. -/
def report (t : Tally) : List Event :=
  let line (text : String) : Event := ⟨.info, .statistics, text⟩
  let entry (what : String) (e : String × Nat) : Event :=
    line ("  " ++ what ++ " " ++ e.1 ++ ": " ++ toString e.2 ++ " triggers")
  [line ("Total triggers: " ++ toString t.total ++ " (" ++ Number.fixed 3 t.usagePercent
    ++ "% of budget), " ++ toString t.remaining ++ " remaining")]
    ++ t.spells.entries.map (entry "spell")
    ++ t.components.entries.map (entry "component")
    ++ (if 0 < t.shared then
      [line ("  shared components: " ++ toString t.shared ++ " triggers")]
    else
      [])

end Tally

end Barrage
