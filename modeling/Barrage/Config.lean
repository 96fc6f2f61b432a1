import Barrage.Error

/-!
# Compiler configuration

A configuration divides the groups of a level.  Up to a greatest number they
are assigned by hand, some of them reserved by the game.  Above it the compiler
issues fresh ones.  Part of the hand-assigned groups is a scratch area for
bursts: each record of a base owns a block of four groups there.

The end of the scratch area has no bound here.  What becomes of a configuration
where it leaves 32 bits is left out.
-/

namespace Barrage

/-- How a compiler uses groups. -/
structure Config where
  /-- Groups with known conflicts, in ascending order. -/
  reserved : List Group := [1, 3, 4, 5, 6, 7, 8, 9, 11, 12, 13, 14, 15, 16, 19, 22, 25, 9999]
  /-- The greatest hand-assigned group. -/
  maxGroup : Group := 9999
  /-- The first group that the compiler issues. -/
  unknownStart : Group := 10000
  /-- The number of base components. -/
  tiers : Nat := 7
  /-- The first group of the scratch area. -/
  scratchStart : Group := 7001
  /-- The editor layer of components that name none. -/
  defaultLayer : Nat := 4
deriving Repr, DecidableEq

namespace Config

/-- Groups that each record of a base owns in the scratch area. -/
def stride : Nat := 4

/-- Is the group reserved? -/
def isReserved (c : Config) (g : Group) : Bool := c.reserved.contains g

/-- The capacity of the largest base. -/
def largestTier (c : Config) : Nat := Nat.pow 2 (c.tiers - 1)

/-- The most instances that one burst of every base can spawn. -/
def ceiling (c : Config) : Nat := Nat.pow 2 c.tiers - 1

/-- The last group of the scratch area, also where this is beyond
`Group.greatest`. -/
def scratchEnd (c : Config) : Group := c.scratchStart + stride * c.largestTier - 1

/-- The first fault of a configuration: in the number of tiers, in the order of
issued groups, in the bounds of the scratch area, in its reserved groups. -/
def fault? (c : Config) : Option ConfigFault :=
  if ¬ (1 ≤ c.tiers ∧ c.tiers ≤ 16) then
    some (.tiers c.tiers)
  else if c.unknownStart ≤ c.maxGroup then
    some (.unknownStart c.unknownStart c.maxGroup)
  else if c.scratchStart = 0 ∨ c.maxGroup < c.scratchEnd then
    some (.scratchOutside c.scratchStart c.scratchEnd c.maxGroup)
  else
    (c.reserved.find? fun g => c.scratchStart ≤ g ∧ g ≤ c.scratchEnd).map .scratchReserved

/-- Refuses a configuration with a fault. -/
def validate (c : Config) : Except StructureError Unit :=
  match c.fault? with
  | none => .ok ()
  | some fault => .error (.invalidConfig fault)

end Config

end Barrage
