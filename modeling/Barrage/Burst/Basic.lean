import Barrage.Build
import Barrage.Context.Basic
import Barrage.Remap.Basic

/-!
# Bursts

To spawn a template once for each of many bullets would take one spawn per
bullet.  Instead there are *base* components with capacities 1, 2, 4 and so on.
A base spawns the template placeholder as often as its capacity says, and each
of its spawns sends the placeholders of the template to a block of scratch
groups of its own.  A *burst* runs a base with a remap that puts the template in
the place of its placeholder, and real groups in the place of the scratch
groups.

So `n` instances need one burst per binary digit one of `n`, as long as `n` is
not above the sum of all capacities.
-/

namespace Barrage

/-- What one instance of a template works with. -/
structure Assignment where
  bullet : Group
  target : Group
  /-- What the bullet comes from. -/
  emitter : Group
  /-- The collision group of the bullet. -/
  collision : Group
deriving Repr, DecidableEq

namespace Assignment

/-- The scratch groups of a record of a base. -/
def scratch (start : Group) (index : Nat) : Assignment :=
  let first := start + Config.stride * index
  ⟨first, first + 1, first + 2, first + 3⟩

/-- The four groups, in order. -/
def toList (a : Assignment) : List Group := [a.bullet, a.target, a.emitter, a.collision]

/-- The placeholders of a template. -/
def placeholders : Assignment := ⟨Group.bullet, Group.target, Group.emitter, Group.auxiliary⟩

/-- The pairs that put the groups of one assignment in the place of those of
another. -/
def pairs (source target : Assignment) : List (Group × Group) :=
  source.toList.zip target.toList

/-- The remap from the placeholders of a template to an assignment. -/
def remap (a : Assignment) : Remap := ⟨pairs placeholders a, by
  simp [pairs, toList, placeholders, Group.bullet, Group.target, Group.emitter, Group.auxiliary]⟩

end Assignment

/-- A base to run, and with which remap. -/
structure Burst where
  group : Group
  remap : Remap
deriving DecidableEq

namespace Bases

/-- The most instances that bursts of all bases can spawn together. -/
def ceiling (b : Bases) : Nat := b.tiers.foldr (fun base n => base.capacity + n) 0

/-- Takes the first base that fits, then goes on with the rest. -/
def pick : Nat → List Base → List Base
  | _, [] => []
  | n, base :: rest =>
    if base.capacity ≤ n then base :: pick (n - base.capacity) rest else pick n rest

/-- The bases whose capacities add up to a number, largest first. -/
def decompose (b : Bases) (n : Nat) : Except PatternError (List Base) :=
  if n = 0 then
    .error .emptyMultitarget
  else if b.ceiling < n then
    .error (.multitargetCapacity n b.ceiling)
  else
    .ok (pick n b.tiers.reverse)

/-- The pairs that send the scratch groups to assignments, block by block. -/
def blockPairs (start : Group) (index : Nat) : List Assignment → List (Group × Group)
  | [] => []
  | a :: rest => (Assignment.scratch start index).pairs a ++ blockPairs start (index + 1) rest

/-- The remap of a burst. -/
def burstRemap (b : Bases) (template : Group) (as : List Assignment) : Except RemapError Remap :=
  Remap.empty.insertAll ((Group.template, template) :: blockPairs b.scratchStart 0 as)

/-- Deals assignments to bases. -/
def deal (b : Bases) (template : Group) : List Base → List Assignment →
    Except RemapError (List Burst)
  | [], _ => .ok []
  | base :: rest, as => do
    let remap ← b.burstRemap template (as.take base.capacity)
    let bursts ← b.deal template rest (as.drop base.capacity)
    pure (⟨base.group, remap⟩ :: bursts)

/-- The bursts that spawn a template once per assignment.  There must be at least
one assignment, and not more than the bases can spawn. -/
def plan (b : Bases) (template : Group) (as : List Assignment) :
    Except BuildError (List Burst) := do
  let bases ← b.decompose as.length
  b.deal template bases as

/-- Pieces of at most `size` assignments, in order.  Nothing is cut when `size`
is zero. -/
def chunks (size : Nat) (as : List Assignment) : List (List Assignment) :=
  if _h : as = [] ∨ size = 0 then
    []
  else
    as.take size :: chunks size (as.drop size)
termination_by as.length
decreasing_by
  simp only [not_or] at _h
  have : 0 < as.length := List.length_pos_iff.2 _h.1
  simp only [List.length_drop]
  omega

/-- Plans each piece. -/
def planPieces (b : Bases) (template : Group) :
    List (List Assignment) → Except BuildError (List Burst)
  | [] => .ok []
  | piece :: rest => do
    let bursts ← b.plan template piece
    let others ← b.planPieces template rest
    pure (bursts ++ others)

/-- The bursts for any number of assignments. -/
def planAll (b : Bases) (template : Group) (as : List Assignment) :
    Except BuildError (List Burst) :=
  b.planPieces template (chunks b.ceiling as)

end Bases

end Barrage
