import Barrage.Error

/-!
# Remap tables

A remap sends groups to groups.  It is an ordered list of pairs in which no
group occurs twice as a source, and a group that is no source stays where it
is.  Order matters only for the text of a remap (`Barrage.Remap.Wire`).
-/

namespace Barrage

/-- An ordered table of pairs from a source to a target. -/
structure Remap where
  /-- The pairs, oldest first. -/
  pairs : List (Group × Group)
  /-- No source occurs twice. -/
  distinct : (pairs.map Prod.fst).Nodup
deriving DecidableEq

namespace Remap

/-- The table without pairs. -/
def empty : Remap := ⟨[], by simp⟩

/-- The sources, in the order of the pairs. -/
def sources (r : Remap) : List Group := r.pairs.map Prod.fst

/-- The number of pairs. -/
def size (r : Remap) : Nat := r.pairs.length

/-- Has the table no pairs? -/
def isEmpty (r : Remap) : Bool := r.pairs.isEmpty

/-- The target of a source. -/
def get? (r : Remap) (g : Group) : Option Group := r.pairs.lookup g

/-- Where a group ends up: at its target, or where it was. -/
def resolve (r : Remap) (g : Group) : Group := (r.get? g).getD g

/-- Adds a pair at the end.  A source can be added once only. -/
def insert (r : Remap) (source target : Group) : Except RemapError Remap :=
  if h : source ∈ r.pairs.map Prod.fst then
    .error (.duplicateSource source)
  else
    .ok
      { pairs := r.pairs ++ [(source, target)]
        distinct := by
          simp only [List.map_append, List.map_cons, List.map_nil]
          refine List.nodup_append.2 ⟨r.distinct, by simp, ?_⟩
          intro a ha b hb
          simp only [List.mem_singleton] at hb
          subst hb
          exact fun hab => h (hab ▸ ha) }

/-- Adds pairs one after the other. -/
def insertAll : List (Group × Group) → Remap → Except RemapError Remap
  | [], r => .ok r
  | (source, target) :: rest, r =>
    match r.insert source target with
    | .error e => .error e
    | .ok r => insertAll rest r

/-- The table without the pairs that map a group to itself. -/
def cleaned (r : Remap) : Remap where
  pairs := r.pairs.filter fun p => p.1 != p.2
  distinct := (List.filter_sublist.map Prod.fst).nodup r.distinct

end Remap

end Barrage
