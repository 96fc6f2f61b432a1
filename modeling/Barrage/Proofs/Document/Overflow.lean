import Mathlib
import Barrage.Proofs.Generator

/-!
# Placement in words

Placement computes with integers of any size.  Here it is carried out in words of 64 bits:
every sum, difference, product and quotient of integers is replaced by the operation on
words, which has no result where it does not fit.  Floats are as before.  The one integer
that comes from a float, the last landing place of a chain, is clamped to the words.

Where the area has no fault, both agree (`Placement.spread?_eq`), whatever the records are.
The reason is that no range starts below zero.  So the size of a range is a signed word, and
the number that is drawn is not past the end of the range or not past its start.
-/

namespace Barrage

open Number (truncate)

theorem Number.truncate_mem (x : Float) : -2 ^ 63 ≤ truncate x ∧ truncate x < 2 ^ 63 := by
  have hclamp (n : Int) : -2 ^ 63 ≤ clamp64 n ∧ clamp64 n < 2 ^ 63 := by
    rw [clamp64, int64Min, int64Max]
    omega
  unfold truncate
  split
  · split <;> decide
  · decide
  · decide
  · exact hclamp _

theorem Area.validate_eq_ok {area : Area} : area.validate = .ok () ↔ area.fault? = none := by
  unfold validate
  cases area.fault? <;> simp

/-- A rectangle of the editor, in words. -/
structure WordArea where
  minX : Int64
  minY : Int64
  maxX : Int64
  maxY : Int64

namespace WordArea

/-- The area, with integers. -/
def toArea (a : WordArea) : Area := ⟨a.minX.toInt, a.minY.toInt, a.maxX.toInt, a.maxY.toInt⟩

/-- The width. -/
def width? (a : WordArea) : Option Float := do
  let width ← Word.sub? a.maxX a.minX
  pure (Float.ofInt width.toInt)

end WordArea

namespace Placement

/-! ## Definitions -/

/-- Places for `n` records on twice the numbers of a range. -/
def doubles? (lo hi : Int64) : Nat → Generator → Option (List Float × Generator)
  | 0, g => some ([], g)
  | n + 1, g => do
    let (k, g) ← g.between? lo hi
    let x ← Word.mul? k 2
    let (xs, g) ← doubles? lo hi n g
    pure (Float.ofInt x.toInt :: xs, g)

/-- Places for `n` records anywhere on even numbers. -/
def scatter? (area : WordArea) (n : Nat) (g : Generator) : Option (List Float × Generator) := do
  let lo ← Word.div? area.minX 2
  let hi ← Word.div? area.maxX 2
  doubles? lo hi n g

/-- A place and `n` more that follow in steps from 1 to 10. -/
def walk? (x : Float) : Nat → Generator → Option (List Float × Generator)
  | 0, g => some ([x], g)
  | n + 1, g => do
    let (step, g) ← g.between? 1 10
    let (xs, g) ← walk? (x + Float.ofInt step.toInt) n g
    pure (x :: xs, g)

/-- Places for records that keep their distances. -/
def rigid? (name : String) (area : WordArea) (xs : List Float) (g : Generator) :
    Option (Except ExportError (List Float × Generator)) := do
  let width := greatest xs - least xs
  let room ← area.width?
  if room < width then
    pure (.error (.chainTooWide name width room))
  else
    let last ← Word.signed? (truncate (Float.ofInt area.maxX.toInt - width))
    let (landing, g) ← g.between? area.minX last
    let shift := Float.ofInt landing.toInt - least xs
    pure (.ok (xs.map fun x => x + shift, g))

/-- New places along the level. -/
def places? (c : Component) (area : WordArea) (xs : List Float) (g : Generator) :
    Option (Except ExportError (List Float × Generator)) :=
  match xs with
  | [] => some (.error (.emptyComponent c.name))
  | [_] => do
    let (x, g) ← g.between? area.minX area.maxX
    pure (.ok ([Float.ofInt x.toInt], g))
  | _ =>
    if sameMoment xs && !c.requiresSpawnOrder then
      (scatter? area xs.length g).map .ok
    else if c.requiresSpawnOrder then
      rigid? c.name area xs g
    else
      (walk? (Float.ofInt area.minX.toInt) (xs.length - 1) g).map .ok

/-- Moves each record to its place along the level and a random place across. -/
def settle? (area : WordArea) :
    List Record → List Float → Generator → Option (List Record × Generator)
  | r :: rs, x :: xs, g => do
    let (y, g) ← g.between? area.minY area.maxY
    let (rest, g) ← settle? area rs xs g
    pure (r.moveTo x (Float.ofInt y.toInt) :: rest, g)
  | _, _, g => some ([], g)

/-- Places records of a component in an area. -/
def spread? (c : Component) (area : WordArea) (rs : List Record) (g : Generator) :
    Option (Except ExportError (List Record × Generator)) := do
  match ← places? c area (rs.map Record.x) g with
  | .error e => pure (.error e)
  | .ok (xs, g) => (settle? area rs xs g).map .ok

/-! ## Agreement -/

theorem doubles?_eq {lo hi : Int64} (hlow : 0 ≤ lo.toInt) (hhigh : max lo.toInt hi.toInt < 2 ^ 62)
    (n : Nat) (g : Generator) :
    doubles? lo hi n g = some (((g.betweens lo.toInt hi.toInt n).1.map fun k => Float.ofInt (k * 2)),
      (g.betweens lo.toInt hi.toInt n).2) := by
  induction n generalizing g with
  | zero => rfl
  | succ n ih =>
      obtain ⟨k, hdraw, hk⟩ := g.between?_of_nonneg hlow hi
      obtain ⟨hklow, hkhigh⟩ := g.between_spec lo.toInt hi.toInt
      obtain ⟨x, hmul, hx⟩ : ∃ w, Word.mul? k 2 = some w ∧ w.toInt = k.toInt * 2 :=
        Word.exists_signed? (show -2 ^ 63 ≤ k.toInt * 2 by omega) (show k.toInt * 2 < 2 ^ 63 by omega)
      simp only [doubles?, hdraw, hmul, ih, hx, hk, Option.bind_eq_bind, Option.bind_some,
        Generator.betweens_succ, List.map_cons, Option.pure_def]

theorem walk?_eq (x : Float) (n : Nat) (g : Generator) :
    walk? x n g = some (walk x (g.betweens 1 10 n).1, (g.betweens 1 10 n).2) := by
  induction n generalizing x g with
  | zero => rfl
  | succ n ih =>
      have hone : (1 : Int64).toInt = 1 := by decide
      have hten : (10 : Int64).toInt = 10 := by decide
      obtain ⟨step, hdraw, hstep⟩ := g.between?_of_nonneg (show 0 ≤ (1 : Int64).toInt by decide) 10
      rw [hone, hten] at hdraw hstep
      rw [walk?, hdraw, Option.bind_eq_bind, Option.bind_some]
      dsimp only
      rw [ih, Option.bind_eq_bind, Option.bind_some, hstep, Generator.betweens_succ, walk,
        Option.pure_def]

section Area

variable {area : WordArea} (hx : area.minX.toInt < area.maxX.toInt) (hzero : 0 ≤ area.minX.toInt)
include hx hzero

theorem scatter?_eq (n : Nat) (g : Generator) :
    scatter? area n g = some (scatter area.toArea n g) := by
  have hhigh := area.maxX.toInt_lt
  have hmin := Int.tdiv_eq_ediv_of_nonneg hzero (b := 2)
  have hmax := Int.tdiv_eq_ediv_of_nonneg (hzero.trans hx.le) (b := 2)
  obtain ⟨lo, hlo, hlow⟩ := Word.exists_half? hzero
  obtain ⟨hi, hhi, hhalf⟩ := Word.exists_half? (hzero.trans hx.le)
  rw [scatter?, hlo, hhi, Option.bind_eq_bind, Option.bind_some, Option.bind_some,
    doubles?_eq (by omega) (by omega), hlow, hhalf]
  rfl

theorem width?_eq : area.width? = some area.toArea.width := by
  have hhigh := area.maxX.toInt_lt
  obtain ⟨width, hsub, hwidth⟩ : ∃ w, Word.sub? area.maxX area.minX = some w ∧
      w.toInt = area.maxX.toInt - area.minX.toInt := Word.exists_signed? (by omega) (by omega)
  rw [WordArea.width?, hsub, Option.bind_eq_bind, Option.bind_some, hwidth]
  rfl

theorem rigid?_eq (name : String) (xs : List Float) (g : Generator) :
    rigid? name area xs g = some (rigid name area.toArea xs g) := by
  obtain ⟨hlow, hhigh⟩ := Number.truncate_mem (Float.ofInt area.maxX.toInt - (greatest xs - least xs))
  obtain ⟨last, hlast, hexact⟩ := Word.exists_signed? hlow hhigh
  obtain ⟨landing, hdraw, hlanding⟩ := g.between?_of_nonneg hzero last
  rw [hexact] at hdraw hlanding
  unfold rigid? rigid
  rw [width?_eq hx hzero, Option.bind_eq_bind, Option.bind_some]
  dsimp only
  split
  next => rfl
  next =>
    simp only [hlast, hdraw, hlanding, Option.bind_eq_bind, Option.bind_some]
    rfl

theorem places?_eq (c : Component) (xs : List Float) (g : Generator) :
    places? c area xs g = some (places c area.toArea xs g) := by
  unfold places? places
  rcases xs with _ | ⟨x, _ | ⟨y, rest⟩⟩
  · rfl
  · obtain ⟨place, hdraw, hplace⟩ := g.between?_of_nonneg hzero area.maxX
    rw [hdraw, Option.bind_eq_bind, Option.bind_some]
    dsimp only
    rw [hplace]
    rfl
  · dsimp only
    split
    · rw [scatter?_eq hx hzero, Option.map_some]
    · split
      · exact rigid?_eq hx hzero c.name _ g
      · rw [walk?_eq, Option.map_some]
        rfl

end Area

theorem settle?_eq {area : WordArea} (hzero : 0 ≤ area.minY.toInt) (rs : List Record)
    (xs : List Float) (g : Generator) :
    settle? area rs xs g = some (settle area.toArea rs xs g) := by
  fun_induction settle area.toArea rs xs g with
  | case1 r rs x xs g y g' hy rest g'' hrest ih =>
      obtain ⟨w, hdraw, hw⟩ := g.between?_of_nonneg hzero area.maxY
      rw [show g.between area.minY.toInt area.maxY.toInt = (y, g') from hy] at hdraw hw
      simp only [settle?, hdraw, ih, hrest, hw, Option.bind_eq_bind, Option.bind_some,
        Option.pure_def]
  | case2 rs xs g hend =>
      rw [settle?]
      exact hend

theorem spread?_eq {area : WordArea} (h : area.toArea.fault? = none) (c : Component)
    (rs : List Record) (g : Generator) :
    spread? c area rs g = some (spread c area.toArea rs g) := by
  obtain ⟨hx, -, hzeroX, hzeroY⟩ := Area.fault?_eq_none.1 h
  rw [spread?, places?_eq hx hzeroX, Option.bind_eq_bind, Option.bind_some, spread]
  cases places c area.toArea (rs.map Record.x) g with
  | error e => rfl
  | ok p =>
      obtain ⟨xs, g'⟩ := p
      dsimp only
      rw [settle?_eq hzeroY, Option.map_some]
      rfl

/-- In an area without fault placement can be carried out in words, for all records and from
every state of the generator, and it is the same.  A number that is drawn from a range which
is not empty is in the range.  The generator takes a step, to another state, exactly if
there are two numbers or more.  From a range of at most `2 ^ 31` numbers all are drawn. -/
theorem spread_sound {area : WordArea} (harea : area.toArea.validate = .ok ()) :
    (∀ (c : Component) (rs : List Record) (g : Generator),
      spread? c area rs g = some (spread c area.toArea rs g)) ∧
    (∀ (lo hi : Int) (g : Generator), lo ≤ hi →
      lo ≤ (g.between lo hi).1 ∧ (g.between lo hi).1 ≤ hi ∧
        (g.between lo hi).2 = (if lo < hi then g.step else g) ∧ g.step ≠ g) ∧
    ∀ lo hi v : Int, hi - lo < 2 ^ 31 → lo ≤ v → v ≤ hi →
      ∃ g : Generator, (g.between lo hi).1 = v := by
  refine ⟨spread?_eq (Area.validate_eq_ok.1 harea), fun lo hi g hrange => ?_,
    fun lo hi v hsize hlow hhigh => ?_⟩
  · obtain ⟨hlow, hhigh⟩ := g.between_spec lo hi
    exact ⟨hlow, hhigh.trans (max_le hrange le_rfl), g.between_snd lo hi, g.step_ne⟩
  · exact (Generator.exists_between_iff (hlow.trans hhigh)).2 ⟨hlow, hhigh, by omega⟩

/-- The largest area. -/
def widest : WordArea := ⟨0, 0, Int64.maxValue, Int64.maxValue⟩

/-- Two simultaneous records in the largest area, and the last number of a range of
`2 ^ 31` numbers at its end. -/
theorem spread_sound_widest :
    widest.toArea.validate = .ok () ∧
    (spread? (Document.switchBoard false 1.0 1.0) widest
        (Document.switchBoard false 1.0 1.0).records ⟨24301⟩ =
      some (spread (Document.switchBoard false 1.0 1.0) widest.toArea
        (Document.switchBoard false 1.0 1.0).records ⟨24301⟩)) ∧
    (Generator.between 0 (2 ^ 63 - 1) ⟨24301⟩).1 ≤ 2 ^ 63 - 1 ∧
    ∃ g : Generator, (g.between (2 ^ 63 - 2 ^ 31) (2 ^ 63 - 1)).1 = 2 ^ 63 - 1 := by
  have hvalid : widest.toArea.validate = .ok () := by decide
  obtain ⟨hwords, hrange, hall⟩ := spread_sound hvalid
  exact ⟨hvalid, hwords _ _ _, (hrange 0 (2 ^ 63 - 1) ⟨24301⟩ (by decide)).2.1,
    hall _ _ _ (by decide) (by decide) le_rfl⟩

end Placement

end Barrage
