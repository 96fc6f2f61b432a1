import Mathlib
import Barrage.Proofs.Document.Chain
import Barrage.Proofs.Number.Word

/-!
# Numbers that are drawn

A step of the generator multiplies its state by an odd number and adds an odd one, both
modulo `2 ^ 64`.  Multiplying by an odd number can be undone, so every state is reached
(`Generator.step_undo`).  The multiplier less one is even and the number that is added is
odd, so no state stays as it is (`Generator.step_ne`).

What is drawn are the upper 31 bits of the next state, and all numbers of 31 bits are
drawn.  A number from `lo` to `hi` is what is left of them modulo the size of the range.
So a range of at most `2 ^ 31` numbers is drawn from completely, and of a larger one the
first `2 ^ 31` numbers (`Generator.exists_between_iff`).

The last section draws with words of 64 bits, by operations that have no result where it
does not fit.  A draw of this kind succeeds if the difference of `hi` and `lo` is a signed
word, and then it gives the same number (`Generator.between?_eq`).
-/

namespace Barrage.Generator

/-! ## Steps -/

/-- The generator one step back. -/
def undo (g : Generator) : Generator :=
  ⟨(g.state - 1442695040888963407) * 13877824140714322085⟩

open scoped UInt64.CommRing in
theorem step_undo (g : Generator) : g.undo.step = g := by
  have hinverse : (13877824140714322085 * 6364136223846793005 : UInt64) = 1 := by decide
  have hstate : (g.state - 1442695040888963407) * 13877824140714322085 * 6364136223846793005
      + 1442695040888963407 = g.state := by
    linear_combination (g.state - 1442695040888963407) * hinverse
  exact congrArg Generator.mk hstate

/-- A step changes the parity of the state. -/
theorem step_ne (g : Generator) : g.step ≠ g := by
  intro hstep
  have hstate := congrArg (fun g : Generator => g.state.toNat) hstep
  simp only [step, UInt64.toNat_add, UInt64.toNat_mul, UInt64.reduceToNat] at hstate
  omega

/-! ## Upper bits -/

theorem next_lt (g : Generator) : g.next.1 < 2 ^ 31 := by
  have hword := g.step.state.toNat_lt
  rw [next, Nat.shiftRight_eq_div_pow]
  omega

theorem exists_next_eq {n : Nat} (h : n < 2 ^ 31) : ∃ g : Generator, g.next.1 = n := by
  refine ⟨undo ⟨UInt64.ofNat (n * 2 ^ 33)⟩, ?_⟩
  rw [next, step_undo, Nat.shiftRight_eq_div_pow,
    UInt64.toNat_ofNat_of_lt' (show n * 2 ^ 33 < 2 ^ 64 by omega)]
  exact Nat.mul_div_cancel n (by decide)

/-! ## Ranges -/

variable {lo hi : Int}

theorem between_of_le (h : hi ≤ lo) (g : Generator) : g.between lo hi = (lo, g) := if_pos h

theorem between_of_lt (h : lo < hi) (g : Generator) :
    g.between lo hi = (lo + (g.next.1 : Int) % (hi - lo + 1), g.step) := if_neg (by omega)

theorem betweens_succ (lo hi : Int) (n : Nat) (g : Generator) :
    g.betweens lo hi (n + 1) =
      ((g.between lo hi).1 :: ((g.between lo hi).2.betweens lo hi n).1,
        ((g.between lo hi).2.betweens lo hi n).2) := rfl

/-- A step is taken exactly for a range of two numbers or more. -/
theorem between_snd (lo hi : Int) (g : Generator) :
    (g.between lo hi).2 = if lo < hi then g.step else g := by
  split
  next h => rw [between_of_lt h]
  next h => rw [between_of_le (not_lt.1 h)]

/-- The numbers that are drawn from a range are the first `2 ^ 31` of it. -/
theorem exists_between_iff {v : Int} (h : lo ≤ hi) :
    (∃ g : Generator, (g.between lo hi).1 = v) ↔ lo ≤ v ∧ v ≤ hi ∧ v < lo + 2 ^ 31 := by
  constructor
  · rintro ⟨g, rfl⟩
    obtain ⟨hlow, hhigh⟩ := g.between_spec lo hi
    refine ⟨hlow, hhigh.trans (max_le h le_rfl), ?_⟩
    rcases h.lt_or_eq with h | rfl
    · rw [between_of_lt h]
      have hbits : (g.next.1 : Int) < 2 ^ 31 := mod_cast g.next_lt
      have hrest : (g.next.1 : Int) % (hi - lo + 1) ≤ g.next.1 := by
        rw [← Int.toNat_of_nonneg (show 0 ≤ hi - lo + 1 by omega)]
        exact mod_cast Nat.mod_le _ _
      dsimp only
      omega
    · rw [between_of_le le_rfl]
      omega
  · rintro ⟨hlow, hhigh, hbits⟩
    obtain ⟨g, hg⟩ := exists_next_eq (n := (v - lo).toNat) (by omega)
    refine ⟨g, ?_⟩
    rcases h.lt_or_eq with h | rfl
    · rw [between_of_lt h, hg, Int.emod_eq_of_lt (by omega) (by omega)]
      dsimp only
      omega
    · rw [between_of_le le_rfl]
      dsimp only
      omega

/-! ## Draws in words -/

/-- The next number, as a word of 32 bits. -/
def nextWord (g : Generator) : UInt32 × Generator := ((g.step.state >>> 33).toUInt32, g.step)

/-- The next number from `lo` to `hi`, in words.  The size of the range and the number are
unsigned. -/
def between? (lo hi : Int64) (g : Generator) : Option (Int64 × Generator) :=
  if hi ≤ lo then
    some (lo, g)
  else do
    let width ← Word.sub? hi lo
    let size ← Word.addUnsigned? width.toUInt64 1
    let (n, g) := g.nextWord
    let rest ← Word.rem? n.toUInt64 size
    let number ← Word.add? lo rest.toInt64
    pure (number, g)

theorem toNat_nextWord (g : Generator) : g.nextWord.1.toNat = g.next.1 := by
  have hbits := g.next_lt
  have hnext : (g.step.state >>> 33).toNat = g.next.1 := rfl
  rw [nextWord, UInt64.toNat_toUInt32, hnext, Nat.mod_eq_of_lt (by omega)]

theorem between?_eq {lo hi : Int64} (h : hi.toInt - lo.toInt < 2 ^ 63) (g : Generator) :
    ∃ w, g.between? lo hi = some (w, (g.between lo.toInt hi.toInt).2) ∧
      w.toInt = (g.between lo.toInt hi.toInt).1 := by
  unfold between?
  split
  next hle =>
    rw [between_of_le (Int64.le_iff_toInt_le.1 hle)]
    exact ⟨lo, rfl, rfl⟩
  next hlt =>
    rw [Int64.le_iff_toInt_le, not_le] at hlt
    have hlow := lo.le_toInt
    have hhigh := hi.toInt_lt
    obtain ⟨width, hsub, hwidth⟩ : ∃ w, Word.sub? hi lo = some w ∧ w.toInt = hi.toInt - lo.toInt :=
      Word.exists_signed? (by omega) h
    -- The size may be `2 ^ 63`, which is an unsigned word only.
    have hunsigned := Word.toNat_toUInt64 (a := width) (by omega)
    obtain ⟨size, hadd, hsize⟩ : ∃ w, Word.addUnsigned? width.toUInt64 1 = some w ∧
        w.toNat = width.toUInt64.toNat + 1 :=
      Word.exists_unsigned? (show width.toUInt64.toNat + 1 < 2 ^ 64 by omega)
    obtain ⟨rest, hrem, hrest⟩ := Word.exists_rem? (a := g.nextWord.1.toUInt64) (b := size) (by omega)
    rw [UInt32.toNat_toUInt64, toNat_nextWord] at hrest
    have hless : rest.toNat < size.toNat := hrest ▸ Nat.mod_lt _ (by omega)
    have hsigned := Word.toInt_toInt64_of_lt (a := rest) (by omega)
    have hbetween : g.between lo.toInt hi.toInt = (lo.toInt + rest.toInt64.toInt, g.step) := by
      rw [between_of_lt hlt, hsigned, hrest, show hi.toInt - lo.toInt + 1 = size.toNat by omega,
        Int.natCast_emod]
    obtain ⟨number, hnumber, hexact⟩ : ∃ w, Word.add? lo rest.toInt64 = some w ∧
        w.toInt = lo.toInt + rest.toInt64.toInt := Word.exists_signed? (by omega) (by omega)
    refine ⟨number, ?_, ?_⟩
    · simp only [hsub, hadd, hrem, hnumber, Option.bind_eq_bind, Option.bind_some, hbetween]
      rfl
    · rw [hbetween, hexact]

example : Generator.between? Int64.minValue 0 ⟨0⟩ = none := by decide

/-- A range that does not start below zero can be drawn from. -/
theorem between?_of_nonneg {lo : Int64} (h : 0 ≤ lo.toInt) (hi : Int64) (g : Generator) :
    ∃ w, g.between? lo hi = some (w, (g.between lo.toInt hi.toInt).2) ∧
      w.toInt = (g.between lo.toInt hi.toInt).1 := by
  have hhigh := hi.toInt_lt
  exact between?_eq (by omega) g

end Barrage.Generator
