import Mathlib

/-!
# Arithmetic on words

The library computes with integers.  Here are the operations on words of 64 bits that
have a result only if it fits: an operation is carried out on the integers, and
`Word.signed?` or `Word.unsigned?` looks for the word of the result.  So an operation is
known by the integer of its result (`Word.signed?_eq_some`), and it has none exactly
outside the range (`Word.signed?_eq_none`).

Readings of a signed word as an unsigned one and back are `Int64.toUInt64` and
`UInt64.toInt64`.  They never fail, and they keep the numbers that both kinds have.
-/

namespace Barrage.Word

/-! ## Words of integers -/

/-- The signed word of an integer, if there is one. -/
def signed? (n : Int) : Option Int64 :=
  if -2 ^ 63 ≤ n ∧ n < 2 ^ 63 then some (Int64.ofInt n) else none

/-- The unsigned word of a natural number, if there is one. -/
def unsigned? (n : Nat) : Option UInt64 :=
  if n < 2 ^ 64 then some (UInt64.ofNat n) else none

theorem signed?_eq_some {n : Int} {w : Int64} : signed? n = some w ↔ w.toInt = n := by
  unfold signed?
  split
  next h => rw [Option.some.injEq, ← Int64.toInt_inj, Int64.toInt_ofInt_of_le h.1 h.2, eq_comm]
  next h =>
    refine iff_of_false nofun ?_
    rintro rfl
    exact h ⟨w.le_toInt, w.toInt_lt⟩

theorem signed?_eq_none {n : Int} : signed? n = none ↔ n < -2 ^ 63 ∨ 2 ^ 63 ≤ n := by
  rw [signed?, ite_eq_right_iff]
  simp only [reduceCtorEq, imp_false]
  omega

theorem exists_signed? {n : Int} (hlow : -2 ^ 63 ≤ n) (hhigh : n < 2 ^ 63) :
    ∃ w, signed? n = some w ∧ w.toInt = n :=
  ⟨Int64.ofInt n, if_pos ⟨hlow, hhigh⟩, Int64.toInt_ofInt_of_le hlow hhigh⟩

theorem exists_unsigned? {n : Nat} (h : n < 2 ^ 64) : ∃ w, unsigned? n = some w ∧ w.toNat = n :=
  ⟨UInt64.ofNat n, if_pos h, UInt64.toNat_ofNat_of_lt' h⟩

/-! ## Operations -/

/-- The sum of signed words. -/
def add? (a b : Int64) : Option Int64 := signed? (a.toInt + b.toInt)

/-- The difference of signed words. -/
def sub? (a b : Int64) : Option Int64 := signed? (a.toInt - b.toInt)

/-- The product of signed words. -/
def mul? (a b : Int64) : Option Int64 := signed? (a.toInt * b.toInt)

/-- The quotient of signed words, toward zero. -/
def div? (a b : Int64) : Option Int64 := if b = 0 then none else signed? (a.toInt.tdiv b.toInt)

/-- The sum of unsigned words. -/
def addUnsigned? (a b : UInt64) : Option UInt64 := unsigned? (a.toNat + b.toNat)

/-- The remainder of unsigned words. -/
def rem? (a b : UInt64) : Option UInt64 := if b = 0 then none else unsigned? (a.toNat % b.toNat)

theorem exists_half? {a : Int64} (h : 0 ≤ a.toInt) :
    ∃ w, div? a 2 = some w ∧ w.toInt = a.toInt.tdiv 2 := by
  have hhigh := a.toInt_lt
  have hhalf := Int.tdiv_eq_ediv_of_nonneg h (b := 2)
  exact exists_signed? (show -2 ^ 63 ≤ a.toInt.tdiv 2 by omega)
    (show a.toInt.tdiv 2 < 2 ^ 63 by omega)

theorem exists_rem? {a b : UInt64} (h : 0 < b.toNat) :
    ∃ w, rem? a b = some w ∧ w.toNat = a.toNat % b.toNat := by
  have hb : b ≠ 0 := by
    rintro rfl
    exact absurd h (by decide)
  rw [rem?, if_neg hb]
  exact exists_unsigned? ((Nat.mod_le _ _).trans_lt a.toNat_lt)

/-! ## Signed and unsigned readings -/

theorem toNat_toUInt64 {a : Int64} (h : 0 ≤ a.toInt) : (a.toUInt64.toNat : Int) = a.toInt := by
  have hbits : a.toInt = Int.bmod a.toUInt64.toNat (2 ^ 64) := BitVec.toInt_eq_toNat_bmod _
  have hword := a.toUInt64.toNat_lt
  rw [Int.bmod_def] at hbits
  omega

theorem toInt_toInt64 (a : UInt64) : a.toInt64.toInt = Int.bmod a.toNat (2 ^ 64) :=
  BitVec.toInt_eq_toNat_bmod _

theorem toInt_toInt64_of_lt {a : UInt64} (h : a.toNat < 2 ^ 63) : a.toInt64.toInt = a.toNat := by
  rw [toInt_toInt64, Int.bmod_def]
  omega

end Barrage.Word
