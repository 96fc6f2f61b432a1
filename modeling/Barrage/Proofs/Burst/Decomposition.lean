import Mathlib.Algebra.Ring.Parity
import Mathlib.Data.Nat.BitIndices
import Barrage.Proofs.Burst.Plan

/-!
# Decompositions are binary and minimal

A number of instances is decomposed by taking bases from the largest to the smallest,
each at most once and only if it fits.  Nothing in this loop looks at what remains in the
end.  It is nothing, because the capacities are the powers of two (`spawns_pick`), and
then the bases that were taken are the binary digits of the number (`capacities_pick`).

No other choice of capacities does with fewer, even if capacities may be repeated: to add
one capacity changes the number of binary digits one by at most one
(`length_bitIndices_two_pow_add_le`), so `k` capacities add up to a number with at most `k`
of them.  `decompose_minimal` puts this together.
-/

namespace Barrage.Bases

/-! ## Binary digits -/

/-- Counting up by one adds at most one digit one: a carry removes digits. -/
theorem length_bitIndices_succ_le (n : Nat) :
    (n + 1).bitIndices.length ≤ n.bitIndices.length + 1 := by
  induction n using Nat.strong_induction_on with
  | _ n ih =>
      obtain ⟨m, rfl | rfl⟩ := n.even_or_odd'
      · simp
      · have hm := ih m (by omega)
        have hcarry : 2 * m + 1 + 1 = 2 * (m + 1) := by omega
        rw [hcarry, Nat.bitIndices_two_mul, Nat.bitIndices_two_mul_add_one]
        simp only [List.length_map, List.length_cons]
        omega

/-- Adding a power of two adds at most one digit one. -/
theorem length_bitIndices_two_pow_add_le (k n : Nat) :
    (2 ^ k + n).bitIndices.length ≤ n.bitIndices.length + 1 := by
  induction k generalizing n with
  | zero =>
      rw [pow_zero, Nat.add_comm]
      exact length_bitIndices_succ_le n
  | succ k ih =>
      obtain ⟨m, rfl | rfl⟩ := n.even_or_odd'
      · have hhalf : 2 ^ (k + 1) + 2 * m = 2 * (2 ^ k + m) := by rw [pow_succ]; omega
        rw [hhalf, Nat.bitIndices_two_mul, Nat.bitIndices_two_mul]
        simpa using ih m
      · have hhalf : 2 ^ (k + 1) + (2 * m + 1) = 2 * (2 ^ k + m) + 1 := by rw [pow_succ]; omega
        rw [hhalf, Nat.bitIndices_two_mul_add_one, Nat.bitIndices_two_mul_add_one]
        simpa using ih m

/-- Powers of two are at least as many as the digits one of their sum. -/
theorem length_bitIndices_sum_le {cs : List Nat} (h : ∀ c ∈ cs, ∃ k, c = 2 ^ k) :
    cs.sum.bitIndices.length ≤ cs.length := by
  induction cs with
  | nil => simp
  | cons c cs ih =>
      obtain ⟨k, rfl⟩ := h c List.mem_cons_self
      rw [List.sum_cons, List.length_cons]
      have hadd := length_bitIndices_two_pow_add_le k cs.sum
      have hrest := ih fun c' hc' => h c' (List.mem_cons_of_mem _ hc')
      omega

/-! ## Decompositions -/

theorem spawns_eq_sum (l : List Base) : spawns l = (l.map Base.capacity).sum := by
  induction l with
  | nil => rfl
  | cons base rest ih => rw [spawns_cons, ih, List.map_cons, List.sum_cons]

theorem Binary.eq_two_pow {b : Bases} (hb : b.Binary) {c : Nat}
    (hc : c ∈ b.tiers.map Base.capacity) : ∃ k, c = 2 ^ k := by
  rw [hb] at hc
  obtain ⟨k, -, rfl⟩ := List.mem_map.1 hc
  exact ⟨k, rfl⟩

/-- The bases that are picked are the binary digits of the number, the highest first. -/
theorem capacities_pick {t : Nat} {l : List Base} {n : Nat}
    (hl : l.map Base.capacity = ((List.range t).map (Nat.pow 2)).reverse)
    (hn : n < Nat.pow 2 t) :
    (pick n l).map Base.capacity = (n.bitIndices.map (2 ^ ·)).reverse := by
  have hsub : ((pick n l).map Base.capacity).reverse.Sublist ((List.range t).map (Nat.pow 2)) := by
    rw [← List.reverse_sublist, List.reverse_reverse, ← hl]
    exact (pick_sublist n l).map _
  obtain ⟨exponents, hexponents, hpowers⟩ := List.sublist_map_iff.1 hsub
  have hsum : (exponents.map (2 ^ ·)).sum = n := by
    have hspawns := spawns_pick hl hn
    rw [spawns_eq_sum, ← List.sum_reverse, hpowers] at hspawns
    exact hspawns
  -- The exponents ascend, and a number has one ascending list of exponents only.
  have hascending : exponents.SortedLT := (List.pairwise_lt_range.sublist hexponents).sortedLT
  have hdigits : n.bitIndices = exponents := by
    rw [← hsum, Nat.bitIndices_sum_map_two_pow hascending]
  rw [hdigits]
  exact List.reverse_eq_iff.1 hpowers

theorem decompose_eq_error {b : Bases} {n : Nat} :
    (∃ e, b.decompose n = .error e) ↔ n = 0 ∨ b.ceiling < n := by
  unfold decompose
  by_cases h₀ : n = 0
  · simp [h₀]
  · by_cases h₁ : b.ceiling < n
    · simp [h₀, h₁]
    · simp [h₀, h₁]

/-- A number can be decomposed exactly if it is neither zero nor above the sum of all capacities.
Its bases are bases of their own with descending capacities that add up to the number, one
for each binary digit one.  Capacities that add up to the number are never fewer, even with
repetitions. -/
theorem decompose_minimal {b : Bases} (hb : b.Binary) (n : Nat) :
    ((∃ e, b.decompose n = .error e) ↔ n = 0 ∨ 2 ^ b.tiers.length - 1 < n) ∧
      (¬ (n = 0 ∨ 2 ^ b.tiers.length - 1 < n) →
        ∃ l, b.decompose n = .ok l ∧ l.Sublist b.tiers.reverse ∧
          (l.map Base.capacity).Pairwise (· > ·) ∧
          (l.map Base.capacity).sum = n ∧
          l.length = n.bitIndices.length ∧
          ∀ cs : List Nat, cs ⊆ b.tiers.map Base.capacity → cs.sum = n →
            l.length ≤ cs.length) := by
  have hceiling : b.ceiling = 2 ^ b.tiers.length - 1 :=
    Nat.eq_sub_of_add_eq (ceiling_of_binary hb)
  rw [decompose_eq_error, hceiling]
  refine ⟨Iff.rfl, fun hn => ?_⟩
  obtain ⟨hpos, hle⟩ := not_or.1 hn
  have hlt : n < Nat.pow 2 b.tiers.length := by
    have := ceiling_of_binary hb
    omega
  have hcapacities := capacities_pick (l := b.tiers.reverse) (by rw [List.map_reverse, hb]) hlt
  have hlength : (pick n b.tiers.reverse).length = n.bitIndices.length := by
    simpa using congrArg List.length hcapacities
  refine ⟨pick n b.tiers.reverse, decompose_eq_ok.2 ⟨hpos, by omega, rfl⟩, pick_sublist _ _,
    ?_, ?_, hlength, ?_⟩
  · rw [hcapacities, List.pairwise_reverse, List.pairwise_map]
    exact Nat.bitIndices_sorted.pairwise.imp fun h => Nat.pow_lt_pow_right (by decide) h
  · rw [hcapacities, List.sum_reverse, Nat.sum_map_two_pow_bitIndices]
  · rintro cs hcs rfl
    rw [hlength]
    exact length_bitIndices_sum_le fun c hc => hb.eq_two_pow (hcs hc)

/-- Seven bases, on the first groups that are issued. -/
def sevenTiers : Bases where
  tiers := (List.range 7).map fun tier => ⟨Nat.pow 2 tier, tier, 10000 + tier⟩
  scratchStart := 7001

theorem decompose_minimal_sevenTiers :
    sevenTiers.Binary ∧ ∃ l, sevenTiers.decompose 18 = .ok l ∧ l.map Base.capacity = [16, 2] ∧
      ∀ cs : List Nat, cs ⊆ [1, 2, 4, 8, 16, 32, 64] → cs.sum = 18 → 2 ≤ cs.length := by
  have hb : sevenTiers.Binary := by rw [Binary]; decide
  have hpick : sevenTiers.decompose 18 = .ok [⟨16, 4, 10004⟩, ⟨2, 1, 10001⟩] := by decide
  obtain ⟨l, hl, -, -, -, -, hfewest⟩ := (decompose_minimal hb 18).2 (by decide)
  cases hpick.symm.trans hl
  exact ⟨hb, _, hpick, rfl, hfewest⟩

end Barrage.Bases
