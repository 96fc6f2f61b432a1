import Mathlib.Data.Nat.ModEq
import Mathlib.Data.List.Nodup
import Barrage.Pool

/-!
# Draws from a pool

A cycler moves its cursor by one and goes back to the start behind the last number.
What it gives after `k` other numbers is said here without its steps: the number `k`
places on from the cursor, counted around the range (`Cycler.nth`).  The steps agree
with this, since a step is a move by one place (`Cycler.nth_next`).

A pool gives the numbers of its cycler, each with the collision group that lies one
size further on.  So draws repeat only after a whole cycle.  As many draws in a row as
the pool has bullets are told apart, wherever they start, and the collision groups lie
behind all bullets.
-/

namespace Barrage

/-! ## Cyclers -/

namespace Cycler

/-- The number of numbers in the range. -/
def size (c : Cycler) : Nat := c.last - c.first + 1

/-- The number `k` places on from the cursor, around the range. -/
def nth (c : Cycler) (k : Nat) : Nat := c.first + (c.cursor - c.first + k) % c.size

theorem size_pos (c : Cycler) : 0 < c.size := Nat.succ_pos _

@[simp] theorem size_next (c : Cycler) : c.next.2.size = c.size := by
  unfold next size
  split <;> rfl

@[simp] theorem first_next (c : Cycler) : c.next.2.first = c.first := by
  unfold next
  split <;> rfl

theorem nth_zero (c : Cycler) : c.nth 0 = c.cursor := by
  have hcursor := c.first_le
  have hlast := c.le_last
  have hlt : c.cursor - c.first < c.size := by
    unfold size
    omega
  rw [nth, Nat.add_zero, Nat.mod_eq_of_lt hlt]
  omega

/-- A step moves the cursor on by one place, from the last number to the first. -/
theorem cursor_next (c : Cycler) :
    (c.next.2.cursor - c.first) % c.size = (c.cursor - c.first + 1) % c.size := by
  have hcursor := c.first_le
  have hlast := c.le_last
  unfold next
  split
  next hlt =>
    have hsub : c.cursor + 1 - c.first = c.cursor - c.first + 1 := by omega
    exact congrArg (· % c.size) hsub
  next hend =>
    have hwrap : c.cursor - c.first + 1 = c.size := by
      unfold size
      omega
    rw [hwrap, Nat.mod_self, Nat.sub_self, Nat.zero_mod]

theorem nth_next (c : Cycler) (k : Nat) : c.next.2.nth k = c.nth (k + 1) := by
  have hstep : (c.next.2.cursor - c.first + k) % c.size =
      (c.cursor - c.first + 1 + k) % c.size := Nat.ModEq.add_right k c.cursor_next
  rw [nth, nth, first_next, size_next, hstep, Nat.add_assoc, Nat.add_comm 1 k]

/-- The numbers that are drawn are those at the places from the cursor on. -/
theorem take_fst (n : Nat) (c : Cycler) : (c.take n).1 = (List.range n).map c.nth := by
  induction n generalizing c with
  | zero => rfl
  | succ n ih =>
      rw [List.range_succ_eq_map, List.map_cons, List.map_map, nth_zero]
      show c.cursor :: (c.next.2.take n).1 = _
      rw [ih]
      exact congrArg _ (List.map_congr_left fun k _ => c.nth_next k)

/-- The cycler after `n` draws is `n` places on. -/
theorem nth_take (n k : Nat) (c : Cycler) : (c.take n).2.nth k = c.nth (n + k) := by
  induction n generalizing c with
  | zero =>
      rw [Nat.zero_add]
      rfl
  | succ n ih =>
      show (c.next.2.take n).2.nth k = _
      rw [ih, nth_next, Nat.add_right_comm]

theorem size_take (n : Nat) (c : Cycler) : (c.take n).2.size = c.size := by
  induction n generalizing c with
  | zero => rfl
  | succ n ih => exact (ih c.next.2).trans c.size_next

theorem first_le_nth (c : Cycler) (k : Nat) : c.first ≤ c.nth k := Nat.le_add_right _ _

theorem nth_le_last (c : Cycler) (k : Nat) : c.nth k ≤ c.last := by
  have hrange := Nat.le_trans c.first_le c.le_last
  have hlt := Nat.mod_lt (c.cursor - c.first + k) c.size_pos
  unfold size at hlt
  unfold nth size
  omega

/-- Less than a whole cycle apart, numbers differ. -/
theorem nth_inj {c : Cycler} {j k : Nat} (hj : j < c.size) (hk : k < c.size)
    (h : c.nth j = c.nth k) : j = k := by
  have hmod : c.cursor - c.first + j ≡ c.cursor - c.first + k [MOD c.size] :=
    Nat.add_left_cancel h
  exact Nat.ModEq.eq_of_lt_of_lt (Nat.ModEq.add_left_cancel' _ hmod) hj hk

/-- From the start of its range a cycler gives the range over and over. -/
theorem nth_of_start {c : Cycler} (h : c.cursor = c.first) (k : Nat) :
    c.nth k = c.first + k % c.size := by
  rw [nth, h, Nat.sub_self, Nat.zero_add]

end Cycler

/-! ## Pools -/

namespace Pool

theorem size_next (p : Pool) : p.next.2.size = p.size := p.cycler.size_next

/-- A pool gives what its cycler gives, with collision groups. -/
theorem take_eq (n : Nat) (p : Pool) :
    p.take n = ((p.cycler.take n).1.map fun bullet => (bullet, bullet + p.size),
      { p with cycler := (p.cycler.take n).2 }) := by
  induction n generalizing p with
  | zero => rfl
  | succ n ih =>
      show (p.next.1 :: (p.next.2.take n).1, (p.next.2.take n).2) = _
      rw [ih, size_next]
      rfl

/-- A pool gives bullets one at a time. -/
theorem take_snd (n : Nat) (p : Pool) : (p.take n).2 = (fun q : Pool => q.next.2)^[n] p := by
  induction n generalizing p with
  | zero => rfl
  | succ n ih =>
      rw [Function.iterate_succ_apply, ← ih]
      rfl

/-- The shot `k` places on from the cursor. -/
def nth (p : Pool) (k : Nat) : Group × Group := (p.cycler.nth k, p.cycler.nth k + p.size)

theorem take_fst (n : Nat) (p : Pool) : (p.take n).1 = (List.range n).map p.nth := by
  rw [take_eq, Cycler.take_fst, List.map_map]
  rfl

theorem size_take (n : Nat) (p : Pool) : (p.take n).2.size = p.size := by
  rw [take_eq]
  exact p.cycler.size_take n

/-- What a pool gives after `k` other shots. -/
theorem next_take (k : Nat) (p : Pool) : (p.take k).2.next.1 = p.nth k := by
  rw [take_eq]
  show ((p.cycler.take k).2.cursor, (p.cycler.take k).2.cursor + (p.cycler.take k).2.size) = _
  rw [← Cycler.nth_zero, Cycler.nth_take, Cycler.size_take]
  rfl

theorem length_take (n : Nat) (p : Pool) : (p.take n).1.length = n := by
  rw [take_fst, List.length_map, List.length_range]

theorem collision_of_take {p : Pool} {n : Nat} {shot : Group × Group}
    (h : shot ∈ (p.take n).1) : shot.2 = shot.1 + p.size := by
  rw [take_fst] at h
  obtain ⟨k, -, rfl⟩ := List.mem_map.1 h
  rfl

/-- Collision groups lie behind the bullets. -/
theorem last_lt_collision (p : Pool) (k : Nat) : p.cycler.last < (p.nth k).2 := by
  have hfirst := p.cycler.first_le_nth k
  have hrange := Nat.le_trans p.cycler.first_le p.cycler.le_last
  show p.cycler.last < p.cycler.nth k + (p.cycler.last - p.cycler.first + 1)
  omega

/-- Up to as many shots as the pool has bullets have different groups, wherever the
cursor is. -/
theorem nodup_take {p : Pool} {n : Nat} (h : n ≤ p.size) :
    ((p.take n).1.map Prod.fst ++ (p.take n).1.map Prod.snd).Nodup := by
  have hbullets : ((List.range n).map p.cycler.nth).Nodup := by
    refine List.Nodup.map_on (fun j hj k hk heq => ?_) List.nodup_range
    exact Cycler.nth_inj (Nat.lt_of_lt_of_le (List.mem_range.1 hj) h)
      (Nat.lt_of_lt_of_le (List.mem_range.1 hk) h) heq
  have hcollisions : (((List.range n).map p.cycler.nth).map (· + p.size)).Nodup :=
    hbullets.map fun _ _ => Nat.add_right_cancel
  rw [take_fst, List.map_map, List.map_map]
  refine List.nodup_append.2 ⟨hbullets, ?_, ?_⟩
  · rwa [List.map_map] at hcollisions
  · -- A bullet is in the range, a collision group behind it.
    intro bullet hbullet collision hcollision heq
    obtain ⟨j, -, rfl⟩ := List.mem_map.1 hbullet
    obtain ⟨k, -, rfl⟩ := List.mem_map.1 hcollision
    have hbehind := p.last_lt_collision k
    rw [show (p.nth k).2 = p.cycler.nth j from heq.symm] at hbehind
    exact Nat.not_lt.2 (p.cycler.nth_le_last j) hbehind

theorem exists_new {first last : Group} (oriented : Bool) (h : first ≤ last) :
    ∃ p, Pool.new first last oriented = .ok p ∧
      p.cycler.first = first ∧ p.cycler.last = last ∧ p.cycler.cursor = first := by
  refine ⟨⟨⟨first, last, first, Nat.le_refl first, h⟩, oriented⟩, ?_, rfl, rfl, rfl⟩
  unfold new Cycler.new
  rw [dif_pos h]
  rfl

/-- A pool whose groups all fit gives its range over and over.  A window of at most one
cycle has every group once, and no collision group is ever a bullet. -/
theorem draws_cycle {first last : Group} (oriented : Bool) (hrange : first ≤ last)
    (hfits : last + (last - first + 1) ≤ Group.greatest) :
    ∃ pool, Pool.new first last oriented = .ok pool ∧ pool.size = last - first + 1 ∧
      (∀ k, (pool.take k).2.next.1 =
        (first + k % pool.size, first + k % pool.size + pool.size)) ∧
      (∀ start n, n ≤ pool.size →
        let window := ((pool.take start).2.take n).1
        (window.map Prod.fst ++ window.map Prod.snd).Nodup) ∧
      ∀ k, (pool.take k).2.next.1.2 ≤ Group.greatest ∧
        ∀ g, first ≤ g → g ≤ last → (pool.take k).2.next.1.2 ≠ g := by
  obtain ⟨pool, hpool, rfl, rfl, hcursor⟩ := exists_new oriented hrange
  refine ⟨pool, hpool, rfl, fun k => ?_, fun start n hn => ?_, fun k => ?_⟩
  · rw [next_take, nth, Cycler.nth_of_start hcursor]
    rfl
  · rw [← size_take start pool] at hn
    exact nodup_take hn
  · rw [next_take]
    refine ⟨?_, fun g _ hg => ?_⟩
    · exact Nat.le_trans (Nat.add_le_add_right (pool.cycler.nth_le_last k) _) hfits
    · exact Nat.ne_of_gt (Nat.lt_of_le_of_lt hg (pool.last_lt_collision k))

/-- The three greatest bullets a pool can have.  Its draws from the last bullet on. -/
theorem draws_cycle_greatest :
    ∃ pool, Pool.new 4294967290 4294967292 true = .ok pool ∧
      ((pool.take 2).2.take 3).1 =
        [(4294967292, 4294967295), (4294967290, 4294967293), (4294967291, 4294967294)] ∧
      (((pool.take 2).2.take 3).1.map Prod.fst ++ ((pool.take 2).2.take 3).1.map Prod.snd).Nodup ∧
      ∀ k, (pool.take k).2.next.1 = (4294967290 + k % 3, 4294967290 + k % 3 + 3) := by
  obtain ⟨pool, hpool, hsize, hnth, hwindow, -⟩ :=
    draws_cycle true (show (4294967290 : Group) ≤ 4294967292 by decide) (by decide)
  refine ⟨pool, hpool, ?_, hwindow 2 3 (Nat.le_of_eq hsize.symm), fun k => ?_⟩
  · cases hpool
    decide
  · rw [hnth, hsize]

end Pool

end Barrage
