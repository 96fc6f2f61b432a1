import Mathlib.Data.List.Forall2
import Barrage.Burst.Basic
import Barrage.Proofs.Remap.Wire

/-!
# Plans cover their assignments

A plan cuts the assignments into pieces, writes the length of each piece in
binary, and runs one base per digit one.  Nothing is lost and nothing is
repeated: the bursts of a plan correspond one by one to consecutive parts of the
list of assignments, and each burst carries exactly as many of them as its base
has spawns (`Bases.planAll_carries`).  With two assignments and two bases, one of the
bursts runs a base that has two spawns or more (`Bases.planAll_wide`).

The reason is that the capacities are the powers of two below the ceiling.  A
base that fits leaves less than its own capacity, so what remains fits into the
smaller bases, down to nothing.
-/

namespace Barrage.Bases

/-- The capacities are 1, 2, 4 and so on. -/
def Binary (b : Bases) : Prop :=
  b.tiers.map Base.capacity = (List.range b.tiers.length).map (Nat.pow 2)

/-- A burst that runs a base with a part of the assignments, one for each spawn of
the base. -/
structure Carries (b : Bases) (template : Group) (burst : Burst) (part : List Assignment) :
    Prop where
  base : ∃ base ∈ b.tiers, base.group = burst.group ∧ base.capacity = part.length
  remap : burst.remap.pairs = (Group.template, template) :: blockPairs b.scratchStart 0 part

/-! ## Capacities -/

theorem length_of_capacities {b : Bases} {n : Nat}
    (h : b.tiers.map Base.capacity = (List.range n).map (Nat.pow 2)) : b.tiers.length = n := by
  simpa using congrArg List.length h

theorem binary_of_capacities {b : Bases} {n : Nat}
    (h : b.tiers.map Base.capacity = (List.range n).map (Nat.pow 2)) : b.Binary := by
  rw [Binary, length_of_capacities h]
  exact h

/-- The number of spawns of some bases. -/
def spawns (l : List Base) : Nat := l.foldr (fun base n => base.capacity + n) 0

@[simp] theorem spawns_nil : spawns [] = 0 := rfl

@[simp] theorem spawns_cons (base : Base) (l : List Base) :
    spawns (base :: l) = base.capacity + spawns l := rfl

@[simp] theorem spawns_append (l₁ l₂ : List Base) : spawns (l₁ ++ l₂) = spawns l₁ + spawns l₂ := by
  induction l₁ with
  | nil => simp
  | cons base rest ih => simp [ih, Nat.add_assoc]

/-- All powers of two below a power of two add up to one less. -/
theorem spawns_powers {t : Nat} : ∀ {l : List Base},
    l.map Base.capacity = (List.range t).map (Nat.pow 2) → spawns l + 1 = Nat.pow 2 t := by
  induction t with
  | zero =>
      intro l hl
      obtain rfl : l = [] := by simpa using hl
      rfl
  | succ t ih =>
      intro l hl
      rw [List.range_succ, List.map_append] at hl
      obtain ⟨init, last, rfl, hinit, hlast⟩ := List.map_eq_append_iff.1 hl
      obtain ⟨base, rfl, hcap⟩ := List.map_eq_singleton_iff.1 hlast
      have hpow : Nat.pow 2 (t + 1) = 2 * Nat.pow 2 t := Nat.pow_succ'
      have hspawns := ih hinit
      simp only [spawns_append, spawns_cons, spawns_nil]
      omega

theorem ceiling_of_binary {b : Bases} (h : b.Binary) :
    b.ceiling + 1 = Nat.pow 2 b.tiers.length := spawns_powers h

/-- The bases that are picked have just enough spawns, if they are picked from the
powers of two in descending order. -/
theorem spawns_pick {t : Nat} : ∀ {l : List Base} {n : Nat},
    l.map Base.capacity = ((List.range t).map (Nat.pow 2)).reverse → n < Nat.pow 2 t →
    spawns (pick n l) = n := by
  induction t with
  | zero =>
      intro l n hl hn
      obtain rfl : l = [] := by simpa using hl
      have : n = 0 := Nat.lt_one_iff.1 hn
      simp [pick, this]
  | succ t ih =>
      intro l n hl hn
      rw [List.range_succ, List.map_append, List.reverse_append] at hl
      obtain ⟨base, rest, rfl, hcap, hrest⟩ := List.map_eq_cons_iff.1 hl
      have hpow : Nat.pow 2 (t + 1) = 2 * Nat.pow 2 t := Nat.pow_succ'
      rw [pick]
      split
      next hfits =>
        -- What the base leaves is below its own capacity.
        rw [spawns_cons, ih hrest (by omega)]
        omega
      next hfits => exact ih hrest (by omega)

/-- One of the bases that are picked takes more than half of the number. -/
theorem exists_half_of_pick {t : Nat} : ∀ {l : List Base} {n : Nat},
    l.map Base.capacity = ((List.range t).map (Nat.pow 2)).reverse → n < Nat.pow 2 t → 1 ≤ n →
    ∃ base ∈ pick n l, n < 2 * base.capacity := by
  induction t with
  | zero =>
      intro l n hl hlt hn
      have : n = 0 := Nat.lt_one_iff.1 hlt
      omega
  | succ t ih =>
      intro l n hl hlt hn
      rw [List.range_succ, List.map_append, List.reverse_append] at hl
      obtain ⟨base, rest, rfl, hcap, hrest⟩ := List.map_eq_cons_iff.1 hl
      have hpow : Nat.pow 2 (t + 1) = 2 * Nat.pow 2 t := Nat.pow_succ'
      rw [pick]
      split
      next hfits => exact ⟨base, List.mem_cons_self, by omega⟩
      next hfits => exact ih hrest (by omega) hn

theorem capacity_le_of_pick {n : Nat} {l : List Base} {base : Base} (h : base ∈ pick n l) :
    base.capacity ≤ n := by
  fun_induction pick n l with
  | case1 => cases h
  | case2 n first rest hfits ih =>
      rcases List.mem_cons.1 h with rfl | h
      · exact hfits
      · exact Nat.le_trans (ih h) (Nat.sub_le _ _)
  | case3 n first rest _ ih => exact ih h

/-- Each base is picked at most once, and in the order of the list. -/
theorem pick_sublist (n : Nat) (l : List Base) : (pick n l).Sublist l := by
  fun_induction pick n l with
  | case1 => exact List.Sublist.refl _
  | case2 n base rest _ ih => exact ih.cons_cons base
  | case3 n base rest _ ih => exact ih.cons base

theorem pick_subset (n : Nat) (l : List Base) : pick n l ⊆ l := (pick_sublist n l).subset

theorem decompose_eq_ok {b : Bases} {n : Nat} {l : List Base} :
    b.decompose n = .ok l ↔ n ≠ 0 ∧ n ≤ b.ceiling ∧ pick n b.tiers.reverse = l := by
  unfold decompose
  by_cases h₀ : n = 0
  · simp [h₀]
  · by_cases h₁ : b.ceiling < n
    · simp [h₀, h₁, Nat.not_le.2 h₁]
    · simp [h₀, h₁, Nat.le_of_not_lt h₁]

/-- The bases of a decomposition have just enough spawns. -/
theorem spawns_decompose {b : Bases} (hb : b.Binary) {n : Nat} {l : List Base}
    (h : b.decompose n = .ok l) : l ⊆ b.tiers ∧ spawns l = n := by
  obtain ⟨-, hle, rfl⟩ := decompose_eq_ok.1 h
  refine ⟨fun base hbase => List.mem_reverse.1 (pick_subset _ _ hbase), ?_⟩
  have hceiling := ceiling_of_binary hb
  exact spawns_pick (by rw [List.map_reverse, hb]) (by omega)

/-! ## Dealing -/

theorem burstRemap_eq_ok {b : Bases} {template : Group} {as : List Assignment} {r : Remap} :
    b.burstRemap template as = .ok r ↔
      r.pairs = (Group.template, template) :: blockPairs b.scratchStart 0 as := by
  rw [burstRemap, Remap.insertAll_eq_ok]
  rfl

/-- Bases with just enough spawns take the assignments in order. -/
theorem deal_carries {b : Bases} {template : Group} {bases : List Base} {as : List Assignment}
    {bursts : List Burst} (h : b.deal template bases as = .ok bursts) (hbases : bases ⊆ b.tiers)
    (hspawns : spawns bases = as.length) :
    ∃ parts : List (List Assignment), parts.flatten = as ∧
      List.Forall₂ (b.Carries template) bursts parts := by
  induction bases generalizing as bursts with
  | nil =>
      obtain rfl : as = [] := List.eq_nil_of_length_eq_zero hspawns.symm
      cases h
      exact ⟨[], rfl, .nil⟩
  | cons base rest ih =>
      simp only [deal, Except.bind_eq_ok, Except.pure_eq_ok] at h
      obtain ⟨r, hr, others, hothers, rfl⟩ := h
      obtain ⟨hbase, hrest⟩ := List.cons_subset.1 hbases
      rw [spawns_cons] at hspawns
      obtain ⟨parts, hparts, hcarries⟩ := ih hothers hrest (by rw [List.length_drop]; omega)
      refine ⟨as.take base.capacity :: parts, ?_, .cons ⟨⟨base, hbase, rfl, ?_⟩, ?_⟩ hcarries⟩
      · rw [List.flatten_cons, hparts, List.take_append_drop]
      · rw [List.length_take]
        omega
      · exact burstRemap_eq_ok.1 hr

/-- Every base gets a burst, which puts the template in the place of its placeholder. -/
theorem exists_burst_of_deal {b : Bases} {template : Group} {bases : List Base}
    {as : List Assignment} {bursts : List Burst} (h : b.deal template bases as = .ok bursts)
    {base : Base} (hbase : base ∈ bases) :
    ∃ burst ∈ bursts, burst.group = base.group ∧
      (Group.template, template) ∈ burst.remap.pairs := by
  induction bases generalizing as bursts with
  | nil => cases hbase
  | cons first rest ih =>
      simp only [deal, Except.bind_eq_ok, Except.pure_eq_ok] at h
      obtain ⟨r, hr, others, hothers, rfl⟩ := h
      rcases List.mem_cons.1 hbase with rfl | hbase
      · exact ⟨_, List.mem_cons_self, rfl, by simp [burstRemap_eq_ok.1 hr]⟩
      · obtain ⟨burst, hburst, hgroup⟩ := ih hothers hbase
        exact ⟨burst, List.mem_cons_of_mem _ hburst, hgroup⟩

theorem plan_eq_ok {b : Bases} {template : Group} {as : List Assignment} {bursts : List Burst} :
    b.plan template as = .ok bursts ↔
      ∃ bases, b.decompose as.length = .ok bases ∧ b.deal template bases as = .ok bursts := by
  simp only [plan, liftM, monadLift, MonadLift.monadLift, Except.bind_eq_ok, Except.mapError_eq_ok]

theorem plan_carries {b : Bases} (hb : b.Binary) {template : Group} {as : List Assignment}
    {bursts : List Burst} (h : b.plan template as = .ok bursts) :
    ∃ parts : List (List Assignment), parts.flatten = as ∧
      List.Forall₂ (b.Carries template) bursts parts := by
  obtain ⟨bases, hbases, hdeal⟩ := plan_eq_ok.1 h
  obtain ⟨hsubset, hspawns⟩ := spawns_decompose hb hbases
  exact deal_carries hdeal hsubset hspawns

/-- Two assignments are not dealt to the smallest base alone. -/
theorem plan_wide {b : Bases} (hb : b.Binary) {template : Group} {as : List Assignment}
    {bursts : List Burst} (h : b.plan template as = .ok bursts) (has : 2 ≤ as.length) :
    ∃ burst ∈ bursts, (∃ base ∈ b.tiers, base.group = burst.group ∧ 2 ≤ base.capacity) ∧
      (Group.template, template) ∈ burst.remap.pairs := by
  obtain ⟨bases, hbases, hdeal⟩ := plan_eq_ok.1 h
  obtain ⟨-, hle, rfl⟩ := decompose_eq_ok.1 hbases
  have hceiling := ceiling_of_binary hb
  have hlt : as.length < Nat.pow 2 b.tiers.length := by omega
  obtain ⟨base, hbase, hhalf⟩ :=
    exists_half_of_pick (by rw [List.map_reverse, hb]) hlt (by omega)
  obtain ⟨burst, hburst, hgroup, hremap⟩ := exists_burst_of_deal hdeal hbase
  have htiers : base ∈ b.tiers := List.mem_reverse.1 (pick_subset _ _ hbase)
  exact ⟨burst, hburst, ⟨base, htiers, hgroup.symm, by omega⟩, hremap⟩

/-! ## Pieces -/

theorem flatten_chunks {size : Nat} (hsize : size ≠ 0) (as : List Assignment) :
    (chunks size as).flatten = as := by
  fun_induction chunks size as with
  | case1 as h => simpa [hsize, eq_comm] using h
  | case2 as h ih => rw [List.flatten_cons, ih, List.take_append_drop]

theorem planPieces_carries {b : Bases} (hb : b.Binary) {template : Group}
    {pieces : List (List Assignment)} {bursts : List Burst}
    (h : b.planPieces template pieces = .ok bursts) :
    ∃ parts : List (List Assignment), parts.flatten = pieces.flatten ∧
      List.Forall₂ (b.Carries template) bursts parts := by
  induction pieces generalizing bursts with
  | nil =>
      cases h
      exact ⟨[], rfl, .nil⟩
  | cons piece rest ih =>
      simp only [planPieces, Except.bind_eq_ok, Except.pure_eq_ok] at h
      obtain ⟨first, hfirst, others, hothers, rfl⟩ := h
      obtain ⟨parts₁, hparts₁, hcarries₁⟩ := plan_carries hb hfirst
      obtain ⟨parts₂, hparts₂, hcarries₂⟩ := ih hothers
      refine ⟨parts₁ ++ parts₂, ?_, List.rel_append hcarries₁ hcarries₂⟩
      rw [List.flatten_append, hparts₁, hparts₂, List.flatten_cons]

/-- The bursts of a plan carry consecutive parts of the assignments. -/
theorem planAll_carries {b : Bases} (hb : b.Binary) (hne : b.tiers ≠ []) {template : Group}
    {as : List Assignment} {bursts : List Burst} (h : b.planAll template as = .ok bursts) :
    ∃ parts : List (List Assignment), parts.flatten = as ∧
      List.Forall₂ (b.Carries template) bursts parts := by
  have hceiling : b.ceiling ≠ 0 := by
    have := ceiling_of_binary hb
    have hlen : 0 < b.tiers.length := List.length_pos_iff.2 hne
    have : Nat.pow 2 1 ≤ Nat.pow 2 b.tiers.length := Nat.pow_le_pow_right (by decide) hlen
    have : Nat.pow 2 1 = 2 := rfl
    omega
  obtain ⟨parts, hparts, hcarries⟩ := planPieces_carries hb h
  exact ⟨parts, hparts.trans (flatten_chunks hceiling as), hcarries⟩

/-- A plan for two assignments or more has a burst of a base with two spawns or more,
since its first piece has two assignments or more. -/
theorem planAll_wide {b : Bases} (hb : b.Binary) (htiers : 2 ≤ b.tiers.length) {template : Group}
    {as : List Assignment} {bursts : List Burst} (h : b.planAll template as = .ok bursts)
    (has : 2 ≤ as.length) :
    ∃ burst ∈ bursts, (∃ base ∈ b.tiers, base.group = burst.group ∧ 2 ≤ base.capacity) ∧
      (Group.template, template) ∈ burst.remap.pairs := by
  have hceiling : 2 ≤ b.ceiling := by
    have := ceiling_of_binary hb
    have : Nat.pow 2 2 ≤ Nat.pow 2 b.tiers.length := Nat.pow_le_pow_right (by decide) htiers
    have : Nat.pow 2 2 = 4 := rfl
    omega
  have hpieces : ¬ (as = [] ∨ b.ceiling = 0) := by
    rintro (rfl | hzero)
    · simp at has
    · omega
  rw [planAll, chunks, dif_neg hpieces] at h
  simp only [planPieces, Except.bind_eq_ok, Except.pure_eq_ok] at h
  obtain ⟨first, hfirst, others, -, rfl⟩ := h
  have hlength : 2 ≤ (as.take b.ceiling).length := by
    rw [List.length_take]
    omega
  obtain ⟨burst, hburst, hwide⟩ := plan_wide hb hfirst hlength
  exact ⟨burst, List.mem_append_left _ hburst, hwide⟩

end Barrage.Bases
