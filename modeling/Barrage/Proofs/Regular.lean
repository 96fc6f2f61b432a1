import Barrage.Proofs.Burst.Bases
import Barrage.Proofs.Validity

/-!
# Regular contexts

A context is *regular* if its configuration is accepted, its records are sound,
and its bases are enrolled: they have the capacities 1, 2, 4 and so on, and their
groups are valid.  Nothing is said about the components of the bases, so that calls
may address them.

Every context that a run reaches is regular (`Run.regular`).  The property survives
each ingredient of a pattern, so it holds in the middle of a pattern too
(`Context.Regular.ingredients`).

Groups are numbers without bound here, but those of a level have 32 bits.  Two sums may
leave that range: the end of the scratch area, and the counter of issued groups.  A context
is *in range* if neither has done so (`Context.InRange`).  The counter never goes back, so
what led to such a context was in range too, and in a regular one all valid groups are.
-/

namespace Barrage

open Build

/-! ## Accepted configurations -/

namespace Config

variable {config : Config}

/-- A configuration is accepted if it passes each of the checks. -/
theorem fault?_eq_none : config.fault? = none ↔
    (1 ≤ config.tiers ∧ config.tiers ≤ 16) ∧ config.maxGroup < config.unknownStart ∧
      (1 ≤ config.scratchStart ∧ config.scratchEnd ≤ config.maxGroup) ∧
      ∀ g ∈ config.reserved, ¬ (config.scratchStart ≤ g ∧ g ≤ config.scratchEnd) := by
  have hcheck {c : Prop} [Decidable c] {fault : ConfigFault} {rest : Option ConfigFault} :
      (if c then some fault else rest) = none ↔ ¬ c ∧ rest = none := by
    split <;> simp [*]
  simp only [fault?, hcheck, not_not, not_or, Nat.not_le, Nat.not_lt, Nat.one_le_iff_ne_zero,
    Option.map_eq_none_iff, List.find?_eq_none, decide_eq_true_eq]

theorem bounds_of_fault? (h : config.fault? = none) :
    1 ≤ config.tiers ∧ config.scratchEnd ≤ config.maxGroup := by
  obtain ⟨htiers, -, hscratch, -⟩ := fault?_eq_none.1 h
  exact ⟨htiers.1, hscratch.2⟩

theorem maxGroup_lt_of_fault? (h : config.fault? = none) : config.maxGroup < config.unknownStart :=
  (fault?_eq_none.1 h).2.1

/-- The scratch area is made of hand-assigned groups that are not reserved. -/
theorem free_of_fault? (h : config.fault? = none) {g : Group}
    (hg : config.scratchStart ≤ g ∧ g ≤ config.scratchEnd) :
    g ∉ config.reserved ∧ 1 ≤ g ∧ g ≤ config.maxGroup := by
  obtain ⟨-, -, ⟨hpos, hend⟩, hfree⟩ := fault?_eq_none.1 h
  exact ⟨fun hreserved => hfree g hreserved hg, Nat.le_trans hpos hg.1, Nat.le_trans hg.2 hend⟩

/-- The check of the configuration stays within 32 bits.  It computes the end of the scratch
area once it has accepted the number of tiers and the order of issued groups. -/
def InRange (config : Config) : Prop :=
  1 ≤ config.tiers ∧ config.tiers ≤ 16 → config.maxGroup < config.unknownStart →
    config.scratchStart + stride * config.largestTier ≤ Group.greatest

instance : Decidable config.InRange := inferInstanceAs (Decidable (_ → _ → _))

/-- The scratch area of an accepted configuration ends below the groups that are issued. -/
theorem inRange_of_fault? (h : config.fault? = none)
    (hstart : config.unknownStart ≤ Group.greatest) : config.InRange := by
  intro _ hmax
  calc config.scratchStart + stride * config.largestTier
      _ ≤ config.maxGroup + 1 := Nat.le_add_of_sub_le (bounds_of_fault? h).2
      _ ≤ config.unknownStart := hmax
      _ ≤ Group.greatest := hstart

end Config

/-- The end of the scratch area and the next group to be issued have 32 bits. -/
structure Context.InRange (ctx : Context) : Prop where
  scratch : ctx.config.InRange
  issued : ctx.nextUnknown ≤ Group.greatest

instance (ctx : Context) : Decidable ctx.InRange :=
  decidable_of_iff (ctx.config.InRange ∧ ctx.nextUnknown ≤ Group.greatest)
    ⟨fun h => ⟨h.1, h.2⟩, fun h => ⟨h.1, h.2⟩⟩

/-- An accepted configuration asks for a base. -/
theorem Bases.tiers_ne_nil {b : Bases} {config : Config} (haccepted : config.fault? = none)
    (hcapacities : b.tiers.map Base.capacity = (List.range config.tiers).map (Nat.pow 2)) :
    b.tiers ≠ [] := by
  have hlen := length_of_capacities hcapacities
  have := (Config.bounds_of_fault? haccepted).1
  exact List.ne_nil_of_length_pos (by omega)

/-- The bases can be used in plans. -/
structure Bases.Enrolled (b : Bases) (ctx : Context) : Prop where
  capacities : b.tiers.map Base.capacity = (List.range ctx.config.tiers).map (Nat.pow 2)
  valid : ∀ base ∈ b.tiers, ctx.Valid base.group

structure Context.Regular (ctx : Context) : Prop where
  accepted : ctx.config.fault? = none
  sound : ctx.Sound
  enrolled : ∀ b ∈ ctx.bases, b.Enrolled ctx

/-- A base that was just built has a record, which shows that its group is valid. -/
theorem Bases.Intact.enrolled {b : Bases} {ctx : Context} (h : b.Intact ctx) (hsound : ctx.Sound) :
    b.Enrolled ctx := by
  refine ⟨h.capacities, fun base hbase => ?_⟩
  obtain ⟨c, hc, hcaller, heffects⟩ := h.built base hbase
  have hcapacity : 0 < base.capacity := by
    have hmem : base.capacity ∈ b.tiers.map Base.capacity := List.mem_map_of_mem hbase
    rw [h.capacities] at hmem
    obtain ⟨t, -, ht⟩ := List.mem_map.1 hmem
    rw [← ht]
    exact Nat.two_pow_pos t
  cases hrecords : c.records with
  | nil =>
      have hlen := congrArg List.length heffects
      simp only [hrecords, List.map_nil, List.length_nil, List.length_map,
        List.length_range] at hlen
      omega
  | cons r rest =>
      have hr := hsound c (List.mem_of_getElem? hc) r (by simp [hrecords])
      obtain ⟨others, hgroups⟩ := hr.caller
      rw [← hcaller]
      exact hr.owners c.caller (by simp [hgroups])

namespace Context.Regular

variable {ctx ctx' : Context}

/-- Components and groups may change while the registry of bases stays. -/
theorem evolves {A : Nat → Prop} (h : ctx.Regular) (hbases : ctx'.bases = ctx.bases)
    (hevolves : Evolves A ctx ctx') : ctx'.Regular := by
  have hconfig := hevolves.extension.config
  refine ⟨hconfig ▸ h.accepted, hevolves.keeps Sound.change h.sound, fun b hb => ?_⟩
  obtain ⟨hcapacities, hvalid⟩ := h.enrolled b (hbases ▸ hb)
  exact ⟨hconfig ▸ hcapacities, fun base hbase => hevolves.valid (hvalid base hbase)⟩

theorem requireBases : Keeps Regular Context.requireBases := by
  intro ctx h
  have hevolves := Evolves.requireBases (A := fun _ => True) (fun _ _ => trivial) ctx (.refl ctx)
  have hsound := hevolves.keeps Sound.change h.sound
  rcases hrun : Context.requireBases ctx with ⟨e | b, ctx'⟩ <;> rw [hrun] at hevolves hsound
  · refine ⟨hevolves.extension.config ▸ h.accepted, hsound, fun b hb => ?_⟩
    rw [requireBases_eq_error hrun] at hb
    cases hb
  · rcases requireBases_eq_ok hrun with ⟨-, rfl⟩ | ⟨hbases, hintact, -⟩
    · exact h
    · refine ⟨hevolves.extension.config ▸ h.accepted, hsound, fun b' hb' => ?_⟩
      cases hbases.symm.trans hb'
      exact hintact.enrolled hsound

theorem durable : Durable Regular := ⟨evolves, requireBases⟩

theorem ingredients (caller : Nat) : Ingredients Regular caller := durable.ingredients caller

theorem ofConfig {config : Config} (h : config.fault? = none) :
    (Context.ofConfig config).Regular :=
  ⟨h, .ofConfig config, fun _ hb => nomatch hb⟩

/-- Only the counter matters where groups are issued in order. -/
theorem inRange (h : ctx.Regular) (hissuing : ctx.config.unknownStart ≤ ctx.nextUnknown)
    (hissued : ctx.nextUnknown ≤ Group.greatest) : ctx.InRange :=
  ⟨Config.inRange_of_fault? h.accepted (Nat.le_trans hissuing hissued), hissued⟩

/-- All valid groups are below the next one to be issued. -/
theorem lt_nextUnknown (h : ctx.Regular) (hissuing : ctx.config.unknownStart ≤ ctx.nextUnknown)
    {g : Group} (hg : ctx.Valid g) : g < ctx.nextUnknown := by
  rcases (valid_iff.1 hg).2 with ⟨-, hhand⟩ | ⟨-, hissued⟩
  · have hmax := Config.maxGroup_lt_of_fault? h.accepted
    exact Nat.lt_of_le_of_lt hhand (Nat.lt_of_lt_of_le hmax hissuing)
  · exact hissued

end Context.Regular

/-! ## Runs -/

/-- Groups are issued from the first one on. -/
theorem Run.issuing {ok : Context → Call → Prop} {ctx : Context} (h : Run ok ctx) :
    ctx.config.unknownStart ≤ ctx.nextUnknown := by
  refine h.holds (P := fun ctx => ctx.config.unknownStart ≤ ctx.nextUnknown)
    (fun _ _ => Nat.le_refl _) fun {ctx} k _ hissuing => ?_
  obtain ⟨hconfig, hnext, -⟩ := (k.evolves ctx).extension
  rw [hconfig]
  exact Nat.le_trans hissuing hnext

/-- Every context that a run reaches is regular. -/
theorem Run.regular {ok : Context → Call → Prop} {ctx : Context} (h : Run ok ctx) :
    ctx.Regular :=
  Context.Regular.durable.run (fun _ haccepted => .ofConfig haccepted) h

end Barrage
