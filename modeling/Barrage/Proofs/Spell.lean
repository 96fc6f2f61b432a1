import Barrage.Proofs.Call

/-!
# Spells of a run

Spells change by two calls only.  One registers a spell without components, and the
other adds a registered component to a spell that does not have it yet.  Everything
else leaves the spells as they are (`Call.spells_run`), and no call removes a
component.  So in every context that a run reaches a spell lists registered components,
each of them once (`Reachable.enrolled`).
-/

namespace Barrage

open Build

/-- Only two calls change spells. -/
theorem Call.spells_run {k : Call} (ctx : Context)
    (hregister : ∀ name caller, k ≠ .addSpell name caller)
    (hadd : ∀ spell component, k ≠ .addToSpell spell component) :
    (k.run ctx).spells = ctx.spells := by
  let P (ctx' : Context) : Prop := ctx'.spells = ctx.spells
  have helements : Elements P fun _ => True := .caches fun h _ _ hspells => hspells.trans h
  have hkeep : ∀ b, Keeps P (Context.keepBases b) := fun _ => .change fun _ h => h
  cases k with
  | addSpell name caller => exact absurd rfl (hregister name caller)
  | addToSpell spell component => exact absurd rfl (hadd spell component)
  | initBases => exact helements.initBases hkeep ctx rfl
  | requireBases => exact helements.requireBases hkeep ctx rfl
  | edit i e => exact (e.caches_run i ctx).2.2
  | groupLastRecord i groups =>
      rw [run]
      rcases Context.groupLastRecord_snd ctx i groups with heq | ⟨c, -, -, heq⟩ <;> rw [heq]
      rfl
  | scale i time target scaling =>
      exact helements.scale (fun _ _ h => h) trivial time target scaling ctx rfl
  | pattern caller pool p => exact (helements.ingredients hkeep trivial).pattern p ⟨ctx, pool⟩ rfl
  | register | issueGroup | drainWarnings => rfl

/-- Every spell lists registered components, each of them once. -/
def Context.Enrolled (ctx : Context) : Prop :=
  ∀ s ∈ ctx.spells, s.components.Nodup ∧ ∀ i ∈ s.components, i < ctx.components.length

namespace Context.Enrolled

variable {ctx ctx' : Context}

/-- Components may be added as long as the spells stay. -/
theorem frame (h : ctx.Enrolled) (hspells : ctx'.spells = ctx.spells)
    (hlength : ctx.components.length ≤ ctx'.components.length) : ctx'.Enrolled := by
  intro s hs
  rw [hspells] at hs
  obtain ⟨hnodup, hbound⟩ := h s hs
  exact ⟨hnodup, fun i hi => Nat.lt_of_lt_of_le (hbound i hi) hlength⟩

theorem addSpell (h : ctx.Enrolled) (name : String) (caller : Group) :
    (ctx.addSpell name caller).2.Enrolled := by
  intro s hs
  rcases List.mem_append.1 hs with hs | hs
  · exact h s hs
  · cases List.mem_singleton.1 hs
    exact ⟨List.nodup_nil, fun _ hi => nomatch hi⟩

theorem addToSpell (h : ctx.Enrolled) {spell component : Nat}
    (hadd : ctx.addToSpell spell component = .ok ctx') : ctx'.Enrolled := by
  rcases addToSpell_cases hadd with rfl | ⟨s, hs, hlt, hnew, rfl⟩
  · exact h
  · intro s' hs'
    rcases List.mem_or_eq_of_mem_set hs' with hs' | rfl
    · exact h s' hs'
    · obtain ⟨hnodup, hbound⟩ := h s hs
      refine ⟨List.nodup_append.2 ⟨hnodup, List.pairwise_singleton _ _, ?_⟩, ?_⟩
      · intro i hi j hj hij
        rw [hij, List.mem_singleton.1 hj] at hi
        exact hnew hi
      · intro i hi
        rcases List.mem_append.1 hi with hi | hi
        · exact hbound i hi
        · rw [List.mem_singleton.1 hi]
          exact hlt

theorem call (h : ctx.Enrolled) (k : Call) : (k.run ctx).Enrolled := by
  have hlength := (k.evolves ctx).length_le
  cases k with
  | addSpell name caller => exact h.addSpell name caller
  | addToSpell spell component =>
      rw [Call.run]
      split
      next hadd => exact h.addToSpell hadd
      next => exact h
  | register | issueGroup | drainWarnings | initBases | requireBases | edit | groupLastRecord
  | scale | pattern =>
      exact h.frame (Call.spells_run ctx (fun _ _ => Call.noConfusion) fun _ _ => Call.noConfusion)
        hlength

end Context.Enrolled

theorem Reachable.enrolled {ctx : Context} (h : Reachable ctx) : ctx.Enrolled :=
  Run.holds (fun _ _ _ hs => nomatch hs) (fun k _ henrolled => henrolled.call k) h

end Barrage
