import Mathlib.Data.List.Nodup
import Barrage.Proofs.Remap.Wire
import Barrage.Record.Basic

/-!
# Fields of records

A document shows a record as a list of fields.  Some fields do not depend on the
effect of the record (`Field.common`), and the others are those of its effect.
No field is shown twice (`Record.nodup_fields`), so to look a field up is to find it
in the part where it belongs (`Record.field?_eq_some_iff`).

What a reader of a document sees of a spawn are its target and its remap, the
latter as a text.  `Record.shownTarget?` and `Record.shownRemap?` read them.
-/

namespace Barrage

/-! ## Fields -/

/-- The fields that hold a group. -/
def Field.groupValued : List Field :=
  [Field.target, Field.second, Field.aimTarget, Field.moveCenter]

/-- The fields that do not depend on the effect of a record. -/
def Field.common : List Field :=
  [Field.kind, Field.x, Field.y, Field.layer, Field.groups, Field.spawnTriggered,
    Field.multiTriggered]

theorem Field.not_common_of_groupValued : ∀ f ∈ Field.groupValued, f ∉ Field.common := by
  decide

namespace Effect

/-- The group-valued fields hold the groups that the effect refers to. -/
theorem group_of_field {e : Effect} {f : Field} {v : Value} (h : (f, v) ∈ e.fields)
    (hf : f ∈ Field.groupValued) : ∃ g ∈ e.groupRefs, v = .group g := by
  simp only [Field.groupValued, Field.target, Field.second, Field.aimTarget, Field.moveCenter,
    List.mem_cons, List.not_mem_nil, or_false] at hf
  rcases hf with rfl | rfl | rfl | rfl <;> cases e <;>
    simp [fields, target?, ownFields, tweenFields, groupRefs, Field.target, Field.second,
      Field.aimTarget, Field.moveCenter, Field.duration, Field.spawnOrdered, Field.spawnDelay,
      Field.remap] at h ⊢ <;>
    simp [h]

/-- The field of a remap holds the text of the remap. -/
theorem remap_of_field {e : Effect} {v : Value} (h : (Field.remap, v) ∈ e.fields) :
    ∃ t, e.remap? = some t ∧ v = .text t.wire := by
  cases e with
  | spawn g ordered delay remap =>
      simp [fields, target?, ownFields, Field.target, Field.spawnOrdered, Field.spawnDelay,
        Field.remap] at h
      obtain ⟨t, ht, rfl⟩ := h
      exact ⟨t, ht, rfl⟩
  | _ =>
      simp [fields, target?, ownFields, tweenFields, Field.target, Field.second, Field.aimTarget,
        Field.moveCenter, Field.duration, Field.remap] at h

/-- The fields of an effect are distinct, and none of them is common. -/
theorem fields_distinct (e : Effect) :
    (e.fields.map Prod.fst).Nodup ∧ ∀ f ∈ e.fields.map Prod.fst, f ∉ Field.common := by
  -- Which fields there are depends on no value but on those that may be left out.
  cases e with
  | spawn g ordered delay remap =>
      cases delay <;> cases remap <;> exact of_decide_eq_true rfl
  | pulse g color timing exclusive => cases exclusive <;> exact of_decide_eq_true rfl
  | moveTowards g direction distance tween dynamic =>
      cases dynamic <;> exact of_decide_eq_true rfl
  | _ => exact of_decide_eq_true rfl

end Effect

namespace Record

/-- The fields that do not depend on the effect, with their values. -/
def commonFields (r : Record) : List (Field × Value) :=
  [(Field.kind, .int r.kind.id), (Field.x, .float r.x)]
    ++ (r.y.toList.map fun y => (Field.y, .float y))
    ++ [(Field.layer, .int r.layer), (Field.groups, .groups r.groups),
      (Field.spawnTriggered, .bool true), (Field.multiTriggered, .bool true)]

theorem mem_fields {r : Record} {p : Field × Value} :
    p ∈ r.fields ↔ p ∈ r.commonFields ∨ p ∈ r.effect.fields := by
  simp only [fields, List.mem_mergeSort]
  exact List.mem_append

theorem common_of_mem {r : Record} {p : Field × Value} (h : p ∈ r.commonFields) :
    p.1 ∈ Field.common := by
  simp only [commonFields, List.mem_append, List.mem_cons, List.not_mem_nil, or_false,
    List.mem_map] at h
  rcases h with ((rfl | rfl) | ⟨_, -, rfl⟩) | (rfl | rfl | rfl | rfl) <;> simp [Field.common]

theorem nodup_commonFields (r : Record) : (r.commonFields.map Prod.fst).Nodup := by
  rw [commonFields]
  cases r.y <;> exact of_decide_eq_true rfl

/-- No field is shown twice. -/
theorem nodup_fields (r : Record) : (r.fields.map Prod.fst).Nodup := by
  have hsort : r.fields.Perm (r.commonFields ++ r.effect.fields) := List.mergeSort_perm _ _
  obtain ⟨hnodup, hdisjoint⟩ := r.effect.fields_distinct
  rw [(hsort.map Prod.fst).nodup_iff, List.map_append, List.nodup_append']
  refine ⟨r.nodup_commonFields, hnodup, fun f hcommon heffect => hdisjoint f heffect ?_⟩
  obtain ⟨p, hp, rfl⟩ := List.mem_map.1 hcommon
  exact common_of_mem hp

theorem field?_eq_some_iff {r : Record} {f : Field} {v : Value} :
    r.field? f = some v ↔ (f, v) ∈ r.fields := by
  have hmem : ∀ {w}, r.field? f = some w → (f, w) ∈ r.fields := by
    intro w hw
    obtain ⟨l₁, l₂, hl, -⟩ := List.lookup_eq_some_iff.1 hw
    rw [hl]
    exact List.mem_append_right _ List.mem_cons_self
  refine ⟨hmem, fun hv => ?_⟩
  cases hw : r.field? f with
  | none =>
      have := List.lookup_eq_none_iff.1 hw (f, v) hv
      simp at this
  | some w =>
      have hvw := List.inj_on_of_nodup_map r.nodup_fields (hmem hw) hv rfl
      rw [(Prod.mk.inj hvw).2]

/-- A common field has the value that the record gives it, whatever the effect. -/
theorem field?_of_common {r : Record} {f : Field} {v : Value} (h : (f, v) ∈ r.commonFields) :
    r.field? f = some v :=
  field?_eq_some_iff.2 (mem_fields.2 (Or.inl h))

/-- A field outside of the common ones belongs to the effect. -/
theorem field?_eq_some_of_not_common {r : Record} {f : Field} {v : Value}
    (hf : f ∉ Field.common) : r.field? f = some v ↔ (f, v) ∈ r.effect.fields := by
  rw [field?_eq_some_iff, mem_fields]
  exact ⟨fun h => h.resolve_left fun hc => hf (common_of_mem hc), Or.inr⟩

/-! ## Spawns -/

/-- The group that the record shows as its target. -/
def shownTarget? (r : Record) : Option Group :=
  match r.field? Field.target with
  | some (.int (.ofNat g)) => some g
  | _ => none

/-- The remap that the record shows, read from its text. -/
def shownRemap? (r : Record) : Option Remap :=
  match r.field? Field.remap with
  | some (.text s) => (Remap.parse s).toOption
  | _ => none

theorem shownTarget?_of_spawn {r : Record} {g : Group} {ordered : Bool} {delay : Option Float}
    {remap : Option Remap} (h : r.effect = .spawn g ordered delay remap) :
    r.shownTarget? = some g := by
  have hfield : r.field? Field.target = some (.group g) := by
    rw [field?_eq_some_of_not_common (by decide), h]
    exact List.mem_cons_self
  rw [shownTarget?, hfield]
  rfl

/-- The text of a remap is read as the remap that the spawn carries. -/
theorem shownRemap?_of_spawn {r : Record} {g : Group} {ordered : Bool} {delay : Option Float}
    {t : Remap} (h : r.effect = .spawn g ordered delay (some t)) (hne : t.pairs ≠ [])
    (hfit : t.Fits) : r.shownRemap? = some t := by
  have hfield : r.field? Field.remap = some (.text t.wire) := by
    rw [field?_eq_some_of_not_common (by decide), h]
    simp [Effect.fields, Effect.ownFields]
  rw [shownRemap?, hfield]
  simp only [Remap.parse_wire hne hfit]
  rfl

theorem shownRemap?_eq_some {r : Record} {t : Remap} (hfit : ∀ t ∈ r.effect.remap?, t.Fits) :
    r.shownRemap? = some t ↔ r.effect.remap? = some t ∧ t.pairs ≠ [] := by
  constructor
  · intro h
    unfold shownRemap? at h
    split at h
    next s hs =>
      obtain ⟨u, hu, hvalue⟩ :=
        Effect.remap_of_field ((field?_eq_some_of_not_common (by decide)).1 hs)
      cases hvalue
      by_cases hne : u.pairs = []
      · -- The text of an empty table is empty, and no table is read from it.
        rw [Remap.ext (s := .empty) hne] at h
        cases h
      · rw [Remap.parse_wire hne (hfit u hu)] at h
        cases h
        exact ⟨hu, hne⟩
    next => cases h
  · rintro ⟨ht, hne⟩
    cases he : r.effect with
    | spawn g ordered delay remap =>
        rw [he] at ht
        cases ht
        exact shownRemap?_of_spawn he hne (hfit t (by rw [he]; rfl))
    | _ => simp [he, Effect.remap?] at ht

end Record

end Barrage
