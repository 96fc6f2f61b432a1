import Barrage.Component

/-!
# Components and their groups

A list of groups for a component is checked in itself: it is not empty and no group is repeated
(`Component.checkGroups_eq_ok`).

The last record of a component can be given further groups.  They are added one by one, and the
loop stops at the first group that the record already has (`Component.addGroups_append`).  So
there are three outcomes (`Component.Widening`).  The request is refused before anything is
added, or all groups are added, or the groups before one that the record already has.
-/

namespace Barrage.Component

/-! ## Repeated groups -/

theorem firstRepeated?_eq_none {seen gs : List Group} :
    firstRepeated? seen gs = none ↔ gs.Nodup ∧ ∀ g ∈ gs, g ∉ seen := by
  induction gs generalizing seen with
  | nil => simp [firstRepeated?]
  | cons g rest ih =>
      by_cases hg : g ∈ seen
      · simp [firstRepeated?, hg]
      · simp only [firstRepeated?, if_neg hg, ih, List.nodup_cons, List.mem_cons, not_or]
        constructor
        · rintro ⟨hnodup, hnew⟩
          refine ⟨⟨fun hmem => (hnew g hmem).1 rfl, hnodup⟩, ?_⟩
          rintro g' (rfl | hg')
          · exact hg
          · exact (hnew g' hg').2
        · rintro ⟨⟨hfirst, hnodup⟩, hnew⟩
          refine ⟨hnodup, fun g' hg' => ⟨?_, hnew g' (Or.inr hg')⟩⟩
          rintro rfl
          exact hfirst hg'

theorem checkGroups_eq_ok {gs : List Group} : checkGroups gs = .ok () ↔ gs ≠ [] ∧ gs.Nodup := by
  have hnodup : firstRepeated? [] gs = none ↔ gs.Nodup := by simp [firstRepeated?_eq_none]
  rw [checkGroups, ← hnodup]
  by_cases hgs : gs = []
  · simp [hgs]
  · cases firstRepeated? [] gs <;> simp [hgs]

/-! ## Widening the last record -/

theorem mapLast_append (f : Record → Record) (init : List Record) (last : Record) :
    mapLast f (init ++ [last]) = init ++ [f last] := by
  induction init with
  | nil => rfl
  | cons r rest ih =>
      cases rest with
      | nil => rfl
      | cons next rest => exact congrArg (r :: ·) ih

/-- New groups are added, and the loop goes on with the others. -/
theorem addGroups_append {current added : List Group} (hnodup : added.Nodup)
    (hnew : ∀ g ∈ added, g ∉ current) (rest : List Group) :
    addGroups current (added ++ rest) = addGroups (current ++ added) rest := by
  induction added generalizing current with
  | nil => rw [List.append_nil, List.nil_append]
  | cons g added ih =>
      obtain ⟨hg, hnodup⟩ := List.nodup_cons.1 hnodup
      have hnew' : ∀ g' ∈ added, g' ∉ current ++ [g] := by
        intro g' hg' hmem
        rcases List.mem_append.1 hmem with hmem | hmem
        · exact hnew g' (List.mem_cons_of_mem g hg') hmem
        · cases List.mem_singleton.1 hmem
          exact hg hg'
      rw [List.cons_append, addGroups, if_neg (hnew g List.mem_cons_self), ih hnodup hnew',
        List.append_assoc, List.singleton_append]

/-- The component with further groups on its last record. -/
def widened (c : Component) (extra : List Group) : Component :=
  { c with records := mapLast (fun r => { r with groups := r.groups ++ extra }) c.records }

theorem widened_of_records {c : Component} {init : List Record} {last : Record}
    (h : c.records = init ++ [last]) (extra : List Group) :
    c.widened extra =
      { c with records := init ++ [{ last with groups := last.groups ++ extra }] } := by
  rw [widened, h, mapLast_append]

/-- What becomes of a request for further groups on a last record: it is refused, or all groups
are added, or those before one that the record has. -/
inductive Widening (c : Component) (gs : List Group) :
    Except StructureError Unit × Component → Prop
  | refused (e : StructureError) :
      ¬ (gs ≠ [] ∧ gs.Nodup ∧ ∃ last, c.records.getLast? = some last) →
      Widening c gs (.error e, c)
  | complete {last : Record} :
      c.records.getLast? = some last → gs ≠ [] → gs.Nodup → (∀ g ∈ gs, g ∉ last.groups) →
      Widening c gs (.ok (), c.widened gs)
  | stopped {last : Record} {added rest : List Group} {g : Group} :
      c.records.getLast? = some last → gs.Nodup → gs = added ++ g :: rest →
      (∀ g' ∈ added, g' ∉ last.groups) → g ∈ last.groups →
      Widening c gs (.error (.duplicateGroup g), c.widened added)

theorem groupLast_widening (c : Component) (gs : List Group) : c.Widening gs (c.groupLast gs) := by
  unfold groupLast
  cases hcheck : checkGroups gs with
  | error e =>
      refine .refused e fun h => ?_
      rw [checkGroups_eq_ok.2 ⟨h.1, h.2.1⟩] at hcheck
      cases hcheck
  | ok u =>
      obtain ⟨hne, hnodup⟩ := checkGroups_eq_ok.1 hcheck
      cases hlast : c.records.getLast? with
      | none => exact .refused _ (by simp [hlast])
      | some last =>
          obtain ⟨init, hrecords⟩ := List.getLast?_eq_some_iff.1 hlast
          cases hfirst : gs.find? (· ∈ last.groups) with
          | none =>
              have hnew : ∀ g ∈ gs, g ∉ last.groups := by simpa using hfirst
              have hadd : addGroups last.groups gs = (.ok (), last.groups ++ gs) := by
                simpa [addGroups] using addGroups_append hnodup hnew []
              simp only [hadd, hrecords, mapLast_append, ← widened_of_records hrecords]
              exact .complete hlast hne hnodup hnew
          | some g =>
              obtain ⟨hg, added, rest, rfl, hnew⟩ := List.find?_eq_some_iff_append.1 hfirst
              have hg : g ∈ last.groups := by simpa using hg
              have hnew : ∀ g' ∈ added, g' ∉ last.groups := by simpa using hnew
              have hadd : addGroups last.groups (added ++ g :: rest) =
                  (.error (.duplicateGroup g), last.groups ++ added) := by
                rw [addGroups_append (List.nodup_append.1 hnodup).1 hnew, addGroups,
                  if_pos (List.mem_append_left added hg)]
              simp only [hadd, hrecords, mapLast_append, ← widened_of_records hrecords]
              exact .stopped hlast hnodup rfl hnew hg

/-- Widening leaves the component as it is, or its last record has further
groups, all of them new and from the list. -/
theorem groupLast_snd (c : Component) (gs : List Group) :
    (c.groupLast gs).2 = c ∨
      ∃ init last extra, c.records = init ++ [last] ∧ extra <+: gs ∧ extra.Nodup ∧
        (∀ g ∈ extra, g ∉ last.groups) ∧
        (c.groupLast gs).2 =
          { c with records := init ++ [{ last with groups := last.groups ++ extra }] } := by
  have houtcome := c.groupLast_widening gs
  generalize c.groupLast gs = outcome at houtcome ⊢
  cases houtcome with
  | refused => exact Or.inl rfl
  | complete hlast _ hnodup hnew =>
      obtain ⟨init, hrecords⟩ := List.getLast?_eq_some_iff.1 hlast
      exact Or.inr ⟨init, _, gs, hrecords, List.prefix_rfl, hnodup, hnew,
        widened_of_records hrecords gs⟩
  | stopped hlast hnodup hgs hnew _ =>
      obtain ⟨init, hrecords⟩ := List.getLast?_eq_some_iff.1 hlast
      subst hgs
      exact Or.inr ⟨init, _, _, hrecords, List.prefix_append _ _, (List.nodup_append.1 hnodup).1,
        hnew, widened_of_records hrecords _⟩

end Barrage.Component
