import Barrage.Proofs.Call

/-!
# What a failed widening leaves behind

A widening gives further groups to the last record of a component.  Most checks are made before
anything is done: the component and its last record exist, the groups are valid, there is at
least one, and none is repeated (`Context.MayWiden`).  The last check is made group by group
while they are added, and asks whether the record already has the group.

So a widening that passes the first checks and fails the last one stops in the middle.  The
groups before the first one that the record already has stay added.  A failed widening changes
nothing only if it fails one of the first checks or if the record already has the very first
group (`Context.groupLastRecord_leaves`).
-/

namespace Barrage.Context

variable {ctx : Context} {i : Nat}

/-- The last record of a component. -/
def lastRecord? (ctx : Context) (i : Nat) : Option Record :=
  ctx.components[i]?.bind fun c => c.records.getLast?

/-- The context with further groups on the last record of a component. -/
def widened (ctx : Context) (i : Nat) (extra : List Group) : Context :=
  { ctx with components := ctx.components.modify i (·.widened extra) }

/-- The checks before any group is added are passed. -/
structure MayWiden (ctx : Context) (i : Nat) (gs : List Group) (last : Record) : Prop where
  last : ctx.lastRecord? i = some last
  valid : ∀ g ∈ gs, ctx.Valid g
  nonempty : gs ≠ []
  nodup : gs.Nodup

theorem lastRecord?_of_component {c : Component} (hc : ctx.components[i]? = some c) :
    ctx.lastRecord? i = c.records.getLast? := by
  rw [lastRecord?, hc, Option.bind_some]

theorem setComponent_widened {c : Component} (hc : ctx.components[i]? = some c)
    (extra : List Group) : ctx.setComponent i (c.widened extra) = ctx.widened i extra := by
  rw [setComponent, widened, Component.modify_eq_set _ hc]

theorem setComponent_self {c : Component} (hc : ctx.components[i]? = some c) :
    ctx.setComponent i c = ctx := by
  obtain ⟨hlt, rfl⟩ := List.getElem?_eq_some_iff.1 hc
  rw [setComponent, List.set_getElem_self]

theorem lastRecord?_widened {last : Record} (h : ctx.lastRecord? i = some last)
    (extra : List Group) :
    (ctx.widened i extra).lastRecord? i =
      some { last with groups := last.groups ++ extra } := by
  obtain ⟨c, hc, hlast⟩ := Option.bind_eq_some_iff.1 h
  obtain ⟨init, hrecords⟩ := List.getLast?_eq_some_iff.1 hlast
  have hwide : (ctx.widened i extra).components[i]? = some (c.widened extra) := by
    rw [widened, List.getElem?_modify_eq, hc]
    rfl
  rw [lastRecord?_of_component hwide, Component.widened_of_records hrecords, List.getLast?_concat]

/-- A record that gets a further group is not the record it was. -/
theorem widened_eq_self_iff {last : Record} (h : ctx.lastRecord? i = some last)
    {extra : List Group} : ctx.widened i extra = ctx ↔ extra = [] := by
  constructor
  · intro heq
    have hlast := lastRecord?_widened h extra
    rw [heq, h, Option.some.injEq] at hlast
    exact List.self_eq_append_right.1 (congrArg Record.groups hlast)
  · rintro rfl
    obtain ⟨c, hc, hlast⟩ := Option.bind_eq_some_iff.1 h
    obtain ⟨init, hrecords⟩ := List.getLast?_eq_some_iff.1 hlast
    have hsame : c.widened [] = c := by
      rw [Component.widened_of_records hrecords, List.append_nil, ← hrecords]
    rw [← setComponent_widened hc, hsame, setComponent_self hc]

/-- A widening succeeds exactly if its checks are passed and the record has none of the groups, and
then the record has these groups in addition.  A widening that fails before groups are added
changes nothing.  One that fails later leaves the groups before the first one that the record
already has. -/
theorem groupLastRecord_leaves (ctx : Context) (i : Nat) (gs : List Group) :
    match groupLastRecord i gs ctx with
    | (.ok (), ctx') =>
      ∃ last, ctx.MayWiden i gs last ∧ (∀ g ∈ gs, g ∉ last.groups) ∧ ctx' = ctx.widened i gs
    | (.error e, ctx') =>
      (¬ ∃ last, ctx.MayWiden i gs last) ∧ ctx' = ctx ∨
        ∃ last added g rest, ctx.MayWiden i gs last ∧ gs = added ++ g :: rest ∧
          (∀ g' ∈ added, g' ∉ last.groups) ∧ g ∈ last.groups ∧
          e = .misuse (.duplicateGroup g) ∧ ctx' = ctx.widened i added ∧
          (ctx' = ctx ↔ added = []) := by
  rcases groupLastRecord_cases ctx i gs with ⟨hnone, e, hrun⟩ | ⟨c, hc, hvalid, hrun⟩
  · rw [hrun]
    refine Or.inl ⟨fun ⟨last, hmay⟩ => ?_, rfl⟩
    obtain ⟨c, hc, -⟩ := Option.bind_eq_some_iff.1 hmay.last
    exact hnone ⟨c, hc, hmay.valid⟩
  · have hlastRecord := lastRecord?_of_component hc
    have houtcome := c.groupLast_widening gs
    rw [hrun]
    generalize c.groupLast gs = outcome at houtcome ⊢
    cases houtcome with
    | refused e hrefused =>
        refine Or.inl ⟨fun ⟨last, hmay⟩ => ?_, setComponent_self hc⟩
        exact hrefused ⟨hmay.nonempty, hmay.nodup, last, hlastRecord ▸ hmay.last⟩
    | complete hlast hne hnodup hnew =>
        have hmay : ctx.MayWiden i gs _ := ⟨hlastRecord.trans hlast, hvalid, hne, hnodup⟩
        exact ⟨_, hmay, hnew, setComponent_widened hc gs⟩
    | stopped hlast hnodup hsplit hnew hg =>
        have hne : gs ≠ [] := by simp [hsplit]
        have hmay : ctx.MayWiden i gs _ := ⟨hlastRecord.trans hlast, hvalid, hne, hnodup⟩
        have hwide := setComponent_widened hc
        refine Or.inr ⟨_, _, _, _, hmay, hsplit, hnew, hg, rfl, hwide _, ?_⟩
        rw [hwide]
        exact widened_eq_self_iff hmay.last

/-- A component with one record. -/
def oneToggle : Context :=
  Call.runAll [.register "Boss" 36 none, .edit 0 (.trigger 0.0 (.toggle (.group 41) true))]
    (Context.ofConfig {})

theorem groupLastRecord_leaves_oneToggle :
    Reachable oneToggle ∧
      ∃ ctx', groupLastRecord 0 [100, 36] oneToggle =
          (.error (.misuse (.duplicateGroup 36)), ctx') ∧
        ctx' ≠ oneToggle ∧ (ctx'.lastRecord? 0).map Record.groups = some [36, 100] := by
  have herror : (groupLastRecord 0 [100, 36] oneToggle).1 =
      .error (.misuse (.duplicateGroup 36)) := by decide +kernel
  have hgroups : ((groupLastRecord 0 [100, 36] oneToggle).2.lastRecord? 0).map Record.groups =
      some [36, 100] := by decide +kernel
  have hold : (oneToggle.lastRecord? 0).map Record.groups = some [36] := by decide +kernel
  have hspec := groupLastRecord_leaves oneToggle 0 [100, 36]
  rcases hrun : groupLastRecord 0 [100, 36] oneToggle with ⟨result, ctx'⟩
  rw [hrun] at hspec herror hgroups
  cases herror
  refine ⟨Reachable.runAll .new _, ctx', rfl, ?_, hgroups⟩
  rcases hspec with ⟨-, hsame⟩ | ⟨last, added, g, rest, -, hsplit, -, -, hg, -, hunchanged⟩
  · rw [hsame, hold] at hgroups
    cases hgroups
  · cases hg
    refine hunchanged.not.2 ?_
    rintro rfl
    simp at hsplit

end Barrage.Context
