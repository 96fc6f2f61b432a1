import Mathlib.Data.Nat.Find
import Barrage.Proofs.Pool
import Barrage.Proofs.Remap.Wire
import Barrage.Remap.Slot

/-!
# What strict remaps accept

Slots stand for a list of pairs.  The source of a slot is given, and a target that is
not given is the number that the cycler has for it: the first slot that draws gets the
number at the cursor, the next one that draws the number after it, and so on
(`Remap.drawn`).  This list is fixed by the slots and the cycler alone.

The builder goes through the slots and compares the pair of each with those before it.
So it accepts exactly the slots whose pairs have no source and no target twice, and
otherwise stops at the first pair that repeats something (`Remap.FirstRepeat`).  The
cycler has moved by one for each slot that drew up to there.  The two ways through the
loop are `Remap.fill_of_distinct`, for slots without repeats with anything after them,
and `Remap.fill_of_repeat`, for a slot that repeats.
-/

namespace Barrage.Remap

/-! ## The pairs of slots -/

/-- How many slots draw their target. -/
def draws (slots : List Slot) : Nat := slots.countP fun slot => slot.target.isNone

/-- The pairs of slots.  A target that is not given is the number of the cycler that
comes after those of the slots before. -/
def drawn (slots : List Slot) (cycler : Cycler) : List (Group × Group) :=
  slots.mapIdx fun i slot =>
    (slot.source, slot.target.getD (cycler.nth (draws (slots.take i))))

/-- The slots after the first one go on with the cycler that it leaves. -/
theorem drawn_cons (slot : Slot) (rest : List Slot) (cycler : Cycler) :
    drawn (slot :: rest) cycler =
      (slot.source, (slot.draw cycler).1) :: drawn rest (slot.draw cycler).2 := by
  obtain ⟨source, target | target⟩ := slot
  · simp only [drawn, List.mapIdx_cons, draws, List.take_zero, List.countP_nil, Option.getD_none,
      List.take_succ_cons, List.countP_cons, Option.isNone_none, if_true, Slot.draw,
      Cycler.nth_next, Cycler.nth_zero]
    rfl
  · simp [drawn, draws, Slot.draw, List.mapIdx_cons]

theorem take_draws_cons (slot : Slot) (rest : List Slot) (cycler : Cycler) :
    (cycler.take (draws (slot :: rest))).2 = ((slot.draw cycler).2.take (draws rest)).2 := by
  obtain ⟨source, target | target⟩ := slot
  · simp only [draws, List.countP_cons, Option.isNone_none, if_true, Slot.draw]
    rfl
  · simp [draws, Slot.draw]

/-- Later slots go on with the cycler that the earlier ones leave. -/
theorem drawn_append (before rest : List Slot) (cycler : Cycler) :
    drawn (before ++ rest) cycler =
      drawn before cycler ++ drawn rest (cycler.take (draws before)).2 := by
  induction before generalizing cycler with
  | nil => rfl
  | cons slot before ih =>
      rw [List.cons_append, drawn_cons, drawn_cons, ih, take_draws_cons, List.cons_append]

theorem take_draws_append (before rest : List Slot) (cycler : Cycler) :
    (cycler.take (draws (before ++ rest))).2 =
      ((cycler.take (draws before)).2.take (draws rest)).2 := by
  induction before generalizing cycler with
  | nil => rfl
  | cons slot before ih => rw [List.cons_append, take_draws_cons, take_draws_cons, ih]

/-- The pair at a place is that of the slot there, after the pairs of the slots before. -/
theorem split_of_drawn {slots : List Slot} {cycler : Cycler} {i : Nat} {p : Group × Group}
    (h : (drawn slots cycler)[i]? = some p) :
    ∃ before slot rest, slots = before ++ slot :: rest ∧ before.length = i ∧
      (drawn slots cycler).take i = drawn before cycler ∧
      p = (slot.source, (slot.draw (cycler.take (draws before)).2).1) := by
  have hi : i < slots.length := by
    rw [← List.length_mapIdx]
    exact (List.getElem?_eq_some_iff.1 h).1
  have hslots : slots = slots.take i ++ slots[i] :: slots.drop (i + 1) := by
    rw [← List.drop_eq_getElem_cons hi, List.take_append_drop]
  have hlength : (drawn (slots.take i) cycler).length = i := by
    rw [drawn, List.length_mapIdx, List.length_take_of_le (Nat.le_of_lt hi)]
  have hdrawn := drawn_append (slots.take i) (slots[i] :: slots.drop (i + 1)) cycler
  rw [← hslots] at hdrawn
  refine ⟨slots.take i, slots[i], slots.drop (i + 1), hslots,
    List.length_take_of_le (Nat.le_of_lt hi), ?_, ?_⟩
  · rw [hdrawn, List.take_left' hlength]
  · rw [hdrawn, List.getElem?_append_right (Nat.le_of_eq hlength), hlength, Nat.sub_self,
      drawn_cons, List.getElem?_cons_zero] at h
    exact (Option.some.inj h).symm

/-! ## The two ways through the loop -/

/-- Why a pair is refused after others.  A repeated target is noticed first. -/
def refusal (earlier : List (Group × Group)) (p : Group × Group) : RemapError :=
  if p.2 ∈ earlier.map Prod.snd then .duplicateTarget p.2 else .duplicateSource p.1

theorem fill_cons (slot : Slot) (rest : List Slot) (r : Remap) (cycler : Cycler) :
    fill (slot :: rest) r cycler =
      if (slot.draw cycler).1 ∈ r.pairs.map Prod.snd then
        (.error (.duplicateTarget (slot.draw cycler).1), (slot.draw cycler).2)
      else
        match r.insert slot.source (slot.draw cycler).1 with
        | .error e => (.error e, (slot.draw cycler).2)
        | .ok r => fill rest r (slot.draw cycler).2 := rfl

/-- A slot with a new source and a new target is added. -/
theorem fill_cons_of_new {slot : Slot} {r : Remap} {cycler : Cycler}
    (hsource : slot.source ∉ r.pairs.map Prod.fst)
    (htarget : (slot.draw cycler).1 ∉ r.pairs.map Prod.snd) (rest : List Slot) :
    ∃ r₁, r₁.pairs = r.pairs ++ [(slot.source, (slot.draw cycler).1)] ∧
      fill (slot :: rest) r cycler = fill rest r₁ (slot.draw cycler).2 := by
  obtain ⟨r₁, hinsert⟩ : ∃ r₁, r.insert slot.source (slot.draw cycler).1 = .ok r₁ :=
    ⟨_, dif_neg hsource⟩
  refine ⟨r₁, insert_eq_ok.1 hinsert, ?_⟩
  rw [fill_cons, if_neg htarget, hinsert]

theorem fill_of_repeat {slot : Slot} {r : Remap} {cycler : Cycler}
    (h : slot.source ∈ r.pairs.map Prod.fst ∨ (slot.draw cycler).1 ∈ r.pairs.map Prod.snd)
    (rest : List Slot) :
    fill (slot :: rest) r cycler =
      (.error (refusal r.pairs (slot.source, (slot.draw cycler).1)), (slot.draw cycler).2) := by
  unfold refusal
  by_cases htarget : (slot.draw cycler).1 ∈ r.pairs.map Prod.snd
  · rw [fill_cons, if_pos htarget, if_pos htarget]
  · have hinsert : r.insert slot.source (slot.draw cycler).1 =
        .error (.duplicateSource slot.source) := dif_pos (h.resolve_right htarget)
    rw [fill_cons, if_neg htarget, if_neg htarget, hinsert]

/-- Slots whose pairs repeat nothing are added to the table. -/
theorem fill_of_distinct {before : List Slot} {r r' : Remap} {cycler : Cycler}
    (hpairs : r'.pairs = r.pairs ++ drawn before cycler) (htargets : (r'.pairs.map Prod.snd).Nodup)
    (rest : List Slot) :
    fill (before ++ rest) r cycler = fill rest r' (cycler.take (draws before)).2 := by
  induction before generalizing r cycler with
  | nil =>
      have hsame : r' = r := Remap.ext (hpairs.trans (List.append_nil _))
      rw [hsame]
      rfl
  | cons slot before ih =>
      rw [drawn_cons] at hpairs
      -- The pair of the slot is new: it stands once in the table with all pairs.
      have hsources := r'.distinct
      rw [hpairs, List.map_append, List.map_cons, List.nodup_middle, List.nodup_cons] at hsources
      rw [hpairs, List.map_append, List.map_cons] at htargets
      have hsource : slot.source ∉ r.pairs.map Prod.fst := fun h =>
        hsources.1 (List.mem_append_left _ h)
      have htarget : (slot.draw cycler).1 ∉ r.pairs.map Prod.snd := fun h =>
        (List.nodup_cons.1 (List.nodup_middle.1 htargets)).1 (List.mem_append_left _ h)
      obtain ⟨r₁, hr₁, hfill⟩ := fill_cons_of_new hsource htarget (before ++ rest)
      have hpairs₁ : r'.pairs = r₁.pairs ++ drawn before (slot.draw cycler).2 := by
        rw [hpairs, hr₁, List.append_cons]
      rw [List.cons_append, hfill, ih hpairs₁, take_draws_cons]

/-! ## Repeats -/

/-- The pair at place `i` has the source or the target of an earlier one. -/
def Repeats (pairs : List (Group × Group)) (i : Nat) : Prop :=
  ∃ p ∈ pairs[i]?, p.1 ∈ (pairs.take i).map Prod.fst ∨ p.2 ∈ (pairs.take i).map Prod.snd

instance (pairs : List (Group × Group)) (i : Nat) : Decidable (Repeats pairs i) :=
  inferInstanceAs (Decidable (∃ p ∈ pairs[i]?, _))

/-- The pair at place `i` is the first that has the source or the target of an earlier
one. -/
def FirstRepeat (pairs : List (Group × Group)) (i : Nat) : Prop :=
  Repeats pairs i ∧ ∀ j < i, ¬ Repeats pairs j

instance (pairs : List (Group × Group)) (i : Nat) : Decidable (FirstRepeat pairs i) :=
  inferInstanceAs (Decidable (_ ∧ _))

/-- Up to the first repeat there is no source and no target twice. -/
theorem nodup_take {pairs : List (Group × Group)} {i : Nat} (h : ∀ j < i, ¬ Repeats pairs j) :
    ((pairs.take i).map Prod.fst).Nodup ∧ ((pairs.take i).map Prod.snd).Nodup := by
  induction i with
  | zero => exact ⟨List.nodup_nil, List.nodup_nil⟩
  | succ i ih =>
      obtain ⟨hsources, htargets⟩ := ih fun j hj => h j (Nat.lt_succ_of_lt hj)
      rw [List.take_add_one]
      cases hp : pairs[i]? with
      | none =>
          rw [Option.toList_none, List.append_nil]
          exact ⟨hsources, htargets⟩
      | some p =>
          obtain ⟨hsource, htarget⟩ := not_or.1 fun hrepeat =>
            h i (Nat.lt_succ_self i) ⟨p, hp, hrepeat⟩
          rw [Option.toList_some, ← List.concat_eq_append, List.map_concat, List.map_concat]
          exact ⟨hsources.concat hsource, htargets.concat htarget⟩

theorem exists_firstRepeat {pairs : List (Group × Group)}
    (h : ¬ ((pairs.map Prod.fst).Nodup ∧ (pairs.map Prod.snd).Nodup)) :
    ∃ i, FirstRepeat pairs i := by
  have hsome : ∃ i, Repeats pairs i := by
    by_contra hnone
    rw [← pairs.take_length] at h
    exact h (nodup_take fun j _ hj => hnone ⟨j, hj⟩)
  exact ⟨Nat.find hsome, Nat.find_spec hsome, fun j hj => Nat.find_min hsome hj⟩

/-! ## Acceptance and refusal -/

theorem ofSlots_of_distinct {slots : List Slot} {cycler : Cycler} {r : Remap}
    (hpairs : r.pairs = drawn slots cycler) (htargets : (r.pairs.map Prod.snd).Nodup) :
    ofSlots slots cycler = (.ok r, (cycler.take (draws slots)).2) := by
  rw [ofSlots, ← List.append_nil slots, fill_of_distinct hpairs htargets, List.append_nil]
  rfl

theorem ofSlots_of_firstRepeat {slots : List Slot} {cycler : Cycler} {i : Nat} {p : Group × Group}
    (h : FirstRepeat (drawn slots cycler) i) (hp : (drawn slots cycler)[i]? = some p) :
    ofSlots slots cycler =
      (.error (refusal ((drawn slots cycler).take i) p),
        (cycler.take (draws (slots.take (i + 1)))).2) := by
  obtain ⟨⟨q, hq, hrepeat⟩, hfirst⟩ := h
  cases hp.symm.trans hq
  obtain ⟨before, slot, rest, rfl, rfl, hbefore, rfl⟩ := split_of_drawn hp
  obtain ⟨hsources, htargets⟩ := nodup_take hfirst
  rw [hbefore] at hsources htargets hrepeat ⊢
  have hslots : (before ++ slot :: rest).take (before.length + 1) = before ++ [slot] :=
    List.take_length_add_append 1
  have hpairs : (⟨drawn before cycler, hsources⟩ : Remap).pairs =
      empty.pairs ++ drawn before cycler := rfl
  rw [ofSlots, fill_of_distinct hpairs htargets, fill_of_repeat hrepeat, hslots,
    take_draws_append, take_draws_cons]
  rfl

/-- Slots make a remap exactly when their pairs have no source and no target twice.
Otherwise they are refused for the first pair that repeats one.  The cycler moves by one
for each slot that draws, up to the refused one. -/
theorem ofSlots_strict (slots : List Slot) (cycler : Cycler) :
    ((∃ r after, ofSlots slots cycler = (.ok r, after)) ↔
      ((drawn slots cycler).map Prod.fst).Nodup ∧ ((drawn slots cycler).map Prod.snd).Nodup) ∧
    (∀ r after, ofSlots slots cycler = (.ok r, after) →
      r.pairs = drawn slots cycler ∧ after = (cycler.take (draws slots)).2) ∧
    ∀ e after, ofSlots slots cycler = (.error e, after) ↔
      ∃ i p, FirstRepeat (drawn slots cycler) i ∧ (drawn slots cycler)[i]? = some p ∧
        e = refusal ((drawn slots cycler).take i) p ∧
        after = (cycler.take (draws (slots.take (i + 1)))).2 := by
  by_cases hdistinct :
      ((drawn slots cycler).map Prod.fst).Nodup ∧ ((drawn slots cycler).map Prod.snd).Nodup
  · have hbuilt := ofSlots_of_distinct (r := ⟨drawn slots cycler, hdistinct.1⟩) rfl hdistinct.2
    refine ⟨iff_of_true ⟨_, _, hbuilt⟩ hdistinct, ?_, ?_⟩
    · intro r after h
      cases hbuilt.symm.trans h
      exact ⟨rfl, rfl⟩
    · intro e after
      constructor
      · intro h
        cases hbuilt.symm.trans h
      · rintro ⟨i, p, hfirst, hp, -⟩
        cases hbuilt.symm.trans (ofSlots_of_firstRepeat hfirst hp)
  · obtain ⟨i, hfirst⟩ := exists_firstRepeat hdistinct
    obtain ⟨p, hp, -⟩ := hfirst.1
    have hrefused := ofSlots_of_firstRepeat hfirst hp
    refine ⟨iff_of_false ?_ hdistinct, ?_, ?_⟩
    · rintro ⟨r, after, h⟩
      cases hrefused.symm.trans h
    · intro r after h
      cases hrefused.symm.trans h
    · intro e after
      constructor
      · intro h
        cases hrefused.symm.trans h
        exact ⟨i, p, hfirst, hp, rfl, rfl⟩
      · rintro ⟨j, q, hfirst', hq, rfl, rfl⟩
        exact ofSlots_of_firstRepeat hfirst' hq

/-- The third slot draws again what the first drew, and has its source too.  The fourth
one draws nothing any more. -/
theorem ofSlots_strict_wrapped :
    let slots : List Slot := [⟨10, none⟩, ⟨20, none⟩, ⟨10, none⟩, ⟨30, none⟩]
    let cycler : Cycler := ⟨501, 502, 501, by decide, by decide⟩
    drawn slots cycler = [(10, 501), (20, 502), (10, 501), (30, 502)] ∧
      (¬ ∃ r after, ofSlots slots cycler = (.ok r, after)) ∧
      ofSlots slots cycler =
        (.error (.duplicateTarget 501), ⟨501, 502, 502, by decide, by decide⟩) := by
  intro slots cycler
  obtain ⟨haccepts, -, hrefuses⟩ := ofSlots_strict slots cycler
  refine ⟨by decide, fun h => absurd (haccepts.1 h) (by decide), ?_⟩
  exact (hrefuses _ _).2 ⟨2, (10, 501), by decide, by decide, by decide, by decide⟩

end Barrage.Remap
