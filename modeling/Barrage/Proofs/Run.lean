import Mathlib
import Barrage.Proofs.Disk
import Barrage.Proofs.Document
import Barrage.Proofs.Number.Word
import Barrage.Proofs.Regular
import Barrage.Run

/-!
# What a run leaves at the path of its document

A run changes the file at one path, the one that its settings name for the document.
Settings, configuration, stage and document are dealt with before anything is written.
The document is written aside and renamed, and where one of the two fails the file is
as it was (`Document.save_cases`).

The verdict on the budget comes last.  A run over the budget has saved its document when
it fails, and it is the only failure that leaves one (`Run.run_output`).

The program computes with words.  A group has 32 bits, and what is left of the budget is a
signed word of 64 bits, which it reports before it writes.  Settings are *in range* if no sum
or difference of the run leaves its words (`Settings.InRange`).  What a run with other settings
does is left out here.
-/

namespace Barrage

/-! ## Words of a run -/

namespace Tally

variable {t : Tally}

/-- What is left of the budget, in words. -/
def remaining? (t : Tally) : Option Int64 :=
  Word.sub? (UInt64.ofNat t.budget).toInt64 (UInt64.ofNat t.total).toInt64

theorem remaining_eq (t : Tally) : t.remaining = Int.bmod t.budget (2 ^ 64) - t.total := by
  unfold remaining
  norm_num

theorem remaining?_eq (htotal : t.total < 2 ^ 63) : t.remaining? = Word.signed? t.remaining := by
  have hbudget : (UInt64.ofNat t.budget).toInt64.toInt = Int.bmod t.budget (2 ^ 64) := by
    rw [Word.toInt_toInt64, UInt64.toNat_ofNat', Int.natCast_emod, Int.emod_bmod]
  have htoNat : (UInt64.ofNat t.total).toNat = t.total :=
    UInt64.toNat_ofNat_of_lt' (show t.total < 2 ^ 64 by omega)
  have hread := Word.toInt_toInt64_of_lt (htoNat.symm ▸ htotal)
  rw [remaining?, Word.sub?, hbudget, hread, htoNat, remaining_eq]

/-- The total is read as it is, and what is left of the budget is a signed word. -/
structure InRange (t : Tally) : Prop where
  total : t.total < 2 ^ 63
  difference : t.remaining? ≠ none

/-- The word has the sign of the difference. -/
theorem InRange.exists_word (h : t.InRange) :
    ∃ w, t.remaining? = some w ∧ (w < 0 ↔ t.remaining < 0) := by
  obtain ⟨w, hw⟩ := Option.ne_none_iff_exists'.1 h.difference
  have hint : w.toInt = t.remaining := by
    rw [remaining?_eq h.total] at hw
    exact Word.signed?_eq_some.1 hw
  exact ⟨w, hw, by rw [Int64.lt_iff_toInt_lt, hint]; rfl⟩

end Tally

/-- A run with the settings computes nothing that leaves its words: the end of the scratch
area, the groups that the stage issues, and what its tally leaves of the budget. -/
structure Settings.InRange (settings : Settings) : Prop where
  scratch : settings.compiler.InRange
  issued : ∀ ctx, Context.withConfig settings.compiler = .ok ctx → (Stage.build ctx).2.InRange
  tally : ∀ ctx ctx' d, Context.withConfig settings.compiler = .ok ctx →
    Stage.build ctx = (.ok (), ctx') → Document.ofContext ctx' settings.exporter = .ok d →
      (ctx'.tally settings.exporter.budget).InRange

/-! ## Documents and disks -/

variable {σ : Type} {disk : Disk (StateM σ)} {file : σ → String → Option String}

/-- A text is written aside and renamed into place, and nothing fails. -/
def Disk.Replaces (disk : Disk (StateM σ)) (path text : String) (s : σ) : Prop :=
  ∃ s₁ s₂, disk.write (Path.temporary path) text s = (.ok (), s₁) ∧
    disk.rename (Path.temporary path) path s₁ = (.ok (), s₂)

/-- The rest of a program starts in the state that the first part has left. -/
theorem StateM.bind_of_run {α β : Type} {x : StateM σ α} {f : α → StateM σ β} {s s₁ : σ} {a : α}
    (h : x s = (a, s₁)) : (x >>= f) s = f a s₁ := by
  change f (x s).1 (x s).2 = f a s₁
  rw [h]

namespace Document

/-- Saving puts the document in the place of the file, or fails and leaves the file. -/
theorem save_cases (hdisk : disk.Lawful file) {d : Document} {path : String} {s s' : σ}
    {result : Except ExportError Unit} (h : d.save disk path s = (result, s')) :
    (disk.Replaces path d.text s ∧ result = .ok () ∧ file s' path = some d.text) ∨
      (¬ disk.Replaces path d.text s ∧ (∃ e, result = .error e) ∧ file s' path = file s path) := by
  unfold save at h
  have haside := hdisk.write_aside path d.text s
  rcases hwrite : disk.write (Path.temporary path) d.text s with ⟨written, s₁⟩
  rw [hwrite] at haside
  rw [StateM.bind_of_run hwrite] at h
  cases written with
  | error e =>
      cases h
      refine Or.inr ⟨?_, ⟨_, rfl⟩, haside⟩
      rintro ⟨_, _, hwrite', -⟩
      cases hwrite.symm.trans hwrite'
  | ok _ =>
      rcases hrename : disk.rename (Path.temporary path) path s₁ with ⟨renamed, s₂⟩
      dsimp only at h
      rw [StateM.bind_of_run hrename] at h
      cases renamed with
      | error e =>
          -- The text is aside, and it is removed from there.
          cases h
          refine Or.inr ⟨?_, ⟨_, rfl⟩, ?_⟩
          · rintro ⟨_, _, hwrite', hrename'⟩
            cases hwrite.symm.trans hwrite'
            cases hrename.symm.trans hrename'
          · calc file (disk.remove (Path.temporary path) s₂).2 path
                _ = file s₂ path := hdisk.remove_aside path s₂
                _ = file s₁ path := hdisk.rename_error hrename
                _ = file s path := haside
      | ok _ =>
          cases h
          exact Or.inl ⟨⟨s₁, _, hwrite, hrename⟩, rfl,
            (hdisk.rename_ok hrename).trans (hdisk.write_ok hwrite)⟩

end Document

/-- An export saves the document of the context, or fails and leaves the file. -/
theorem Context.exportTo_cases (hdisk : disk.Lawful file) {ctx : Context} {settings : ExportSettings}
    {s s' : σ} {result : Except ExportError Tally} {events : List Event}
    (h : ctx.exportTo disk settings s = ((result, events), s')) :
    (∃ d, Document.ofContext ctx settings = .ok d ∧ disk.Replaces settings.output d.text s ∧
      result = .ok (ctx.tally settings.budget) ∧ file s' settings.output = some d.text) ∨
    ((∀ d, Document.ofContext ctx settings = .ok d → ¬ disk.Replaces settings.output d.text s) ∧
      (∃ e, result = .error e) ∧ file s' settings.output = file s settings.output) := by
  unfold exportTo at h
  rcases hbuilt : Document.ofContext ctx settings with e | d
  · rw [hbuilt] at h
    cases h
    exact Or.inr ⟨nofun, ⟨e, rfl⟩, rfl⟩
  · rw [hbuilt] at h
    dsimp only at h
    rcases hsave : d.save disk settings.output s with ⟨saved, s₁⟩
    rw [StateM.bind_of_run hsave] at h
    rcases Document.save_cases hdisk hsave with ⟨hreplaces, rfl, hfile⟩ | ⟨hfails, ⟨e, rfl⟩, hfile⟩
    · cases h
      exact Or.inl ⟨d, rfl, hreplaces, rfl, hfile⟩
    · cases h
      refine Or.inr ⟨?_, ⟨e, rfl⟩, hfile⟩
      rintro _ ⟨⟩
      exact hfails

namespace Run

/-- A run with the settings builds a document with a tally and saves it. -/
inductive Saves (disk : Disk (StateM σ)) (settings : Settings) (s : σ) : Document → Tally → Prop
  | intro {ctx ctx' : Context} {d : Document}
      (config : Context.withConfig settings.compiler = .ok ctx)
      (stage : Stage.build ctx = (.ok (), ctx'))
      (document : Document.ofContext ctx' settings.exporter = .ok d)
      (replaces : disk.Replaces settings.exporter.output d.text s) :
      Saves disk settings s d (ctx'.tally settings.exporter.budget)

theorem Saves.unique {settings : Settings} {s : σ} {d d' : Document} {tally tally' : Tally}
    (h : Saves disk settings s d tally) (h' : Saves disk settings s d' tally') :
    d = d' ∧ tally = tally' := by
  obtain ⟨hconfig, hstage, hdocument, -⟩ := h
  obtain ⟨hconfig', hstage', hdocument', -⟩ := h'
  cases hconfig.symm.trans hconfig'
  cases hstage.symm.trans hstage'
  cases hdocument.symm.trans hdocument'
  exact ⟨rfl, rfl⟩

theorem Saves.inRange {settings : Settings} {s : σ} {d : Document} {tally : Tally}
    (h : Saves disk settings s d tally) (hrange : settings.InRange) : tally.InRange := by
  obtain ⟨hconfig, hstage, hdocument, -⟩ := h
  exact hrange.tally _ _ _ hconfig hstage hdocument

theorem overBudget?_ne_none {tally : Tally} : overBudget? tally ≠ none ↔ tally.remaining < 0 := by
  rw [overBudget?, ne_eq, ite_eq_right_iff]
  simp

/-- A run saves its document and ends in the verdict on the budget, or fails and leaves the
file. -/
theorem compile_cases (hdisk : disk.Lawful file) {settings : Settings} {s s' : σ}
    {outcome : Outcome} (h : compile disk settings s = (outcome, s')) :
    (∃ d tally, Saves disk settings s d tally ∧ outcome.failure = overBudget? tally ∧
      file s' settings.exporter.output = some d.text) ∨
    ((∀ d tally, ¬ Saves disk settings s d tally) ∧ outcome.failure ≠ none ∧
      file s' settings.exporter.output = file s settings.exporter.output) := by
  unfold compile at h
  -- Up to the export the disk is not touched.
  rcases hconfig : Context.withConfig settings.compiler with e | ctx
  · rw [hconfig] at h
    cases h
    refine Or.inr ⟨?_, nofun, rfl⟩
    rintro _ _ ⟨hok, -, -, -⟩
    cases hconfig.symm.trans hok
  rw [hconfig] at h
  dsimp only at h
  rcases hstage : Stage.build ctx with ⟨e | _, ctx'⟩
  · rw [hstage] at h
    cases h
    refine Or.inr ⟨?_, nofun, rfl⟩
    rintro _ _ ⟨hok, hok', -, -⟩
    cases hconfig.symm.trans hok
    cases hstage.symm.trans hok'
  rw [hstage] at h
  dsimp only at h
  rcases hexport : ctx'.exportTo disk settings.exporter s with ⟨⟨result, events⟩, s₁⟩
  rw [StateM.bind_of_run hexport] at h
  rcases Context.exportTo_cases hdisk hexport with
    ⟨d, hdocument, hreplaces, rfl, hfile⟩ | ⟨hfails, ⟨e, rfl⟩, hfile⟩
  · cases h
    refine Or.inl ⟨d, _, ⟨hconfig, hstage, hdocument, hreplaces⟩, ?_, hfile⟩
    dsimp only
  · cases h
    refine Or.inr ⟨?_, nofun, hfile⟩
    rintro d _ ⟨hok, hok', hdocument, hreplaces⟩
    cases hconfig.symm.trans hok
    cases hstage.symm.trans hok'
    exact hfails d hdocument hreplaces

/-- Settings are read, and nothing is written. -/
theorem loadSettings_file (hdisk : disk.Lawful file) {argument : Option String} {s s₁ : σ}
    {loaded : Except Failure Settings} (h : loadSettings disk argument s = (loaded, s₁))
    (path : String) : file s₁ path = file s path := by
  cases argument with
  | none =>
      cases h
      rfl
  | some source =>
      have hkept := hdisk.read source path s
      rcases hread : disk.read source s with ⟨text, s₂⟩
      rw [hread] at hkept
      rw [loadSettings, StateM.bind_of_run hread] at h
      cases text with
      | error e =>
          cases h
          exact hkept
      | ok text =>
          dsimp only at h
          cases hparse : Settings.parse text with
          | none =>
              rw [hparse] at h
              cases h
              exact hkept
          | some settings =>
              rw [hparse] at h
              cases h
              exact hkept

/-- Where the settings cannot be loaded, no file changes.  With settings in range, a run that
fails leaves the file at the path of the document as it was, unless it has saved the document
and what is left of the budget is negative.  A run that saves its document leaves the whole of
it at the path, and it fails if and only if what is left is negative; a run that succeeds has
saved its document. -/
theorem run_output (hdisk : disk.Lawful file) {argument : Option String} {s s₁ s' : σ}
    {loaded : Except Failure Settings} {outcome : Outcome}
    (hload : loadSettings disk argument s = (loaded, s₁))
    (hrun : run disk argument s = (outcome, s')) :
    (∀ failure, loaded = .error failure →
      outcome.failure = some failure ∧ ∀ path, file s' path = file s path) ∧
    ∀ settings, loaded = .ok settings → settings.InRange →
      (outcome.failure ≠ none →
        file s' settings.exporter.output = file s settings.exporter.output ∨
          ∃ d tally w, Saves disk settings s₁ d tally ∧ tally.remaining? = some w ∧ w < 0) ∧
      (∀ d tally, Saves disk settings s₁ d tally →
        file s' settings.exporter.output = some d.text ∧ outcome.failure = overBudget? tally ∧
          ∃ w, tally.remaining? = some w ∧ (outcome.failure ≠ none ↔ w < 0)) ∧
      (outcome.failure = none → ∃ d tally, Saves disk settings s₁ d tally) := by
  have hsame := loadSettings_file hdisk hload
  unfold run at hrun
  rw [StateM.bind_of_run hload] at hrun
  constructor
  · rintro failure rfl
    cases hrun
    exact ⟨rfl, hsame⟩
  · rintro settings rfl hrange
    rcases compile_cases hdisk hrun with
      ⟨d, tally, hsaves, hverdict, hfile⟩ | ⟨hnever, hfails, hfile⟩
    · -- The only failure that is left is the verdict.
      obtain ⟨w, hw, hsign⟩ := (hsaves.inRange hrange).exists_word
      have hfailure : outcome.failure ≠ none ↔ w < 0 := by
        rw [hverdict, overBudget?_ne_none, hsign]
      refine ⟨fun hfailed => Or.inr ⟨d, tally, w, hsaves, hw, hfailure.1 hfailed⟩,
        fun d' tally' hsaves' => ?_, fun _ => ⟨d, tally, hsaves⟩⟩
      obtain ⟨rfl, rfl⟩ := hsaves.unique hsaves'
      exact ⟨hfile, hverdict, w, hw, hfailure⟩
    · refine ⟨fun _ => Or.inl (hfile.trans (hsame _)), fun d tally hsaves => ?_, fun hnone => ?_⟩
      · exact absurd hsaves (hnever d tally)
      · exact absurd hnone hfails

end Run

/-! ## A run over the budget -/

theorem Placement.sort_of_isChain {rs : List Record}
    (h : rs.IsChain fun a b => Number.totalLe a.x b.x) : sort rs = rs := by
  have htrans : IsTrans Record fun a b => Number.totalLe a.x b.x := by
    refine ⟨fun a b c hab hbc => ?_⟩
    simp only [Number.totalLe, decide_eq_true_eq] at hab hbc ⊢
    exact Int.le_trans hab hbc
  exact List.mergeSort_of_pairwise (List.isChain_iff_pairwise.1 h)

namespace Document

/-- Do the components come out in order where they are placed, and are they accepted? -/
def lands (config : Config) (area : Area) : List Component → Generator → Bool
  | [], _ => true
  | c :: rest, g =>
    match Placement.spread c area c.records g with
    | .error _ => false
    | .ok (rs, g) =>
      decide (rs.IsChain fun a b => Number.totalLe a.x b.x)
        && decide (Placement.check c config rs = .ok ()) && lands config area rest g

/-- Sorting does nothing to components that come out in order. -/
theorem segments_of_lands {config : Config} {area : Area} {cs : List Component} {g : Generator}
    (h : lands config area cs g) : ∃ rs, segments config area cs g = .ok rs := by
  induction cs generalizing g with
  | nil => exact ⟨[], rfl⟩
  | cons c cs ih =>
      rw [segments]
      split
      next hempty =>
        rw [lands, Placement.spread, hempty] at h
        cases h
      next =>
        rw [lands] at h
        split at h
        next => cases h
        next rs g' hspread =>
          simp only [Bool.and_eq_true, decide_eq_true_eq] at h
          obtain ⟨⟨hchain, hcheck⟩, hrest⟩ := h
          obtain ⟨others, hothers⟩ := ih hrest
          have hsegment : segment config area c g = .ok (rs, g') := by
            simp only [segment, hspread, Placement.sort_of_isChain hchain, hcheck, Except.ok_bind]
            rfl
          refine ⟨rs ++ others, ?_⟩
          simp only [hsegment, hothers, Except.ok_bind]
          rfl

end Document

namespace Run

/-- Settings for bases of two tiers that allow no objects.  With this seed all components
come out in order. -/
def frugal : Settings := { compiler := { tiers := 2 }, exporter := { seed := 36, budget := 0 } }

/-- The text of these settings. -/
def frugalText : String :=
  "\x7b\"compiler\": \x7b\"multitarget_tiers\": 2\x7d, "
    ++ "\"export\": \x7b\"seed\": 36, \"object_budget\": 0\x7d\x7d"

/-- A directory with a file of these settings and nothing else. -/
def frugalDirectory : Directory := ⟨[(["settings.json"], .file frugalText)]⟩

theorem loadSettings_frugal : loadSettings Directory.disk (some "settings.json") frugalDirectory =
    (.ok frugal, frugalDirectory) := by
  have hread : Directory.disk.read "settings.json" frugalDirectory =
      (.ok frugalText, frugalDirectory) := rfl
  have hparse : Settings.parse frugalText = some frugal := by decide +kernel
  rw [loadSettings, StateM.bind_of_run hread]
  dsimp only
  rw [hparse]
  rfl

/-- The stage is built within 32 bits, its document can be laid out, and its tally is over the
budget. -/
theorem build_frugal :
    (Stage.build (Context.ofConfig frugal.compiler)).1.isOk ∧
    Hazard.check (Stage.build (Context.ofConfig frugal.compiler)).2.components = .ok () ∧
    Document.lands (Stage.build (Context.ofConfig frugal.compiler)).2.config frugal.exporter.area
      (Stage.build (Context.ofConfig frugal.compiler)).2.components ⟨36⟩ ∧
    overBudget? ((Stage.build (Context.ofConfig frugal.compiler)).2.tally 0) =
      some ⟨"stage uses 107 triggers, over the budget of 0", none⟩ ∧
    (Stage.build (Context.ofConfig frugal.compiler)).2.InRange ∧
    ((Stage.build (Context.ofConfig frugal.compiler)).2.tally 0).total = 107 := by
  decide +kernel

theorem inRange_frugal : frugal.InRange := by
  obtain ⟨-, -, -, -, hissued, htotal⟩ := build_frugal
  refine ⟨by decide, fun ctx hctx => ?_, fun ctx ctx' _ hctx hstage _ => ?_⟩
  · obtain ⟨-, rfl⟩ := Context.withConfig_eq_ok.1 hctx
    exact hissued
  · obtain ⟨-, rfl⟩ := Context.withConfig_eq_ok.1 hctx
    rw [hstage] at htotal
    change (ctx'.tally 0).total = 107 at htotal
    refine ⟨htotal.trans_lt (by decide), ?_⟩
    change Word.sub? (UInt64.ofNat 0).toInt64 (UInt64.ofNat (ctx'.tally 0).total).toInt64 ≠ none
    rw [htotal]
    decide

/-- The run fails for the budget, and there is a document where none was before. -/
theorem run_output_frugal :
    frugal.InRange ∧ frugalDirectory.file "triggers.json" = none ∧
    ∃ outcome directory d,
      run Directory.disk (some "settings.json") frugalDirectory = (outcome, directory) ∧
      outcome.failure = some ⟨"stage uses 107 triggers, over the budget of 0", none⟩ ∧
      directory.file "triggers.json" = some (Document.text d) := by
  obtain ⟨hbuilt, hhazard, hlands, hverdict, -⟩ := build_frugal
  obtain ⟨_, ctx, hstage⟩ := Build.eq_ok_of_isOk hbuilt
  rw [hstage] at hhazard hlands hverdict
  obtain ⟨rs, hsegments⟩ := Document.segments_of_lands hlands
  have hdocument : Document.ofContext ctx frugal.exporter = .ok ⟨rs⟩ := by
    have harea : frugal.exporter.area.validate = .ok () := by decide
    have hseed : frugal.exporter.seed.toUInt64 = 36 := rfl
    simp only [Document.ofContext, Document.build, harea, hhazard, hseed, hsegments,
      Except.ok_bind, Except.mapError_ok]
    rfl
  have hsaves : Saves Directory.disk frugal frugalDirectory ⟨rs⟩ (ctx.tally 0) :=
    ⟨Context.withConfig_eq_ok.2 ⟨by decide, rfl⟩, hstage, hdocument, ⟨_, _, rfl, rfl⟩⟩
  rcases hrun : run Directory.disk (some "settings.json") frugalDirectory with ⟨outcome, directory⟩
  obtain ⟨-, hloaded⟩ := run_output Directory.lawful loadSettings_frugal hrun
  obtain ⟨-, hsaved, -⟩ := hloaded frugal rfl inRange_frugal
  obtain ⟨hfile, hfailure, -⟩ := hsaved ⟨rs⟩ (ctx.tally 0) hsaves
  exact ⟨inRange_frugal, rfl, outcome, directory, ⟨rs⟩, rfl, hfailure.trans hverdict, hfile⟩

end Run

end Barrage
