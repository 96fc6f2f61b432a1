import Mathlib
import Barrage.Proofs.Run

/-!
# The verdict on the budget

What is left of the budget is a difference of signed words: the budget and the total are
unsigned, they are read as signed words, and the sign of the difference is the verdict
(`Tally.remaining?`).  A total below `2 ^ 63` is read as it is.  For the budget there are
three cases.

* Below `2 ^ 63` it is read as it is too.  The difference is exact, and it is negative
  exactly if the total is over the budget.
* From `2 ^ 63 + total` on it is read as a negative number, and so the difference is
  negative, although no total is over such a budget.
* In between the difference is not a signed word.

Settings may have any budget of 64 bits, and none that is larger
(`Settings.budget_lt`).
-/

namespace Barrage

/-! ## Differences of signed words -/

namespace Tally

variable {t : Tally}

/-- How the sign of what is left judges a tally. -/
structure Judged (t : Tally) : Prop where
  overflows : t.remaining? = none ↔ 2 ^ 63 ≤ t.budget ∧ t.budget < 2 ^ 63 + t.total
  difference : ∀ w, t.remaining? = some w → w.toInt = t.remaining
  negative : ∀ w, t.remaining? = some w → (w < 0 ↔ t.budget < t.total ∨ 2 ^ 63 ≤ t.budget)
  /-- Where the difference is a signed word, the verdict is right for the lower half of the
  budgets, and for no other. -/
  right : (∃ w, t.remaining? = some w ∧ (w < 0 ↔ t.budget < t.total)) ↔ t.budget < 2 ^ 63

theorem remaining_of_lt (h : t.budget < 2 ^ 63) : t.remaining = t.budget - t.total := by
  rw [remaining_eq, Int.bmod_def]
  omega

theorem remaining_of_le (h : 2 ^ 63 ≤ t.budget) (hbudget : t.budget < 2 ^ 64) :
    t.remaining = t.budget - 2 ^ 64 - t.total := by
  rw [remaining_eq, Int.bmod_def]
  omega

theorem remaining_neg_iff (hbudget : t.budget < 2 ^ 64) :
    t.remaining < 0 ↔ t.budget < t.total ∨ 2 ^ 63 ≤ t.budget := by
  rcases lt_or_ge t.budget (2 ^ 63) with h | h
  · rw [remaining_of_lt h]
    omega
  · rw [remaining_of_le h hbudget]
    omega

theorem remaining?_eq_none (hbudget : t.budget < 2 ^ 64) (htotal : t.total < 2 ^ 63) :
    t.remaining? = none ↔ 2 ^ 63 ≤ t.budget ∧ t.budget < 2 ^ 63 + t.total := by
  rw [remaining?_eq htotal, Word.signed?_eq_none]
  rcases lt_or_ge t.budget (2 ^ 63) with h | h
  · rw [remaining_of_lt h]
    omega
  · rw [remaining_of_le h hbudget]
    omega

theorem judged (hbudget : t.budget < 2 ^ 64) (htotal : t.total < 2 ^ 63) : t.Judged := by
  have hoverflows := remaining?_eq_none hbudget htotal
  have hexact : ∀ w, t.remaining? = some w → w.toInt = t.remaining := by
    rw [remaining?_eq htotal]
    exact fun w => Word.signed?_eq_some.1
  have hnegative : ∀ w, t.remaining? = some w →
      (w < 0 ↔ t.budget < t.total ∨ 2 ^ 63 ≤ t.budget) := by
    intro w hw
    rw [Int64.lt_iff_toInt_lt, hexact w hw]
    exact remaining_neg_iff hbudget
  refine ⟨hoverflows, hexact, hnegative, ?_, fun hlow => ?_⟩
  · -- No total is over a budget of the upper half, but the sign says so.
    rintro ⟨w, hw, hright⟩
    have hsign := (hnegative w hw).symm.trans hright
    omega
  · obtain ⟨w, hw⟩ := Option.ne_none_iff_exists'.1 (mt hoverflows.1 (by omega))
    exact ⟨w, hw, (hnegative w hw).trans (or_iff_left (by omega))⟩

end Tally

/-! ## Budgets in settings -/

theorem Json.natUpTo?_le {greatest n : Nat} {v : Json} (h : natUpTo? greatest v = some n) :
    n ≤ greatest := by
  obtain ⟨k, hk, rfl⟩ := Option.map_eq_some_iff.1 h
  unfold int? at hk
  split at hk
  · rw [Option.ite_none_right_eq_some, Option.some.injEq] at hk
    omega
  · cases hk

theorem ExportSettings.budget_le {v : Json} {s : ExportSettings} (h : ofJson? v = some s) :
    s.budget ≤ greatestWord := by
  obtain ⟨members, -, h⟩ := Option.bind_eq_some_iff.1 h
  split at h
  next area seed budget output =>
    obtain ⟨_, -, h⟩ := Option.bind_eq_some_iff.1 h
    obtain ⟨_, -, h⟩ := Option.bind_eq_some_iff.1 h
    obtain ⟨n, hn, h⟩ := Option.bind_eq_some_iff.1 h
    obtain ⟨_, -, h⟩ := Option.bind_eq_some_iff.1 h
    cases h
    cases budget with
    | none =>
        cases hn
        exact (by decide : (200000 : Nat) ≤ greatestWord)
    | some v => exact Json.natUpTo?_le hn
  next => cases h

theorem Settings.budget_lt {text : String} {settings : Settings} (h : parse text = some settings) :
    settings.exporter.budget < 2 ^ 64 := by
  obtain ⟨v, -, h⟩ := Option.bind_eq_some_iff.1 h
  obtain ⟨members, -, h⟩ := Option.bind_eq_some_iff.1 h
  split at h
  next compiler exporter =>
    obtain ⟨_, -, h⟩ := Option.bind_eq_some_iff.1 h
    obtain ⟨s, hs, h⟩ := Option.bind_eq_some_iff.1 h
    cases h
    cases exporter with
    | none =>
        cases hs
        exact (by decide : (200000 : Nat) < 2 ^ 64)
    | some v =>
        exact Nat.lt_succ_of_le (ExportSettings.budget_le hs)
  next => cases h

/-! ## Runs -/

namespace Run

variable {σ : Type} {disk : Disk (StateM σ)}

theorem loadSettings_budget {argument : Option String} {s s₁ : σ} {settings : Settings}
    (h : loadSettings disk argument s = (.ok settings, s₁)) :
    settings.exporter.budget < 2 ^ 64 := by
  cases argument with
  | none =>
      cases h
      exact (by decide : (200000 : Nat) < 2 ^ 64)
  | some path =>
      rcases hread : disk.read path s with ⟨text, s₂⟩
      rw [loadSettings, StateM.bind_of_run hread] at h
      cases text with
      | error e => cases h
      | ok text =>
          dsimp only at h
          cases hparse : Settings.parse text with
          | none =>
              rw [hparse] at h
              cases h
          | some parsed =>
              rw [hparse] at h
              cases h
              exact Settings.budget_lt hparse

/-- A run that saves its document ends in the verdict, on a disk of any kind. -/
theorem Saves.failure {settings : Settings} {s s' : σ} {d : Document} {t : Tally}
    {outcome : Outcome} (h : Saves disk settings s d t)
    (hrun : compile disk settings s = (outcome, s')) : outcome.failure = overBudget? t := by
  cases h with
  | @intro ctx ctx' d hconfig hstage hdocument hreplaces =>
      obtain ⟨s₁, s₂, hwrite, hrename⟩ := hreplaces
      have hsave : d.save disk settings.exporter.output s = (.ok (), s₂) := by
        rw [Document.save, StateM.bind_of_run hwrite]
        dsimp only
        rw [StateM.bind_of_run hrename]
        rfl
      obtain ⟨events, hexport⟩ : ∃ events, ctx'.exportTo disk settings.exporter s =
          ((.ok (ctx'.tally settings.exporter.budget), events), s₂) := by
        unfold Context.exportTo
        rw [hdocument]
        dsimp only
        rw [StateM.bind_of_run hsave]
        exact ⟨_, rfl⟩
      unfold compile at hrun
      rw [hconfig] at hrun
      dsimp only at hrun
      rw [hstage] at hrun
      dsimp only at hrun
      rw [StateM.bind_of_run hexport] at hrun
      cases hrun
      dsimp only

theorem Saves.budget_eq {settings : Settings} {s : σ} {d : Document} {t : Tally}
    (h : Saves disk settings s d t) : settings.exporter.budget = t.budget := by
  cases h
  rfl

theorem overBudget?_eq {t : Tally} (hbudget : t.budget < 2 ^ 64) :
    overBudget? t = if t.budget < t.total ∨ 2 ^ 63 ≤ t.budget then
      some ⟨"stage uses " ++ toString t.total ++ " triggers, over the budget of "
        ++ toString t.budget, none⟩
    else
      none :=
  if_congr (Tally.remaining_neg_iff hbudget) rfl rfl

/-- For a context with fewer than `2 ^ 63` records and a budget of 64 bits, what is left of
the budget has no signed word exactly if the budget is at least `2 ^ 63` and by less than the
total.  Otherwise it is negative exactly if the total is over the budget or the budget is at
least `2 ^ 63`.  So where the difference is a signed word, the verdict is right exactly for the
budgets below `2 ^ 63`.  There a run that saves its document fails in the same cases, and reports
that the stage is over the budget. -/
theorem budget_verdict (ctx : Context) (budget : UInt64)
    (hfew : (ctx.components.flatMap Component.records).length < 2 ^ 63) :
    (ctx.tally budget.toNat).Judged ∧
    ∀ {σ : Type} {disk : Disk (StateM σ)} {argument : Option String} {s s₁ s' : σ}
      {settings : Settings} {outcome : Outcome} {d : Document} {t : Tally},
      loadSettings disk argument s = (.ok settings, s₁) →
      run disk argument s = (outcome, s') → Saves disk settings s₁ d t → t.total < 2 ^ 63 →
        t.Judged ∧ ∀ w, t.remaining? = some w →
          outcome.failure = if t.budget < t.total ∨ 2 ^ 63 ≤ t.budget then
            some ⟨"stage uses " ++ toString t.total ++ " triggers, over the budget of "
              ++ toString t.budget, none⟩
          else
            none := by
  refine ⟨Tally.judged budget.toNat_lt hfew, ?_⟩
  intro σ disk argument s s₁ s' settings outcome d t hload hrun hsaves hfew
  have hbudget : t.budget < 2 ^ 64 := hsaves.budget_eq ▸ loadSettings_budget hload
  rw [run, StateM.bind_of_run hload] at hrun
  exact ⟨Tally.judged hbudget hfew, fun _ _ => (hsaves.failure hrun).trans (overBudget?_eq hbudget)⟩

/-! ## A budget that is read as negative -/

/-- The settings of `frugal` with the greatest budget. -/
def generous : Settings :=
  { compiler := { tiers := 2 }, exporter := { seed := 36, budget := 18446744073709551615 } }

/-- The text of these settings. -/
def generousText : String :=
  "\x7b\"compiler\": \x7b\"multitarget_tiers\": 2\x7d, "
    ++ "\"export\": \x7b\"seed\": 36, \"object_budget\": 18446744073709551615\x7d\x7d"

/-- A directory with a file of these settings and nothing else. -/
def generousDirectory : Directory := ⟨[(["settings.json"], .file generousText)]⟩

theorem loadSettings_generous : loadSettings Directory.disk (some "settings.json")
    generousDirectory = (.ok generous, generousDirectory) := by
  have hread : Directory.disk.read "settings.json" generousDirectory =
      (.ok generousText, generousDirectory) := rfl
  have hparse : Settings.parse generousText = some generous := by decide +kernel
  rw [loadSettings, StateM.bind_of_run hread]
  dsimp only
  rw [hparse]
  rfl

/-- The stage is the same, and its document is saved. -/
theorem saves_generous : ∃ (ctx : Context) (d : Document),
    (ctx.tally 18446744073709551615).total = 107 ∧
      Saves Directory.disk generous generousDirectory d (ctx.tally 18446744073709551615) := by
  obtain ⟨hbuilt, hhazard, hlands, -, -, htotal⟩ := build_frugal
  obtain ⟨_, ctx, hstage⟩ := Build.eq_ok_of_isOk hbuilt
  rw [hstage] at hhazard hlands htotal
  obtain ⟨rs, hsegments⟩ := Document.segments_of_lands hlands
  have harea : frugal.exporter.area.validate = .ok () := by decide
  have hseed : generous.exporter.seed.toUInt64 = 36 := rfl
  have hdocument : Document.ofContext ctx generous.exporter = .ok ⟨rs⟩ := by
    simp only [Document.ofContext, Document.build, show generous.exporter.area = frugal.exporter.area
      from rfl, harea, hhazard, hseed, hsegments, Except.ok_bind, Except.mapError_ok]
    rfl
  exact ⟨ctx, ⟨rs⟩, htotal, Context.withConfig_eq_ok.2 ⟨by decide, rfl⟩, hstage, hdocument,
    ⟨_, _, rfl, rfl⟩⟩

/-- The run fails for the budget, although the stage has 107 records only. -/
theorem budget_verdict_generous :
    ∃ (ctx : Context) (outcome : Outcome) (directory : Directory) (d : Document),
      run Directory.disk (some "settings.json") generousDirectory = (outcome, directory) ∧
      Saves Directory.disk generous generousDirectory d (ctx.tally 18446744073709551615) ∧
      (ctx.components.flatMap Component.records).length = 107 ∧
      (ctx.tally 18446744073709551615).Judged ∧
      outcome.failure =
        some ⟨"stage uses 107 triggers, over the budget of 18446744073709551615", none⟩ := by
  obtain ⟨ctx, d, htotal, hsaves⟩ := saves_generous
  have hbudget : (ctx.tally 18446744073709551615).budget = 18446744073709551615 := rfl
  rcases hrun : run Directory.disk (some "settings.json") generousDirectory with
    ⟨outcome, directory⟩
  have hfew : (ctx.components.flatMap Component.records).length < 2 ^ 63 :=
    htotal.trans_lt (by decide)
  have hword : (18446744073709551615 : UInt64).toNat = 18446744073709551615 := by decide
  obtain ⟨hjudged, hruns⟩ := budget_verdict ctx 18446744073709551615 hfew
  rw [hword] at hjudged
  obtain ⟨-, hverdict⟩ := hruns loadSettings_generous hrun hsaves hfew
  -- The budget is past `2 ^ 63` by more than the total, so there is a difference.
  obtain ⟨w, hw⟩ := Option.ne_none_iff_exists'.1 (mt hjudged.overflows.1 (by omega))
  refine ⟨ctx, outcome, directory, d, rfl, hsaves, htotal, hjudged, ?_⟩
  rw [hverdict w hw, if_pos (by omega), htotal, hbudget]
  decide +kernel

end Run

end Barrage
