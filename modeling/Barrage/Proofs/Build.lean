import Barrage.Build

/-!
# Reasoning about builds

Three kinds of statements about a build are used.

*Inversion.*  A build that is put together from steps succeeds exactly when its
steps succeed one after the other, and it fails exactly when one of them fails
after those before it have succeeded (`Build.bind_eq_ok`, `Build.bind_eq_error`).
A loop splits in the same way at each of its rounds.

*Keeping.*  `Build.Keeps P x` says that the property `P` of the state survives
the build `x`, whether `x` succeeds or fails.  A failed build leaves the work of
its first part behind, so this is the form in which invariants are stated.  It
is closed under everything builds are made of, and so a property that the
elementary steps keep is kept by every build.

*Leading.*  `Build.Leads P Q x` allows the build `x` to leave something else behind
when it fails.  Then nothing of the rest is done, so `P` holds before every step and
`Q` at most once, at the end.  What is kept is what leads to itself
(`Build.Leads.keeps`).
-/

namespace Barrage

/-! ## Checks -/

section Checks

variable {ε ε' α β : Type}

@[simp] theorem Except.ok_bind (a : α) (f : α → Except ε β) : (.ok a >>= f) = f a := rfl

@[simp] theorem Except.error_bind (e : ε) (f : α → Except ε β) : (.error e >>= f) = .error e := rfl

theorem Except.bind_eq_ok {x : Except ε α} {f : α → Except ε β} {b : β} :
    (x >>= f) = .ok b ↔ ∃ a, x = .ok a ∧ f a = .ok b := by
  cases x with
  | error e => exact ⟨fun h => (by cases h), fun ⟨_, h, _⟩ => (by cases h)⟩
  | ok a => exact ⟨fun h => ⟨a, rfl, h⟩, fun ⟨_, ha, h⟩ => (by cases ha; exact h)⟩

theorem Except.bind_eq_error {x : Except ε α} {f : α → Except ε β} {e : ε} :
    (x >>= f) = .error e ↔ x = .error e ∨ ∃ a, x = .ok a ∧ f a = .error e := by
  cases x with
  | error e' => simp
  | ok a => simp

/-- A check that gives no result is passed before the rest. -/
theorem Except.seq_eq_ok {x : Except ε Unit} {f : Unit → Except ε β} {b : β} :
    (x >>= f) = .ok b ↔ x = .ok () ∧ f () = .ok b := by
  rw [Except.bind_eq_ok]
  exact ⟨fun ⟨_, h⟩ => h, fun h => ⟨(), h⟩⟩

@[simp] theorem Except.pure_eq_ok {a b : α} : (pure a : Except ε α) = .ok b ↔ a = b := by
  simp [pure, Except.pure]

/-- A guard of a check is passed when its condition does not hold. -/
theorem Except.guard_eq_ok {p : Prop} [Decidable p] {e : ε} {f : α → Except ε β}
    {x : Except ε β} {b : β} :
    (if p then throw e >>= f else x) = .ok b ↔ ¬ p ∧ x = .ok b := by
  by_cases h : p <;> simp [h, throw, throwThe, MonadExceptOf.throw]

theorem Except.guard_eq_error {p : Prop} [Decidable p] {e e' : ε} {f : α → Except ε β}
    {x : Except ε β} :
    (if p then throw e >>= f else x) = .error e' ↔ p ∧ e = e' ∨ ¬ p ∧ x = .error e' := by
  by_cases h : p <;> simp [h, throw, throwThe, MonadExceptOf.throw]

theorem Except.map_eq_ok {x : Except ε α} {f : α → β} {b : β} :
    f <$> x = .ok b ↔ ∃ a, x = .ok a ∧ f a = b := by
  cases x with
  | error e => simp [Functor.map, Except.map]
  | ok a => simp [Functor.map, Except.map]

@[simp] theorem Except.mapError_ok (f : ε → ε') (a : α) :
    (.ok a : Except ε α).mapError f = .ok a := rfl

@[simp] theorem Except.mapError_error (f : ε → ε') (e : ε) :
    (.error e : Except ε α).mapError f = .error (f e) := rfl

/-- A check of one family that is used in a build gives the same result there. -/
theorem Except.mapError_eq_ok {x : Except ε α} {f : ε → ε'} {a : α} :
    x.mapError f = .ok a ↔ x = .ok a := by
  cases x with
  | error e => simp
  | ok b => simp

theorem Except.mapError_eq_error {x : Except ε α} {f : ε → ε'} {e : ε'} :
    x.mapError f = .error e ↔ ∃ e', x = .error e' ∧ e = f e' := by
  cases x with
  | error e' => simp [eq_comm]
  | ok a => simp

end Checks

namespace Build

variable {σ α β : Type}

/-! ## Inversion -/

theorem bind_assoc {γ : Type} (x : Build σ α) (f : α → Build σ β) (g : β → Build σ γ) :
    ((x >>= f) >>= g) = (x >>= fun a => f a >>= g) := by
  funext s
  simp only [bind_apply]
  rcases x s with ⟨_ | _, _⟩ <;> rfl

theorem pure_bind (a : α) (f : α → Build σ β) : (pure a >>= f) = f a := rfl

theorem eq_ok_of_isOk {x : Build σ α} {s : σ} (h : (x s).1.isOk) :
    ∃ a s', x s = (.ok a, s') := by
  rcases hx : x s with ⟨_ | a, s'⟩
  · rw [hx] at h
    cases h
  · exact ⟨a, s', rfl⟩

theorem eq_error_of_not_isOk {x : Build σ α} {s : σ} (h : ¬ (x s).1.isOk) :
    ∃ e s', x s = (.error e, s') := by
  rcases hx : x s with ⟨e | _, s'⟩
  · exact ⟨e, s', rfl⟩
  · rw [hx] at h
    exact absurd rfl h

theorem bind_eq_ok {x : Build σ α} {f : α → Build σ β} {s s' : σ} {b : β} :
    (x >>= f) s = (.ok b, s') ↔ ∃ a s₁, x s = (.ok a, s₁) ∧ f a s₁ = (.ok b, s') := by
  rw [bind_apply]
  rcases hx : x s with ⟨_ | a, s₁⟩
  · simp
  · exact ⟨fun h => ⟨a, s₁, rfl, h⟩, fun ⟨_, _, hr, h⟩ => (by cases hr; exact h)⟩

theorem bind_of_ok {x : Build σ α} {f : α → Build σ β} {s s' : σ} {a : α}
    (h : x s = (.ok a, s')) : (x >>= f) s = f a s' := by
  rw [bind_apply, h]

theorem bind_eq_error {x : Build σ α} {f : α → Build σ β} {s s' : σ} {e : BuildError} :
    (x >>= f) s = (.error e, s') ↔
      x s = (.error e, s') ∨ ∃ a s₁, x s = (.ok a, s₁) ∧ f a s₁ = (.error e, s') := by
  rw [bind_apply]
  rcases hx : x s with ⟨_ | a, s₁⟩
  · simp
  · refine ⟨fun h => Or.inr ⟨a, s₁, rfl, h⟩, ?_⟩
    rintro (hr | ⟨_, _, hr, h⟩)
    · cases hr
    · cases hr
      exact h

/-- What holds of how a computation ends, whether it succeeds or fails, survives what comes
after it. -/
theorem ended_bind {P : Bool → σ → Prop} {x : Build σ α} {f : α → Build σ β} {s s' : σ}
    {result : Except BuildError β} (h : (x >>= f) s = (result, s'))
    (hx : ∀ r s₁, x s = (r, s₁) → P r.isOk s₁)
    (hf : ∀ a s₁, P true s₁ → P (f a s₁).1.isOk (f a s₁).2) : P result.isOk s' := by
  rcases hrun : x s with ⟨e | a, s₁⟩
  · cases h.symm.trans (bind_eq_error.2 (Or.inl hrun))
    exact hx _ _ hrun
  · have hends := hf a s₁ (hx _ _ hrun)
    rw [bind_of_ok hrun] at h
    rwa [h] at hends

theorem pure_eq_ok {a b : α} {s s' : σ} :
    (pure a : Build σ α) s = (.ok b, s') ↔ a = b ∧ s = s' := by
  rw [pure_apply]
  simp

theorem check_eq_ok {f : σ → Except BuildError α} {s s' : σ} {a : α} :
    check f s = (.ok a, s') ↔ f s = .ok a ∧ s = s' := by
  simp [check]

theorem check_eq_error {f : σ → Except BuildError α} {s s' : σ} {e : BuildError} :
    check f s = (.error e, s') ↔ f s = .error e ∧ s = s' := by
  simp [check]

@[simp] theorem read_apply (s : σ) : (read : Build σ σ) s = (.ok s, s) := rfl

@[simp] theorem change_apply (f : σ → σ) (s : σ) : change f s = (.ok (), f s) := rfl

@[simp] theorem update_apply (f : σ → α × σ) (s : σ) : update f s = (.ok (f s).1, (f s).2) := rfl

@[simp] theorem fail_apply (e : BuildError) (s : σ) :
    (fail e : Build σ α) s = (.error e, s) := rfl

theorem each_cons (f : α → Build σ Unit) (a : α) (as : List α) :
    each f (a :: as) = (f a >>= fun _ => each f as) := rfl

theorem each_singleton (f : α → Build σ Unit) (a : α) : each f [a] = f a := by
  funext s
  rw [each_cons, bind_apply]
  rcases f a s with ⟨_ | _, _⟩ <;> rfl

theorem each_cons_eq_ok {f : α → Build σ Unit} {a : α} {as : List α} {s s' : σ} :
    each f (a :: as) s = (.ok (), s') ↔
      ∃ s₁, f a s = (.ok (), s₁) ∧ each f as s₁ = (.ok (), s') := by
  rw [each_cons, bind_eq_ok]
  exact ⟨fun ⟨_, s₁, h⟩ => ⟨s₁, h⟩, fun ⟨s₁, h⟩ => ⟨(), s₁, h⟩⟩

theorem each_cons_eq_error {f : α → Build σ Unit} {a : α} {as : List α} {s s' : σ}
    {e : BuildError} :
    each f (a :: as) s = (.error e, s') ↔
      f a s = (.error e, s') ∨ ∃ s₁, f a s = (.ok (), s₁) ∧ each f as s₁ = (.error e, s') := by
  rw [each_cons, bind_eq_error]
  exact or_congr_right ⟨fun ⟨_, s₁, h⟩ => ⟨s₁, h⟩, fun ⟨s₁, h⟩ => ⟨(), s₁, h⟩⟩

/-- A loop over two lists is two loops. -/
theorem each_append (f : α → Build σ Unit) (as bs : List α) :
    each f (as ++ bs) = (each f as >>= fun _ => each f bs) := by
  induction as with
  | nil => rfl
  | cons a as ih => rw [List.cons_append, each_cons, each_cons, ih, bind_assoc]

/-- A counted loop that fails has done some rounds, and fails in the next one. -/
theorem each_range_eq_error {f : Nat → Build σ Unit} {n : Nat} {s s' : σ} {e : BuildError}
    (h : each f (List.range n) s = (.error e, s')) :
    ∃ k < n, ∃ s₁, each f (List.range k) s = (.ok (), s₁) ∧ f k s₁ = (.error e, s') := by
  induction n with
  | zero => cases h
  | succ n ih =>
      rw [List.range_succ, each_append, bind_eq_error] at h
      rcases h with h | ⟨_, s₁, h₁, h⟩
      · obtain ⟨k, hk, hrest⟩ := ih h
        exact ⟨k, Nat.lt_succ_of_lt hk, hrest⟩
      · rcases each_cons_eq_error.1 h with h | ⟨s₂, -, h⟩
        · exact ⟨n, Nat.lt_succ_self n, s₁, h₁, h⟩
        · cases h

/-- A loop succeeds if some property of the state makes each of its rounds succeed
and survives it. -/
theorem each_succeeds {P : σ → Prop} {f : α → Build σ Unit} {as : List α} {s : σ} (hs : P s)
    (h : ∀ a ∈ as, ∀ t, P t → ∃ t', f a t = (.ok (), t') ∧ P t') :
    ∃ s', each f as s = (.ok (), s') ∧ P s' := by
  induction as generalizing s with
  | nil => exact ⟨s, rfl, hs⟩
  | cons a as ih =>
      obtain ⟨s₁, hfirst, hs₁⟩ := h a List.mem_cons_self s hs
      obtain ⟨s', hrest, hs'⟩ := ih hs₁ fun b hb => h b (List.mem_cons_of_mem a hb)
      exact ⟨s', each_cons_eq_ok.2 ⟨s₁, hfirst, hrest⟩, hs'⟩

/-! ## Keeping -/

/-- The property survives the build, whether it succeeds or fails. -/
def Keeps (P : σ → Prop) (x : Build σ α) : Prop := ∀ s, P s → P (x s).2

namespace Keeps

variable {P : σ → Prop}

theorem of_run {x : Build σ α} {s s' : σ} {result : Except BuildError α} (hx : Keeps P x)
    (h : x s = (result, s')) (hs : P s) : P s' := by
  have hkept := hx s hs
  rwa [h] at hkept

theorem left {Q : σ → Prop} {x : Build σ α} {s : σ} (hx : Keeps (fun s => P s ∧ Q s) x)
    (hs : P s ∧ Q s) : P (x s).2 :=
  (hx s hs).1

theorem pure (a : α) : Keeps P (Pure.pure a : Build σ α) := fun _ hs => hs

theorem fail (e : BuildError) : Keeps P (Build.fail e : Build σ α) := fun _ hs => hs

theorem check (f : σ → Except BuildError α) : Keeps P (Build.check f) := fun _ hs => hs

theorem read : Keeps P (Build.read : Build σ σ) := fun _ hs => hs

theorem change {f : σ → σ} (hf : ∀ s, P s → P (f s)) : Keeps P (Build.change f) := hf

theorem update {f : σ → α × σ} (hf : ∀ s, P s → P (f s).2) : Keeps P (Build.update f) := hf

/-- The rest of a build may rely on what the first step says of its result. -/
theorem bindResult {x : Build σ α} {f : α → Build σ β} {Q : α → Prop} (hx : Keeps P x)
    (hresult : ∀ s, P s → ∀ a, (x s).1 = .ok a → Q a) (hf : ∀ a, Q a → Keeps P (f a)) :
    Keeps P (x >>= f) := by
  intro s hs
  have hx' := hx s hs
  have hresult' := hresult s hs
  rw [bind_apply]
  rcases hr : x s with ⟨_ | a, s₁⟩ <;> rw [hr] at hx' hresult'
  · exact hx'
  · exact hf a (hresult' a rfl) s₁ hx'

/-- The first step is known to keep the property in one state only. -/
theorem after {x : Build σ α} {f : α → Build σ β} {s : σ} (hx : P (x s).2)
    (hf : ∀ a, Keeps P (f a)) : P ((x >>= f) s).2 := by
  rw [bind_apply]
  rcases hr : x s with ⟨_ | a, s₁⟩ <;> rw [hr] at hx
  · exact hx
  · exact hf a s₁ hx

theorem bind {x : Build σ α} {f : α → Build σ β} (hx : Keeps P x) (hf : ∀ a, Keeps P (f a)) :
    Keeps P (x >>= f) :=
  bindResult (Q := fun _ => True) hx (fun _ _ _ _ => trivial) fun a _ => hf a

/-- What the loop keeps follows from what each of its rounds keeps. -/
theorem each {f : α → Build σ Unit} :
    ∀ {as : List α}, (∀ a ∈ as, Keeps P (f a)) → Keeps P (Build.each f as)
  | [], _ => pure ()
  | a :: _, h =>
      bind (h a List.mem_cons_self) fun _ => each fun b hb => h b (List.mem_cons_of_mem a hb)

end Keeps

/-! ## Leading -/

/-- The build leads from `P` to `P` if it succeeds, and from `P` to `Q` if it fails. -/
structure Leads (P Q : σ → Prop) (x : Build σ α) : Prop where
  ok : ∀ {s a s'}, P s → x s = (.ok a, s') → P s'
  error : ∀ {s e s'}, P s → x s = (.error e, s') → Q s'

namespace Leads

variable {P Q : σ → Prop}

theorem of_keeps {x : Build σ α} (hx : Keeps P x) (hPQ : ∀ s, P s → Q s) : Leads P Q x :=
  ⟨fun hs h => hx.of_run h hs, fun hs h => hPQ _ (hx.of_run h hs)⟩

theorem keeps {x : Build σ α} (hx : Leads P P x) : Keeps P x := by
  intro s hs
  rcases hrun : x s with ⟨e | a, s'⟩
  · exact hx.error hs hrun
  · exact hx.ok hs hrun

theorem ite {p : Prop} [Decidable p] {x y : Build σ α} (hx : Leads P Q x) (hy : Leads P Q y) :
    Leads P Q (if p then x else y) := by
  by_cases h : p
  · rwa [if_pos h]
  · rwa [if_neg h]

theorem bind {x : Build σ α} {f : α → Build σ β} (hx : Leads P Q x) (hf : ∀ a, Leads P Q (f a)) :
    Leads P Q (x >>= f) where
  ok hs h := by
    obtain ⟨a, s₁, hfirst, hrest⟩ := bind_eq_ok.1 h
    exact (hf a).ok (hx.ok hs hfirst) hrest
  error hs h := by
    rcases bind_eq_error.1 h with hfirst | ⟨a, s₁, hfirst, hrest⟩
    · exact hx.error hs hfirst
    · exact (hf a).error (hx.ok hs hfirst) hrest

theorem each {f : α → Build σ Unit} (hPQ : ∀ s, P s → Q s) :
    ∀ {as : List α}, (∀ a ∈ as, Leads P Q (f a)) → Leads P Q (Build.each f as)
  | [], _ => of_keeps (.pure ()) hPQ
  | a :: _, h =>
      bind (h a List.mem_cons_self) fun _ => each hPQ fun b hb => h b (List.mem_cons_of_mem a hb)

end Leads

theorem Keeps.leads {P : σ → Prop} {x : Build σ α} (hx : Keeps P x) : Leads P P x :=
  .of_keeps hx fun _ hs => hs

end Build

end Barrage
