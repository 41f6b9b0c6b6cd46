import BuildPlan.Text.Basic

/-!
# Steps that may fail

What the success of a sequence of steps says about the single steps, and what a run of such steps
preserves. `run_invariant` is the form in which every invariant of a run is proved: it holds of
nothing done, and one step more preserves it. `run_simulation` compares two runs in the same way, as
far as the first one succeeds, and `Alike.run` where both have to fail together.
-/

namespace BuildPlan.Outcome

variable {ε ε' α β σ : Type}

/-! ## Single steps -/

/-- Two steps succeed exactly if the first does and then the second does. -/
theorem bind_eq_ok_iff {x : Except ε α} {f : α → Except ε β} {b : β} :
    x >>= f = .ok b ↔ ∃ a, x = .ok a ∧ f a = .ok b := by
  cases x with
  | error e => simp [bind, Except.bind]
  | ok a => simp [bind, Except.bind]

/-- Two steps fail exactly if the first does, or it succeeds and the second fails. -/
theorem bind_eq_error_iff {x : Except ε α} {f : α → Except ε β} {e : ε} :
    x >>= f = .error e ↔ x = .error e ∨ ∃ a, x = .ok a ∧ f a = .error e := by
  cases x with
  | error e' => simp [bind, Except.bind]
  | ok a => simp [bind, Except.bind]

theorem map_eq_ok_iff {x : Except ε α} {f : α → β} {b : β} :
    x.map f = .ok b ↔ ∃ a, x = .ok a ∧ f a = b := by
  cases x with
  | error e => simp [Except.map]
  | ok a => simp [Except.map]

theorem map_eq_error_iff {x : Except ε α} {f : α → β} {e : ε} :
    x.map f = .error e ↔ x = .error e := by
  cases x with
  | error e' => simp [Except.map]
  | ok a => simp [Except.map]

theorem mapError_eq_ok_iff {x : Except ε α} {f : ε → ε'} {a : α} :
    x.mapError f = .ok a ↔ x = .ok a := by
  cases x with
  | error e => exact ⟨nofun, nofun⟩
  | ok b =>
    constructor
    · rintro ⟨⟩
      rfl
    · rintro ⟨⟩
      rfl

theorem mapError_eq_error_iff {x : Except ε α} {f : ε → ε'} {e' : ε'} :
    x.mapError f = .error e' ↔ ∃ e, x = .error e ∧ f e = e' := by
  cases x with
  | error e =>
    constructor
    · rintro ⟨⟩
      exact ⟨e, rfl, rfl⟩
    · rintro ⟨_, ⟨⟩, rfl⟩
      rfl
  | ok a =>
    constructor
    · nofun
    · rintro ⟨_, ⟨⟩, _⟩

theorem map_mapError (x : Except ε α) (f : α → β) (r : ε → ε') :
    (x.mapError r).map f = (x.map f).mapError r := by
  cases x with
  | error e => rfl
  | ok a => rfl

theorem pure_eq_ok_iff {a b : α} : (pure a : Except ε α) = .ok b ↔ a = b := by
  simp [pure, Except.pure]

theorem pure_ne_error {a : α} {e : ε} : (pure a : Except ε α) ≠ .error e := by
  simp [pure, Except.pure]

/-- A check that fails the rest, and the rest. -/
theorem guard_eq_ok_iff {c : Prop} [Decidable c] {e : ε} {f : α → Except ε β} {x : Except ε β}
    {b : β} : (if c then throw e >>= f else x) = .ok b ↔ ¬c ∧ x = .ok b := by
  by_cases h : c
  · simp [h, bind, Except.bind, throw, throwThe, MonadExceptOf.throw]
  · simp [h]

/-! ## One step for each element -/

theorem mapM_cons_eq_ok_iff {f : α → Except ε β} {x : α} {xs : List α} {ys : List β} :
    (x :: xs).mapM f = .ok ys
      ↔ ∃ y rest, f x = .ok y ∧ xs.mapM f = .ok rest ∧ y :: rest = ys := by
  simp only [List.mapM_cons, bind_eq_ok_iff, pure_eq_ok_iff]
  constructor
  · rintro ⟨y, hy, rest, hrest, h⟩
    exact ⟨y, rest, hy, hrest, h⟩
  · rintro ⟨y, rest, hy, hrest, h⟩
    exact ⟨y, hy, rest, hrest, h⟩

theorem mapM_congr {f g : α → Except ε β} {xs : List α} (h : ∀ x ∈ xs, f x = g x) :
    xs.mapM f = xs.mapM g := by
  induction xs with
  | nil => rw [List.mapM_nil, List.mapM_nil]
  | cons x xs ih =>
    rw [List.mapM_cons, List.mapM_cons, h x List.mem_cons_self,
      ih fun y hy => h y (List.mem_cons_of_mem _ hy)]

theorem length_of_mapM_eq_ok {f : α → Except ε β} {xs : List α} {ys : List β}
    (h : xs.mapM f = .ok ys) : ys.length = xs.length := by
  induction xs generalizing ys with
  | nil =>
    rw [List.mapM_nil, pure_eq_ok_iff] at h
    rw [← h]
    rfl
  | cons x xs ih =>
    obtain ⟨y, rest, -, hrest, rfl⟩ := mapM_cons_eq_ok_iff.mp h
    rw [List.length_cons, List.length_cons, ih hrest]

/-- Where every step succeeds, the results stand beside what they were made of. -/
theorem of_mem_zip_of_mapM {f : α → Except ε β} {xs : List α} {ys : List β} (h : xs.mapM f = .ok ys)
    {p : α × β} (hp : p ∈ xs.zip ys) : f p.1 = .ok p.2 := by
  induction xs generalizing ys with
  | nil => exact absurd hp List.not_mem_nil
  | cons x xs ih =>
    obtain ⟨y, rest, hy, hrest, rfl⟩ := mapM_cons_eq_ok_iff.mp h
    rcases List.mem_cons.mp hp with rfl | hp
    · exact hy
    · exact ih hrest hp

theorem exists_of_mem_mapM {f : α → Except ε β} {xs : List α} {ys : List β} (h : xs.mapM f = .ok ys)
    {y : β} (hy : y ∈ ys) : ∃ x ∈ xs, f x = .ok y := by
  rw [← List.map_snd_zip (Nat.le_of_eq (length_of_mapM_eq_ok h))] at hy
  obtain ⟨p, hp, rfl⟩ := List.mem_map.mp hy
  exact ⟨p.1, (List.of_mem_zip hp).1, of_mem_zip_of_mapM h hp⟩

theorem exists_mem_of_mapM {f : α → Except ε β} {xs : List α} {ys : List β} (h : xs.mapM f = .ok ys)
    {x : α} (hx : x ∈ xs) : ∃ y ∈ ys, f x = .ok y := by
  rw [← List.map_fst_zip (Nat.le_of_eq (length_of_mapM_eq_ok h).symm)] at hx
  obtain ⟨p, hp, rfl⟩ := List.mem_map.mp hx
  exact ⟨p.2, (List.of_mem_zip hp).2, of_mem_zip_of_mapM h hp⟩

theorem eq_map_of_mapM {f : α → Except ε β} {g : α → β} {xs : List α} {ys : List β}
    (h : xs.mapM f = .ok ys) (hg : ∀ x ∈ xs, ∀ y, f x = .ok y → g x = y) : ys = xs.map g := by
  induction xs generalizing ys with
  | nil =>
    rw [List.mapM_nil, pure_eq_ok_iff] at h
    exact h.symm
  | cons x xs ih =>
    obtain ⟨y, rest, hy, hrest, rfl⟩ := mapM_cons_eq_ok_iff.mp h
    rw [List.map_cons, hg x List.mem_cons_self y hy,
      ih hrest fun z hz => hg z (List.mem_cons_of_mem _ hz)]

/-- All steps succeed exactly if each of them does. -/
theorem exists_mapM_iff {f : α → Except ε β} {xs : List α} :
    (∃ ys, xs.mapM f = .ok ys) ↔ ∀ x ∈ xs, ∃ y, f x = .ok y := by
  constructor
  · rintro ⟨ys, h⟩ x hx
    obtain ⟨y, -, hy⟩ := exists_mem_of_mapM h hx
    exact ⟨y, hy⟩
  · intro h
    induction xs with
    | nil => exact ⟨[], List.mapM_nil⟩
    | cons x xs ih =>
      obtain ⟨y, hy⟩ := h x List.mem_cons_self
      obtain ⟨rest, hrest⟩ := ih fun z hz => h z (List.mem_cons_of_mem _ hz)
      exact ⟨y :: rest, mapM_cons_eq_ok_iff.mpr ⟨y, rest, hy, hrest, rfl⟩⟩

/-- **The first fault is the error.** If it is known at each element whether the step fails there
and with what, then the whole fails with the fault of the first faulty element. -/
theorem mapM_eq_error_iff {f : α → Except ε β} {fault? : α → Option ε} {xs : List α}
    (hfault : ∀ x ∈ xs, ∀ e, f x = .error e ↔ fault? x = some e) {e : ε} :
    xs.mapM f = .error e ↔ xs.findSome? fault? = some e := by
  induction xs with
  | nil => simp [pure, Except.pure]
  | cons x xs ih =>
    have hx := hfault x List.mem_cons_self
    have hrest := ih fun y hy => hfault y (List.mem_cons_of_mem _ hy)
    rw [List.mapM_cons, List.findSome?_cons]
    cases hf : f x with
    | error e' =>
      rw [(hx e').mp hf]
      simp [bind, Except.bind]
    | ok y =>
      -- there is no fault at `x`, so the search and the steps go on behind it
      have hnone : fault? x = none := by
        rw [Option.eq_none_iff_forall_ne_some]
        intro e' he'
        rw [← hx, hf] at he'
        exact absurd he' (by simp)
      rw [hnone, ← hrest]
      cases xs.mapM f <;> simp [bind, Except.bind, pure, Except.pure]

/-- The error, if there is one. -/
def error? : Except ε α → Option ε
  | .error e => some e
  | .ok _ => none

theorem error?_eq_some_iff {x : Except ε α} {e : ε} : error? x = some e ↔ x = .error e := by
  cases x with
  | error e' => simp [error?]
  | ok a => simp [error?]

theorem error?_eq_none_iff {x : Except ε α} : error? x = none ↔ ∃ a, x = .ok a := by
  cases x with
  | error e => simp [error?]
  | ok a => simp [error?]

/-- **Steps for all elements stop at the first one that fails.** -/
theorem mapM_eq_error_iff_exists {f : α → Except ε β} {xs : List α} {e : ε} :
    xs.mapM f = .error e ↔
      ∃ before x after, xs = before ++ x :: after ∧ f x = .error e ∧
        ∀ y ∈ before, ∃ b, f y = .ok b := by
  rw [mapM_eq_error_iff fun x _ e => error?_eq_some_iff.symm, List.findSome?_eq_some_iff]
  simp only [error?_eq_some_iff, error?_eq_none_iff]

/-- Where each step only reports its failure differently, so do all of them. -/
theorem mapM_of_mapError {f : α → Except ε β} {g : α → Except ε' β} {r : ε → ε'} {xs : List α}
    (h : ∀ x ∈ xs, g x = (f x).mapError r) : xs.mapM g = (xs.mapM f).mapError r := by
  induction xs with
  | nil => rfl
  | cons x xs ih =>
    rw [List.mapM_cons, List.mapM_cons, h x List.mem_cons_self,
      ih fun y hy => h y (List.mem_cons_of_mem _ hy)]
    cases f x with
    | error e => rfl
    | ok y =>
      cases xs.mapM f with
      | error e => rfl
      | ok ys => rfl

/-! ## Runs -/

theorem foldlM_append_eq_ok_iff {step : σ → α → Except ε σ} {xs ys : List α} {s t : σ} :
    (xs ++ ys).foldlM step s = .ok t
      ↔ ∃ m, xs.foldlM step s = .ok m ∧ ys.foldlM step m = .ok t := by
  rw [List.foldlM_append, bind_eq_ok_iff]

theorem foldlM_append_eq_error_iff {step : σ → α → Except ε σ} {xs ys : List α} {s : σ} {e : ε} :
    (xs ++ ys).foldlM step s = .error e
      ↔ xs.foldlM step s = .error e ∨
        ∃ m, xs.foldlM step s = .ok m ∧ ys.foldlM step m = .error e := by
  rw [List.foldlM_append, bind_eq_error_iff]

theorem foldlM_cons_eq_error {step : σ → α → Except ε σ} {a : α} {s : σ} {e : ε}
    (h : step s a = .error e) (xs : List α) : (a :: xs).foldlM step s = .error e := by
  rw [List.foldlM_cons, bind_eq_error_iff]
  exact Or.inl h

theorem foldlM_singleton {step : σ → α → Except ε σ} (a : α) (s : σ) :
    [a].foldlM step s = step s a := by
  cases h : step s a with
  | error e => exact foldlM_cons_eq_error h []
  | ok t =>
    rw [List.foldlM_cons, h]
    rfl

/-- **A run fails exactly at its first failing step**: those before it succeed, and it does not. -/
theorem foldlM_eq_error_iff_exists {step : σ → α → Except ε σ} {xs : List α} {s : σ} {e : ε} :
    xs.foldlM step s = .error e ↔
      ∃ before x after m, xs = before ++ x :: after ∧ before.foldlM step s = .ok m ∧
        step m x = .error e := by
  constructor
  · intro h
    induction xs generalizing s with
    | nil => exact absurd h nofun
    | cons x xs ih =>
      rw [List.foldlM_cons, bind_eq_error_iff] at h
      rcases h with h | ⟨m, hm, h⟩
      · exact ⟨[], x, xs, s, rfl, List.foldlM_nil, h⟩
      · obtain ⟨before, y, after, t, rfl, hbefore, hy⟩ := ih h
        refine ⟨x :: before, y, after, t, rfl, ?_, hy⟩
        rw [List.foldlM_cons, bind_eq_ok_iff]
        exact ⟨m, hm, hbefore⟩
  · rintro ⟨before, x, after, m, rfl, hbefore, hx⟩
    rw [foldlM_append_eq_error_iff]
    exact Or.inr ⟨m, hbefore, foldlM_cons_eq_error hx after⟩

/-- Where each step only reports its failure differently, so does the run. -/
theorem foldlM_map_of_mapError {step : σ → α → Except ε σ} {step' : σ → β → Except ε' σ} {g : α → β}
    {r : ε → ε'} (h : ∀ s a, step' s (g a) = (step s a).mapError r) (xs : List α) (s : σ) :
    (xs.map g).foldlM step' s = (xs.foldlM step s).mapError r := by
  induction xs generalizing s with
  | nil => rfl
  | cons a xs ih =>
    rw [List.map_cons, List.foldlM_cons, List.foldlM_cons, h]
    cases step s a with
    | error e => rfl
    | ok t => exact ih t

/-- A run that begins where the invariant holds of what was done before. -/
theorem run_invariant_from {step : σ → α → Except ε σ} (Inv : List α → σ → Prop)
    (hstep : ∀ done a s t, Inv done s → step s a = .ok t → Inv (done ++ [a]) t) :
    ∀ (xs done : List α) (s t : σ), Inv done s → xs.foldlM step s = .ok t → Inv (done ++ xs) t
  | [], done, s, t, hs, h => by
    rw [List.foldlM_nil, pure_eq_ok_iff] at h
    rw [List.append_nil, ← h]
    exact hs
  | a :: xs, done, s, t, hs, h => by
    rw [List.foldlM_cons, bind_eq_ok_iff] at h
    obtain ⟨m, hm, hrest⟩ := h
    have hnext := run_invariant_from Inv hstep xs (done ++ [a]) m t (hstep done a s m hs hm) hrest
    rwa [List.append_assoc] at hnext

/-- **What every step preserves holds after every run.** The invariant may speak of the steps done.
-/
theorem run_invariant {step : σ → α → Except ε σ} {start : σ} (Inv : List α → σ → Prop)
    (hstart : Inv [] start)
    (hstep : ∀ done a s t, Inv done s → step s a = .ok t → Inv (done ++ [a]) t)
    {xs : List α} {t : σ} (h : xs.foldlM step start = .ok t) : Inv xs t :=
  run_invariant_from Inv hstep xs [] start t hstart h

/-- **Runs from related states stay related**, if each of their steps does. -/
theorem run_simulation {step : σ → α → Except ε σ} {R : σ → σ → Prop} {xs : List α}
    (hstep : ∀ a ∈ xs, ∀ s t s', R s t → step s a = .ok s' → ∃ t', step t a = .ok t' ∧ R s' t')
    {s t s' : σ} (hR : R s t) (h : xs.foldlM step s = .ok s') :
    ∃ t', xs.foldlM step t = .ok t' ∧ R s' t' := by
  induction xs generalizing s t with
  | nil =>
    rw [List.foldlM_nil, pure_eq_ok_iff] at h
    rw [← h]
    exact ⟨t, List.foldlM_nil, hR⟩
  | cons a xs ih =>
    rw [List.foldlM_cons, bind_eq_ok_iff] at h
    obtain ⟨m, hm, hrest⟩ := h
    obtain ⟨n, hn, hmn⟩ := hstep a List.mem_cons_self s t m hR hm
    obtain ⟨t', ht', hR'⟩ := ih (fun b hb => hstep b (List.mem_cons_of_mem _ hb)) hmn hrest
    refine ⟨t', ?_, hR'⟩
    rw [List.foldlM_cons, bind_eq_ok_iff]
    exact ⟨n, hn, ht'⟩

/-! ## Failing together -/

/-- Two outcomes are alike if both are the same error, or both succeed with related results. -/
inductive Alike (R : α → β → Prop) : Except ε α → Except ε β → Prop
  | error (e : ε) : Alike R (.error e) (.error e)
  | ok {a : α} {b : β} (h : R a b) : Alike R (.ok a) (.ok b)

theorem alike_iff {R : α → β → Prop} {x : Except ε α} {y : Except ε β} :
    Alike R x y ↔
      (∃ e, x = .error e ∧ y = .error e) ∨ ∃ a b, x = .ok a ∧ y = .ok b ∧ R a b := by
  constructor
  · rintro (e | h)
    · exact Or.inl ⟨e, rfl, rfl⟩
    · exact Or.inr ⟨_, _, rfl, rfl, h⟩
  · rintro (⟨e, rfl, rfl⟩ | ⟨a, b, rfl, rfl, h⟩)
    · exact .error e
    · exact .ok h

theorem Alike.of_eq {x y : Except ε α} (h : x = y) : Alike Eq x y := by
  subst h
  cases x with
  | error e => exact .error e
  | ok a => exact .ok rfl

/-- Alike steps one after the other. -/
theorem Alike.bind {γ δ : Type} {R : α → β → Prop} {R' : γ → δ → Prop} {x : Except ε α}
    {y : Except ε β} {f : α → Except ε γ} {g : β → Except ε δ} (h : Alike R x y)
    (hnext : ∀ a b, R a b → Alike R' (f a) (g b)) : Alike R' (x >>= f) (y >>= g) := by
  cases h with
  | error e => exact .error e
  | ok hab => exact hnext _ _ hab

/-- **Runs from related states are alike**, if each of their steps is. -/
theorem Alike.run {step : σ → α → Except ε σ} {R : σ → σ → Prop}
    (hstep : ∀ a s t, R s t → Alike R (step s a) (step t a)) (xs : List α) {s t : σ} (h : R s t) :
    Alike R (xs.foldlM step s) (xs.foldlM step t) := by
  induction xs generalizing s t with
  | nil => exact .ok h
  | cons a xs ih =>
    rw [List.foldlM_cons, List.foldlM_cons]
    exact (hstep a s t h).bind fun _ _ hnext => ih hnext

end BuildPlan.Outcome
