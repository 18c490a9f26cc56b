import Mathlib.Tactic

/-!
# Machines that answer every input

A machine takes an input to an output and a next state; `run` feeds it a list of
inputs.

`run_simulates` is refinement: if related states answer alike, up to a view of
the outputs, and stay related, then so do whole runs.  `run_invariant` is its
one-machine form, for what every reachable state satisfies.

A machine that may stop at an input answers up to it (`runUntil`).
-/

namespace Machine

variable {σ τ ι ο ω : Type}

/-- The outputs, one for each input, and the state after them. -/
def run (step : σ → ι → ο × σ) : σ → List ι → List ο × σ
  | s, [] => ([], s)
  | s, i :: is => ((step s i).1 :: (run step (step s i).2 is).1, (run step (step s i).2 is).2)

theorem run_append (step : σ → ι → ο × σ) : ∀ (is js : List ι) (s : σ),
    run step s (is ++ js) =
      ((run step s is).1 ++ (run step (run step s is).2 js).1,
        (run step (run step s is).2 js).2) := by
  intro is
  induction is with
  | nil => intro js s; rfl
  | cons i is ih => intro js s; simp [run, ih]

@[simp] theorem length_run (step : σ → ι → ο × σ) : ∀ (is : List ι) (s : σ),
    (run step s is).1.length = is.length := by
  intro is
  induction is with
  | nil => intro s; rfl
  | cons i is ih => intro s; simp [run, ih]

theorem run_invariant {step : σ → ι → ο × σ} {I : σ → Prop}
    (hstep : ∀ s i, I s → I (step s i).2) : ∀ (is : List ι) (s : σ),
    I s → I (run step s is).2 := by
  intro is
  induction is with
  | nil => intro s h; exact h
  | cons i is ih => intro s h; exact ih _ (hstep s i h)

/-- **Related machines answer alike on every list of inputs.** -/
theorem run_simulates {step : σ → ι → ο × σ} {step' : τ → ι → ω × τ} {R : σ → τ → Prop}
    {view : ο → ω} (hstep : ∀ s t i, R s t →
      view (step s i).1 = (step' t i).1 ∧ R (step s i).2 (step' t i).2) :
    ∀ (is : List ι) (s : σ) (t : τ), R s t →
      (run step s is).1.map view = (run step' t is).1 ∧ R (run step s is).2 (run step' t is).2 := by
  intro is
  induction is with
  | nil => intro s t h; exact ⟨rfl, h⟩
  | cons i is ih =>
    intro s t h
    obtain ⟨hout, hnext⟩ := hstep s t i h
    obtain ⟨houts, hlast⟩ := ih _ _ hnext
    exact ⟨congrArg₂ List.cons hout houts, hlast⟩

theorem forall₂_run {step : σ → ι → ο × σ} {I : σ → Prop} {P : ι → ο → Prop}
    (hstep : ∀ s i, I s → P i (step s i).1 ∧ I (step s i).2) : ∀ (is : List ι) (s : σ),
    I s → List.Forall₂ P is (run step s is).1 := by
  intro is
  induction is with
  | nil => intro s _; exact .nil
  | cons i is ih =>
    intro s h
    obtain ⟨hout, hnext⟩ := hstep s i h
    exact .cons hout (ih _ hnext)

/-- **An observer** that sees the inputs and the outputs, and nothing of the state,
keeps what relates it to the state. -/
theorem run_observed {step : σ → ι → ο × σ} (tell : τ → ι → ο → τ) {R : σ → τ → Prop}
    (hstep : ∀ s t i, R s t → R (step s i).2 (tell t i (step s i).1)) :
    ∀ (is : List ι) (s : σ) (t : τ), R s t →
      R (run step s is).2 ((is.zip (run step s is).1).foldl (fun t x => tell t x.1 x.2) t) := by
  intro is
  induction is with
  | nil => intro s t h; exact h
  | cons i is ih => intro s t h; exact ih _ _ (hstep s t i h)

/-! ## Machines that may stop -/

/-- The outputs up to the input at which the machine stops, and the state after them if
it does not. -/
def runUntil (step : σ → ι → Option (ο × σ)) : σ → List ι → List ο × Option σ
  | s, [] => ([], some s)
  | s, i :: is =>
    match step s i with
    | none => ([], none)
    | some (o, s') => (o :: (runUntil step s' is).1, (runUntil step s' is).2)

theorem runUntil_cons_none {step : σ → ι → Option (ο × σ)} {s : σ} {i : ι} (h : step s i = none)
    (is : List ι) : runUntil step s (i :: is) = ([], none) := by
  rw [runUntil, h]

theorem runUntil_cons_some {step : σ → ι → Option (ο × σ)} {s s' : σ} {i : ι} {o : ο}
    (h : step s i = some (o, s')) (is : List ι) :
    runUntil step s (i :: is) = (o :: (runUntil step s' is).1, (runUntil step s' is).2) := by
  rw [runUntil, h]

theorem runUntil_append {step : σ → ι → Option (ο × σ)} {s' : σ} (js : List ι) :
    ∀ (is : List ι) (s : σ), (runUntil step s is).2 = some s' →
      runUntil step s (is ++ js) =
        ((runUntil step s is).1 ++ (runUntil step s' js).1, (runUntil step s' js).2) := by
  intro is
  induction is with
  | nil =>
    intro s h
    obtain rfl := Option.some.inj h
    rfl
  | cons i is ih =>
    intro s h
    cases hstep : step s i with
    | none => rw [runUntil_cons_none hstep] at h; cases h
    | some out =>
      obtain ⟨o, s₁⟩ := out
      rw [runUntil_cons_some hstep] at h
      rw [List.cons_append, runUntil_cons_some hstep, runUntil_cons_some hstep, ih s₁ h]
      rfl

/-- It answers every input unless it stops. -/
theorem length_runUntil_eq_iff (step : σ → ι → Option (ο × σ)) : ∀ (is : List ι) (s : σ),
    (runUntil step s is).1.length = is.length ↔ (runUntil step s is).2 ≠ none := by
  intro is
  induction is with
  | nil => intro s; simp [runUntil]
  | cons i is ih =>
    intro s
    cases hstep : step s i with
    | none => rw [runUntil_cons_none hstep]; simp
    | some out =>
      rw [runUntil_cons_some hstep, List.length_cons, List.length_cons, Nat.add_right_cancel_iff]
      exact ih _

theorem forall_runUntil {step : σ → ι → Option (ο × σ)} {P : ο → Prop}
    (hstep : ∀ s i o s', step s i = some (o, s') → P o) :
    ∀ (is : List ι) (s : σ), ∀ o ∈ (runUntil step s is).1, P o := by
  intro is
  induction is with
  | nil => intro s o ho; cases ho
  | cons i is ih =>
    intro s o ho
    cases hi : step s i with
    | none => rw [runUntil_cons_none hi] at ho; cases ho
    | some out =>
      rw [runUntil_cons_some hi] at ho
      rcases List.mem_cons.mp ho with rfl | ho
      · exact hstep s i _ _ hi
      · exact ih _ o ho

theorem runUntil_some (step : σ → ι → ο × σ) : ∀ (is : List ι) (s : σ),
    runUntil (fun s i => some (step s i)) s is = ((run step s is).1, some (run step s is).2) := by
  intro is
  induction is with
  | nil => intro s; rfl
  | cons i is ih => intro s; rw [runUntil_cons_some (rfl : some (step s i) = _), ih, run]

/-- **Inputs that can be left out**: those that `keep` rejects change nothing that
matters to the others, so the others are answered as if they were alone, as far as the
machine goes; and all of them, unless it stops at one that is rejected.  `Good` says for
which outputs of the first machine that much is known. -/
theorem runUntil_filter {step : σ → ι → Option (ο × σ)} {step' : τ → ι → Option (ο × τ)}
    {R : σ → τ → Prop} {keep : ι → Bool} (Good : ο → Prop)
    (hkeep : ∀ s t i, R s t → keep i = true → (∀ o s', step s i = some (o, s') → Good o) →
      step s i = none ∧ step' t i = none ∨
        ∃ o s' t', step s i = some (o, s') ∧ step' t i = some (o, t') ∧ R s' t')
    (hskip : ∀ s t i o s', R s t → keep i = false → step s i = some (o, s') → R s' t) :
    ∀ (is : List ι) (s : σ) (t : τ), R s t →
      (∀ x ∈ is.zip (runUntil step s is).1, keep x.1 = true → Good x.2) →
      ((is.zip (runUntil step s is).1).filter (fun x => keep x.1)).map Prod.snd <+:
          (runUntil step' t (is.filter keep)).1 ∧
        ((∀ i, is[(runUntil step s is).1.length]? = some i → keep i = true) →
          ((is.zip (runUntil step s is).1).filter (fun x => keep x.1)).map Prod.snd =
            (runUntil step' t (is.filter keep)).1) := by
  intro is
  induction is with
  | nil => intro s t _ _; exact ⟨List.nil_prefix, fun _ => rfl⟩
  | cons i is ih =>
    intro s t h hgood
    cases hi : keep i with
    | false =>
      rw [List.filter_cons_of_neg (by simp [hi])]
      cases hstep : step s i with
      | none =>
        rw [runUntil_cons_none hstep]
        refine ⟨List.nil_prefix, fun hlast => ?_⟩
        have := hlast i rfl
        rw [hi] at this
        cases this
      | some out =>
        obtain ⟨o, s'⟩ := out
        rw [runUntil_cons_some hstep] at hgood ⊢
        rw [List.zip_cons_cons, List.filter_cons_of_neg (by simp [hi])]
        exact ih s' t (hskip s t i o s' h hi hstep)
          fun x hx => hgood x (List.mem_cons_of_mem _ hx)
    | true =>
      rw [List.filter_cons_of_pos hi]
      have hout : ∀ o s', step s i = some (o, s') → Good o := by
        intro o s' hstep
        rw [runUntil_cons_some hstep] at hgood
        exact hgood (i, o) (List.mem_cons_self ..) hi
      rcases hkeep s t i h hi hout with ⟨hstep, hstep'⟩ | ⟨o, s', t', hstep, hstep', hnext⟩
      · rw [runUntil_cons_none hstep, runUntil_cons_none hstep']
        exact ⟨List.nil_prefix, fun _ => rfl⟩
      · rw [runUntil_cons_some hstep] at hgood ⊢
        rw [runUntil_cons_some hstep', List.zip_cons_cons,
          @List.filter_cons_of_pos _ (fun x : ι × ο => keep x.1) (i, o) _ hi]
        obtain ⟨hstarts, hall⟩ := ih s' t' hnext fun x hx => hgood x (List.mem_cons_of_mem _ hx)
        exact ⟨(List.prefix_cons_inj o).mpr hstarts, fun hlast => congrArg (o :: ·) (hall hlast)⟩

/-- The same of machines that never stop. -/
theorem run_filter {step : σ → ι → ο × σ} {step' : τ → ι → ο × τ} {R : σ → τ → Prop}
    {keep : ι → Bool}
    (hkeep : ∀ s t i, R s t → keep i = true →
      (step s i).1 = (step' t i).1 ∧ R (step s i).2 (step' t i).2)
    (hskip : ∀ s t i, R s t → keep i = false → R (step s i).2 t) (is : List ι) (s : σ) (t : τ)
    (h : R s t) :
    ((is.zip (run step s is).1).filter (fun x => keep x.1)).map Prod.snd =
      (run step' t (is.filter keep)).1 := by
  have hkeep' : ∀ s t i, R s t → keep i = true →
      (∀ o s', some (step s i) = some (o, s') → True) →
      some (step s i) = none ∧ some (step' t i) = none ∨
        ∃ o s' t', some (step s i) = some (o, s') ∧ some (step' t i) = some (o, t') ∧ R s' t' := by
    intro s t i h hi _
    obtain ⟨hout, hnext⟩ := hkeep s t i h hi
    exact .inr ⟨_, _, _, rfl, by rw [hout], hnext⟩
  have hskip' : ∀ s t i o s', R s t → keep i = false → some (step s i) = some (o, s') →
      R s' t := by
    intro s t i o s' h hi hstep
    have hnext := hskip s t i h hi
    rwa [Option.some.inj hstep] at hnext
  have hall := (runUntil_filter (fun _ => True) hkeep' hskip' is s t h fun _ _ _ => trivial).2
  rw [runUntil_some, runUntil_some] at hall
  refine hall fun i hi => ?_
  rw [length_run, List.getElem?_length] at hi
  cases hi

end Machine
