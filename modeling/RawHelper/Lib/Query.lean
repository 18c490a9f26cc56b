import RawHelper.Lib.Machine

/-!
# Computations that ask

A computation that asks questions of code that is not its own.  `Run` is what it may
do when nothing is known of the answers: the questions it puts, the answers it gets
and how it ends.  The answers need not be a function of the questions; if they are,
`Run.eq_eval` says that there is the one run that `eval` computes.

`attempt` leaves some questions without an answer, and the computation with them.

`Runs` is a machine whose steps ask, on a list of inputs, and keeps what was asked in
each step.  `Runs.invariant` is induction over it, and `Runs.eq_run` joins it to the
machine whose answers are a function.

`Path` is a protocol for the questions: which may be put at a stage, and where each
answer leads.
-/

namespace Query

variable {Q : Type} {R : Q → Type} {α β σ ι ο ε : Type}

/-- A computation that asks questions `q`, each answered in `R q`. -/
inductive Asks (Q : Type) (R : Q → Type) (α : Type) where
  | ret (a : α)
  | ask (q : Q) (next : R q → Asks Q R α)

/-- A question and its answer. -/
abbrev Event (R : Q → Type) := Σ q, R q

namespace Asks

def bind : Asks Q R α → (α → Asks Q R β) → Asks Q R β
  | .ret a, f => f a
  | .ask q next, f => .ask q fun r => (next r).bind f

instance : Monad (Asks Q R) where
  pure := .ret
  bind := .bind

/-- One question. -/
def call (q : Q) : Asks Q R (R q) := .ask q .ret

/-- The computation may ask this, be answered so, and end with `a`. -/
inductive Run : Asks Q R α → List (Event R) → α → Prop
  | ret (a : α) : Run (.ret a) [] a
  | ask (q : Q) (next : R q → Asks Q R α) (r : R q) {events : List (Event R)} {a : α} :
      Run (next r) events a → Run (.ask q next) (⟨q, r⟩ :: events) a

theorem run_pure_iff {a b : α} {events : List (Event R)} :
    Run (pure a : Asks Q R α) events b ↔ events = [] ∧ b = a := by
  constructor
  · rintro ⟨⟩
    exact ⟨rfl, rfl⟩
  · rintro ⟨rfl, rfl⟩
    exact .ret b

theorem run_bind_iff {p : Asks Q R α} {f : α → Asks Q R β} {events : List (Event R)} {b : β} :
    Run (p >>= f) events b ↔
      ∃ before after a, events = before ++ after ∧ Run p before a ∧ Run (f a) after b := by
  induction p generalizing events with
  | ret a =>
    constructor
    · intro h
      exact ⟨[], events, a, rfl, .ret a, h⟩
    · rintro ⟨before, after, a', rfl, ⟨⟩, h⟩
      exact h
  | ask q next ih =>
    constructor
    · intro h
      cases h with
      | ask _ _ r h =>
        obtain ⟨before, after, a, rfl, hp, hf⟩ := (ih r).mp h
        exact ⟨⟨q, r⟩ :: before, after, a, rfl, .ask q next r hp, hf⟩
    · rintro ⟨before, after, a, rfl, hp, hf⟩
      cases hp with
      | ask _ _ r hp => exact .ask q _ r ((ih r).mpr ⟨_, after, a, rfl, hp, hf⟩)

theorem run_call_iff {q : Q} {events : List (Event R)} {r : R q} :
    Run (call q) events r ↔ events = [⟨q, r⟩] := by
  constructor
  · intro h
    cases h with
    | ask _ _ r' h =>
      cases h
      rfl
  · rintro rfl
    exact .ask q _ r (.ret r)

/-- A question, and what follows its answer. -/
theorem run_call_bind_iff {q : Q} {f : R q → Asks Q R β} {events : List (Event R)} {b : β} :
    Run (call q >>= f) events b ↔ ∃ r after, events = ⟨q, r⟩ :: after ∧ Run (f r) after b := by
  rw [run_bind_iff]
  constructor
  · rintro ⟨before, after, r, rfl, hcall, hf⟩
    rw [run_call_iff] at hcall
    subst hcall
    exact ⟨r, after, rfl, hf⟩
  · rintro ⟨r, after, rfl, hf⟩
    exact ⟨[⟨q, r⟩], after, r, rfl, run_call_iff.mpr rfl, hf⟩

/-! ## Answers that are a function -/

section Eval

variable (D : ∀ q, R q)

/-- How it ends. -/
def eval : Asks Q R α → α
  | .ret a => a
  | .ask q next => (next (D q)).eval

/-- What it asks. -/
def asked : Asks Q R α → List (Event R)
  | .ret _ => []
  | .ask q next => ⟨q, D q⟩ :: (next (D q)).asked

@[simp] theorem eval_pure (a : α) : eval D (pure a : Asks Q R α) = a := rfl

@[simp] theorem eval_call (q : Q) : eval D (call q) = D q := rfl

@[simp] theorem eval_bind (p : Asks Q R α) (f : α → Asks Q R β) :
    eval D (p >>= f) = eval D (f (eval D p)) := by
  induction p with
  | ret a => rfl
  | ask q next ih => exact ih (D q)

theorem run_eval (p : Asks Q R α) : Run p (p.asked D) (p.eval D) := by
  induction p with
  | ret a => exact .ret a
  | ask q next ih => exact .ask q next (D q) (ih (D q))

variable {D}

/-- **Answers by a function leave one run.** -/
theorem Run.eq_eval {p : Asks Q R α} {events : List (Event R)} {a : α} (h : Run p events a)
    (hD : ∀ e ∈ events, e.2 = D e.1) : events = p.asked D ∧ a = p.eval D := by
  induction h with
  | ret a => exact ⟨rfl, rfl⟩
  | ask q next r _ ih =>
    obtain ⟨hr, hrest⟩ := List.forall_mem_cons.mp hD
    obtain rfl : r = D q := hr
    obtain ⟨rfl, rfl⟩ := ih hrest
    exact ⟨rfl, rfl⟩

end Eval

/-! ## Answers that may not come -/

section Attempt

variable (D : ∀ q, R q) (ends : Q → Bool)

/-- How it ends, if no question that it asks is one it is left with. -/
def attempt : Asks Q R α → Option α
  | .ret a => some a
  | .ask q next => if ends q then none else (next (D q)).attempt

@[simp] theorem attempt_pure (a : α) : attempt D ends (pure a : Asks Q R α) = some a := rfl

@[simp] theorem attempt_bind (p : Asks Q R α) (f : α → Asks Q R β) :
    attempt D ends (p >>= f) = (attempt D ends p).bind fun a => attempt D ends (f a) := by
  induction p with
  | ret a => rfl
  | ask q next ih =>
    show attempt D ends (.ask q fun r => next r >>= f) = _
    rw [attempt, attempt]
    split
    · rfl
    · exact ih (D q)

variable {D ends}

/-- An attempt that ends does so as `eval` says. -/
theorem eval_of_attempt {p : Asks Q R α} {a : α} (h : p.attempt D ends = some a) :
    p.eval D = a := by
  induction p with
  | ret b => exact Option.some.inj h
  | ask q next ih =>
    rw [attempt] at h
    split at h
    · cases h
    · exact ih (D q) h

end Attempt

end Asks

open Asks

/-! ## Machines whose steps ask -/

/-- A step of a machine: its input, what it asked, its output. -/
structure Exchange (R : Q → Type) (ι ο : Type) where
  input : ι
  events : List (Event R)
  output : ο

/-- The exchanges so far, and the state after them. -/
inductive Runs (step : σ → ι → Asks Q R (ο × σ)) (s : σ) : List (Exchange R ι ο) → σ → Prop
  | nil : Runs step s [] s
  | snoc {exchanges : List (Exchange R ι ο)} {s' s'' : σ} {i : ι} {events : List (Event R)}
      {o : ο} : Runs step s exchanges s' → Run (step s' i) events (o, s'') →
      Runs step s (exchanges ++ [⟨i, events, o⟩]) s''

variable {step : σ → ι → Asks Q R (ο × σ)} {s s' : σ} {exchanges : List (Exchange R ι ο)}

/-- Induction over the exchanges, with what has been asked so far. -/
theorem Runs.invariant {I : List (Exchange R ι ο) → σ → Prop} (hstart : I [] s)
    (hstep : ∀ exchanges s' i events o s'', I exchanges s' →
      Run (step s' i) events (o, s'') → I (exchanges ++ [⟨i, events, o⟩]) s'')
    (h : Runs step s exchanges s') : I exchanges s' := by
  induction h with
  | nil => exact hstart
  | snoc _ hrun ih => exact hstep _ _ _ _ _ _ ih hrun

/-- **A machine whose questions a function answers** is a machine that answers every
input. -/
theorem Runs.eq_run {D : ∀ q, R q} (h : Runs step s exchanges s')
    (hD : ∀ exchange ∈ exchanges, ∀ e ∈ exchange.events, e.2 = D e.1) :
    Machine.run (fun s i => (step s i).eval D) s (exchanges.map Exchange.input) =
      (exchanges.map Exchange.output, s') := by
  induction h with
  | nil => rfl
  | snoc _ hrun ih =>
    obtain ⟨hbefore, hlast⟩ := List.forall_mem_append.mp hD
    obtain ⟨-, hout⟩ := hrun.eq_eval (hlast _ (List.mem_singleton_self _))
    rw [List.map_append, Machine.run_append, ih hbefore]
    simp [Machine.run, ← hout]

/-! ## Which questions may be put -/

/-- A path of labelled steps. -/
inductive Path (next : σ → ε → σ → Prop) : σ → List ε → σ → Prop
  | nil (s : σ) : Path next s [] s
  | cons {s s' s'' : σ} {e : ε} {es : List ε} :
      next s e s' → Path next s' es s'' → Path next s (e :: es) s''

namespace Path

variable {next : σ → ε → σ → Prop} {s s' s'' : σ} {es es' : List ε}

theorem single {e : ε} (h : next s e s') : Path next s [e] s' := .cons h (.nil s')

theorem append (h : Path next s es s') (h' : Path next s' es' s'') :
    Path next s (es ++ es') s'' := by
  induction h with
  | nil s => exact h'
  | cons hstep _ ih => exact .cons hstep (ih h')

/-- A weight that every step pays for bounds what the steps pay. -/
theorem countP_le {p : ε → Bool} {weight : σ → Nat}
    (hstep : ∀ s e s', next s e s' → weight s' + (if p e then 1 else 0) ≤ weight s)
    (h : Path next s es s') : es.countP p ≤ weight s := by
  induction h with
  | nil s => exact Nat.zero_le _
  | cons hnext _ ih =>
    have hpaid := hstep _ _ _ hnext
    rw [List.countP_cons]
    omega

end Path

end Query
