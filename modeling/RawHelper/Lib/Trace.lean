import Mathlib.Logic.Relation
import Mathlib.Tactic

/-!
# Lists up to the order of what is independent

Two lists of events are the same trace when one comes from the other by exchanging
neighbours that are independent, and by putting in or leaving out events that are
silent, any number of times.

A reader of lists is often a fold, and does not tell traces apart when one turn of
it does not: `Equiv.foldl_eq` is that rule, `Equiv.filterMap_eq` the one for a
reader that keeps the events of one kind, and `Equiv.foldl_filterMap_eq` the one
for a fold over those.
-/

namespace Trace

variable {α β σ : Type} {indep : α → α → Prop} {silent : α → Prop}

/-- One exchange, or one silent event less. -/
inductive Step (indep : α → α → Prop) (silent : α → Prop) : List α → List α → Prop
  | swap (pre post : List α) (a b : α) : indep a b →
      Step indep silent (pre ++ a :: b :: post) (pre ++ b :: a :: post)
  | skip (pre post : List α) (a : α) : silent a →
      Step indep silent (pre ++ a :: post) (pre ++ post)

/-- The same trace: any number of steps, either way. -/
def Equiv (indep : α → α → Prop) (silent : α → Prop) : List α → List α → Prop :=
  Relation.EqvGen (Step indep silent)

theorem Equiv.map_eq {f : List α → σ} (hf : ∀ l l', Step indep silent l l' → f l = f l')
    {l l' : List α} (h : Equiv indep silent l l') : f l = f l' := by
  induction h with
  | rel l l' h => exact hf l l' h
  | refl l => rfl
  | symm l l' _ ih => exact ih.symm
  | trans l m l' _ _ ih₁ ih₂ => exact ih₁.trans ih₂

/-- **A fold does not tell traces apart** when its turns on independent events
commute, and its turn on a silent one does nothing. -/
theorem Equiv.foldl_eq {f : σ → α → σ}
    (hswap : ∀ a b, indep a b → ∀ s, f (f s a) b = f (f s b) a)
    (hskip : ∀ a, silent a → ∀ s, f s a = s) {l l' : List α} (h : Equiv indep silent l l')
    (s : σ) : l.foldl f s = l'.foldl f s := by
  refine h.map_eq (f := fun l => l.foldl f s) ?_
  intro l l' hstep
  cases hstep with
  | swap pre post a b hab =>
    show (pre ++ a :: b :: post).foldl f s = (pre ++ b :: a :: post).foldl f s
    rw [List.foldl_append, List.foldl_append]
    show post.foldl f (f (f (pre.foldl f s) a) b) = post.foldl f (f (f (pre.foldl f s) b) a)
    rw [hswap a b hab]
  | skip pre post a ha =>
    show (pre ++ a :: post).foldl f s = (pre ++ post).foldl f s
    rw [List.foldl_append, List.foldl_append, List.foldl_cons, hskip a ha]

/-- **The events of one kind are the same**, in the same order, when no two of them
are independent and none is silent. -/
theorem Equiv.filterMap_eq {g : α → Option β}
    (hswap : ∀ a b, indep a b → g a = none ∨ g b = none) (hskip : ∀ a, silent a → g a = none)
    {l l' : List α} (h : Equiv indep silent l l') : l.filterMap g = l'.filterMap g := by
  refine h.map_eq ?_
  intro l l' hstep
  cases hstep with
  | swap pre post a b hab =>
    rw [List.filterMap_append, List.filterMap_append]
    congr 1
    rcases hswap a b hab with ha | hb
    · simp only [List.filterMap_cons, ha]
    · simp only [List.filterMap_cons, hb]
  | skip pre post a ha =>
    rw [List.filterMap_append, List.filterMap_append, List.filterMap_cons_none (hskip a ha)]

theorem Equiv.foldl_filterMap_eq {g : α → Option β} {f : σ → β → σ}
    (hswap : ∀ a b, indep a b → ∀ x y, g a = some x → g b = some y →
      ∀ s, f (f s x) y = f (f s y) x)
    (hskip : ∀ a, silent a → g a = none) {l l' : List α} (h : Equiv indep silent l l') (s : σ) :
    (l.filterMap g).foldl f s = (l'.filterMap g).foldl f s := by
  rw [List.foldl_filterMap, List.foldl_filterMap]
  refine h.foldl_eq ?_ ?_ s
  · intro a b hab s
    cases ha : g a with
    | none => rfl
    | some x =>
      cases hb : g b with
      | none => rfl
      | some y => exact hswap a b hab x y ha hb s
  · intro a ha s
    simp only [hskip a ha]

end Trace
