import Mathlib.Algebra.Order.Monoid.Prod
import Mathlib.Tactic

/-!
# Computations that count

A computation that may fail, with a counter for what it spends.  `Within p o bound` ties
it to the computation it is an instrumented copy of: `p` comes to what `o` does, and
spends at most `bound` on the way.  The rules are those of the constructions a program is
made of, each with the bound it has from its parts.
-/

namespace Counting

variable {κ α β : Type}

/-- Computations that may fail, and count. -/
abbrev Count (κ α : Type) := StateT κ Option α

def spend [Add κ] (k : κ) : Count κ Unit := fun spent => some ((), spent + k)

variable [AddCommMonoid κ] [PartialOrder κ]

/-- `p` comes to what `o` does, and spends at most `bound`. -/
def Within (p : Count κ α) (o : Option α) (bound : κ) : Prop :=
  ∃ k ≤ bound, ∀ spent, p spent = o.map (·, spent + k)

theorem Within.mono {p : Count κ α} {o : Option α} {bound bound' : κ} (h : Within p o bound)
    (hle : bound ≤ bound') : Within p o bound' := by
  obtain ⟨k, hk, hp⟩ := h
  exact ⟨k, hk.trans hle, hp⟩

theorem within_pure (a : α) : Within (pure a : Count κ α) (some a) 0 :=
  ⟨0, le_rfl, fun spent => by rw [add_zero]; rfl⟩

theorem within_lift (o : Option α) : Within (StateT.lift o : Count κ α) o 0 := by
  refine ⟨0, le_rfl, fun spent => ?_⟩
  cases o with
  | none => rfl
  | some a => rw [add_zero]; rfl

theorem Within.map {p : Count κ α} {o : Option α} {bound : κ} (h : Within p o bound) (f : α → β) :
    Within (do let a ← p; return f a) (o.map f) bound := by
  obtain ⟨k, hk, hp⟩ := h
  refine ⟨k, hk, fun spent => ?_⟩
  show (p spent).bind (fun x => some (f x.1, x.2)) = _
  rw [hp spent]
  cases o <;> rfl

variable [IsOrderedAddMonoid κ]

/-- **One after the other.** -/
theorem Within.bind {p : Count κ α} {o : Option α} {bound bound' : κ} {f : α → Count κ β}
    {g : α → Option β} (h : Within p o bound) (hpos : 0 ≤ bound')
    (hf : ∀ a, o = some a → Within (f a) (g a) bound') :
    Within (p >>= f) (o.bind g) (bound + bound') := by
  obtain ⟨k, hk, hp⟩ := h
  cases o with
  | none =>
    refine ⟨k, hk.trans (le_add_of_nonneg_right hpos), fun spent => ?_⟩
    show (p spent).bind (fun x => f x.1 x.2) = _
    rw [hp spent]
    rfl
  | some a =>
    obtain ⟨k', hk', hfa⟩ := hf a rfl
    refine ⟨k + k', add_le_add hk hk', fun spent => ?_⟩
    show (p spent).bind (fun x => f x.1 x.2) = _
    rw [hp spent]
    show f a (spent + k) = (g a).map (·, spent + (k + k'))
    rw [hfa (spent + k), add_assoc]

/-- Spending something first. -/
theorem Within.spend {p : Count κ α} {o : Option α} {bound : κ} (h : Within p o bound) (k : κ) :
    Within (do Counting.spend k; p) o (k + bound) := by
  obtain ⟨k', hk', hp⟩ := h
  refine ⟨k + k', add_le_add le_rfl hk', fun spent => ?_⟩
  show p (spent + k) = _
  rw [hp (spent + k), add_assoc]

theorem within_mapM {f : α → Count κ β} {g : α → Option β} {bound : κ} (hpos : 0 ≤ bound)
    (h : ∀ a, Within (f a) (g a) bound) (l : List α) :
    Within (l.mapM f) (l.mapM g) (l.length • bound) := by
  induction l with
  | nil =>
    rw [List.mapM_nil, List.mapM_nil, List.length_nil, zero_nsmul]
    exact within_pure []
  | cons a l ih =>
    rw [List.mapM_cons, List.mapM_cons, List.length_cons, succ_nsmul']
    refine (h a).bind (nsmul_nonneg hpos _) fun b _ => ?_
    have hmap := ih.map (b :: ·)
    rwa [Option.map_eq_bind] at hmap

/-- A loop over a list, with an invariant of what it carries. -/
theorem within_foldlM {f : β → α → Count κ β} {g : β → α → Option β} {I : β → Prop} {bound : κ}
    (hpos : 0 ≤ bound) (h : ∀ b a, I b → Within (f b a) (g b a) bound)
    (hnext : ∀ b a b', I b → g b a = some b' → I b') : ∀ (l : List α) (b : β), I b →
    Within (l.foldlM f b) (l.foldlM g b) (l.length • bound) := by
  intro l
  induction l with
  | nil =>
    intro b _
    rw [List.foldlM_nil, List.foldlM_nil, List.length_nil, zero_nsmul]
    exact within_pure b
  | cons a l ih =>
    intro b hb
    rw [List.foldlM_cons, List.foldlM_cons, List.length_cons, succ_nsmul']
    exact (h b a hb).bind (nsmul_nonneg hpos _) fun b' hb' => ih b' (hnext b a b' hb hb')

end Counting
