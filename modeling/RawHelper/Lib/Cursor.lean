import RawHelper.Lib.ByteField

/-!
# Reading a list of bytes field by field

A reading step is a program over some cursor `σ`, of which only the bytes it has
left (`rest`) matter; the step may fail.  `Decodes rest p P enc` says that `p`
reads back exactly what `enc` writes, on the values that satisfy `P`: whenever
`p` succeeds, the value's bytes are what it consumed (`sound`), and whenever the
cursor starts with a value's bytes, `p` gives that value (`complete`).

What happens to the cursor when a step fails is left open, so a program that
goes on reading after a failure is covered too: `reads` runs a step a fixed
number of times whatever the outcomes, as an array of reads does, and `collect`
stops at the first failure, as collecting into an optional list does.
-/

namespace Cursor

open ByteField (Codec)

variable {σ α : Type} {rest : σ → List UInt8}

/-- A step reads back exactly what `enc` writes, on the values satisfying `P`. -/
structure Decodes (rest : σ → List UInt8) (p : σ → Option α × σ) (P : α → Prop)
    (enc : α → List UInt8) : Prop where
  sound : ∀ {s s' : σ} {a : α}, p s = (some a, s') → P a ∧ rest s = enc a ++ rest s'
  complete : ∀ {s : σ} {a : α} {t : List UInt8}, P a → rest s = enc a ++ t →
    ∃ s', p s = (some a, s') ∧ rest s' = t

/-- The steps of an array of reads: each is run, whatever the others gave. -/
def reads (p : σ → Option α × σ) : Nat → σ → List (Option α) × σ
  | 0, s => ([], s)
  | n + 1, s =>
    let (a, s) := p s
    let (as, s) := reads p n s
    (a :: as, s)

/-- The steps of a collected list of reads: the first failure ends it. -/
def collect (p : σ → Option α × σ) : Nat → σ → Option (List α) × σ
  | 0, s => (some [], s)
  | n + 1, s =>
    match p s with
    | (none, s) => (none, s)
    | (some a, s) =>
      match collect p n s with
      | (none, s) => (none, s)
      | (some as, s) => (some (a :: as), s)

theorem reads_succ (p : σ → Option α × σ) (n : Nat) (s : σ) :
    reads p (n + 1) s =
      ((p s).1 :: (reads p n (p s).2).1, (reads p n (p s).2).2) := rfl

theorem collect_succ_none {p : σ → Option α × σ} {s s₁ : σ} (n : Nat) (h : p s = (none, s₁)) :
    collect p (n + 1) s = (none, s₁) := by
  rw [collect, h]

theorem collect_succ_some {p : σ → Option α × σ} {s s₁ : σ} {a : α} (n : Nat)
    (h : p s = (some a, s₁)) :
    collect p (n + 1) s = ((collect p n s₁).1.map (a :: ·), (collect p n s₁).2) := by
  rw [collect, h]
  rcases hc : collect p n s₁ with ⟨_ | as, s₂⟩ <;> simp [hc]

theorem length_reads (p : σ → Option α × σ) (n : Nat) (s : σ) :
    (reads p n s).1.length = n := by
  induction n generalizing s with
  | zero => rfl
  | succ n ih => rw [reads_succ, List.length_cons, ih]

/-- A read that fails without moving the cursor fails every time. -/
theorem reads_of_none {p : σ → Option α × σ} {s : σ} (h : p s = (none, s)) : ∀ n : Nat,
    reads p n s = (List.replicate n none, s) := by
  intro n
  induction n with
  | zero => rfl
  | succ n ih => rw [reads_succ, h, ih, List.replicate_succ]

/-- **An array of reads that do not move on failure**: once one fails, so do all
that follow, and the last says whether any did. -/
theorem exists_reads_eq_some {p : σ → Option α × σ}
    (hp : ∀ s s', p s = (none, s') → s' = s) :
    ∀ (n : Nat) (s : σ) (a : α), (reads p n s).1.getLast? = some (some a) →
      ∃ as : List α, (reads p n s).1 = as.map some := by
  intro n
  induction n with
  | zero => intro s a h; simp [reads] at h
  | succ n ih =>
    intro s a h
    rw [reads_succ] at h ⊢
    rcases hs : p s with ⟨_ | b, s₁⟩
    · obtain rfl := hp s s₁ hs
      rw [hs, reads_of_none hs, ← List.replicate_succ, List.getLast?_replicate] at h
      simp at h
    · rw [hs] at h
      cases n with
      | zero => exact ⟨[b], rfl⟩
      | succ n =>
        have hne : (reads p (n + 1) s₁).1 ≠ [] := by
          intro hnil
          have := length_reads p (n + 1) s₁
          simp [hnil] at this
        rw [List.getLast?_cons_of_ne_nil hne] at h
        obtain ⟨as, has⟩ := ih s₁ a h
        exact ⟨b :: as, by rw [has]; rfl⟩

namespace Decodes

variable {p : σ → Option α × σ} {P : α → Prop} {enc : α → List UInt8}

/-- **If every read of an array succeeded, their bytes lie one after another.** -/
theorem reads_sound (h : Decodes rest p P enc) : ∀ (as : List α) {n : Nat} {s s' : σ},
    reads p n s = (as.map some, s') →
      as.length = n ∧ (∀ a ∈ as, P a) ∧ rest s = as.flatMap enc ++ rest s' := by
  intro as n
  induction n generalizing as with
  | zero =>
    intro s s' hr
    obtain ⟨hnil, rfl⟩ := Prod.mk.inj hr
    obtain rfl : as = [] := List.map_eq_nil_iff.mp hnil.symm
    simp
  | succ n ih =>
    intro s s' hr
    rw [reads_succ] at hr
    obtain ⟨hcons, hs'⟩ := Prod.mk.inj hr
    cases as with
    | nil => simp at hcons
    | cons a as =>
      obtain ⟨ha, has⟩ := List.cons.inj hcons
      have hp : p s = (some a, (p s).2) := Prod.ext ha rfl
      have hn : reads p n (p s).2 = (as.map some, s') := Prod.ext has hs'
      obtain ⟨hPa, hrest⟩ := h.sound hp
      obtain ⟨hlen, hP, htail⟩ := ih as hn
      refine ⟨by rw [List.length_cons, hlen], ?_, ?_⟩
      · intro b hb
        rcases List.mem_cons.mp hb with rfl | hb
        · exact hPa
        · exact hP b hb
      · rw [hrest, htail, List.flatMap_cons, List.append_assoc]

theorem reads_complete (h : Decodes rest p P enc) : ∀ (as : List α) {s : σ} {t : List UInt8},
    (∀ a ∈ as, P a) → rest s = as.flatMap enc ++ t →
      ∃ s', reads p as.length s = (as.map some, s') ∧ rest s' = t := by
  intro as
  induction as with
  | nil => intro s t _ hr; exact ⟨s, rfl, by simpa using hr⟩
  | cons a as ih =>
    intro s t hP hr
    rw [List.flatMap_cons, List.append_assoc] at hr
    obtain ⟨s₁, hp, hr₁⟩ := h.complete (hP a (by simp)) hr
    obtain ⟨s₂, has, hr₂⟩ := ih (fun b hb => hP b (List.mem_cons_of_mem a hb)) hr₁
    refine ⟨s₂, ?_, hr₂⟩
    rw [List.length_cons, reads_succ, hp, has]
    rfl

/-- **Collecting `n` reads reads back a list of `n` values.** -/
theorem collect (h : Decodes rest p P enc) (n : Nat) :
    Decodes rest (Cursor.collect p n) (fun as => as.length = n ∧ ∀ a ∈ as, P a)
      (fun as => as.flatMap enc) := by
  induction n with
  | zero =>
    refine ⟨?_, ?_⟩
    · intro s s' as hr
      obtain ⟨has, rfl⟩ := Prod.mk.inj hr
      obtain rfl := Option.some.inj has
      simp
    · intro s as t hP hr
      obtain rfl : as = [] := List.length_eq_zero_iff.mp hP.1
      exact ⟨s, rfl, by simpa using hr⟩
  | succ n ih =>
    refine ⟨?_, ?_⟩
    · intro s s' as hr
      rcases hp : p s with ⟨_ | a, s₁⟩
      · rw [collect_succ_none n hp] at hr
        simp at hr
      · rw [collect_succ_some n hp] at hr
        obtain ⟨hmap, hs'⟩ := Prod.mk.inj hr
        obtain ⟨tl, hc, rfl⟩ := Option.map_eq_some_iff.mp hmap
        obtain ⟨hPa, hrest⟩ := h.sound hp
        have htl : Cursor.collect p n s₁ = (some tl, s') := Prod.ext hc hs'
        obtain ⟨⟨hlen, hPtl⟩, htail⟩ := ih.sound htl
        refine ⟨⟨by rw [List.length_cons, hlen], ?_⟩, ?_⟩
        · intro b hb
          rcases List.mem_cons.mp hb with rfl | hb
          · exact hPa
          · exact hPtl b hb
        · rw [hrest, htail, List.flatMap_cons, List.append_assoc]
    · intro s as t hP hr
      cases as with
      | nil => simp at hP
      | cons a as =>
        rw [List.flatMap_cons, List.append_assoc] at hr
        obtain ⟨s₁, hp, hr₁⟩ := h.complete (hP.2 a (by simp)) hr
        have hPas : as.length = n ∧ ∀ b ∈ as, P b :=
          ⟨by simpa using hP.1, fun b hb => hP.2 b (List.mem_cons_of_mem a hb)⟩
        obtain ⟨s₂, hc, hr₂⟩ := ih.complete hPas hr₁
        refine ⟨s₂, ?_, hr₂⟩
        rw [collect_succ_some n hp, hc]
        rfl

end Decodes

end Cursor
