import RawHelper.Lib.Machine

/-!
# The allocation cap

`helper/src/alloc.rs`: `Capped` passes every request on to the system's allocator,
unless it is for more than `MAX_ALLOCATION` bytes, which it refuses by itself.

An allocator is a state and its answers (`GlobalAlloc`); a program is any list of
requests.  Each side keeps its own account of the blocks in use, and the program
owes the allocator that it gives back only what it has, as it has it (`Legal`).
`capped_refines` says that the cap is transparent: a program in front of `Capped`
is one in front of the system that never made the requests that were refused, so
the contract it keeps with `Capped` is kept with the system, and no block in use is
larger than the cap.
-/

namespace RawHelper.Alloc

/-! ## The code -/

/-- Largest single allocation. -/
def maxAllocation : UInt64 := (2 : UInt64) <<< (30 : UInt64)

structure Layout where
  size : UInt64
  align : UInt64
deriving DecidableEq

/-- `GlobalAlloc`, over the state behind it; `none` is a null pointer. -/
structure GlobalAlloc (σ : Type) where
  alloc : Layout → σ → Option UInt64 × σ
  allocZeroed : Layout → σ → Option UInt64 × σ
  dealloc : UInt64 → Layout → σ → σ
  realloc : UInt64 → Layout → UInt64 → σ → Option UInt64 × σ

section Code

variable {σ : Type} (system : GlobalAlloc σ)

/-- `Capped`, in front of `System`. -/
def capped : GlobalAlloc σ where
  alloc layout s := if maxAllocation < layout.size then (none, s) else system.alloc layout s
  allocZeroed layout s :=
    if maxAllocation < layout.size then (none, s) else system.allocZeroed layout s
  dealloc ptr layout s := system.dealloc ptr layout s
  realloc ptr layout newSize s :=
    if maxAllocation < newSize then (none, s) else system.realloc ptr layout newSize s

end Code

/-! ## Programs -/

/-- What a program asks of an allocator. -/
inductive Request where
  | alloc (layout : Layout)
  | allocZeroed (layout : Layout)
  | dealloc (ptr : UInt64) (layout : Layout)
  | realloc (ptr : UInt64) (layout : Layout) (newSize : UInt64)

namespace Request

/-- The request is not for more than the cap. -/
def within : Request → Bool
  | alloc layout | allocZeroed layout => layout.size ≤ maxAllocation
  | dealloc _ _ => true
  | realloc _ _ newSize => newSize ≤ maxAllocation

end Request

/-- The blocks in use, by their addresses. -/
abbrev Blocks := UInt64 → Option Layout

namespace Blocks

/-- The account after a request and its answer. -/
def tell (b : Blocks) : Request → Option UInt64 → Blocks
  | .alloc layout, some ptr | .allocZeroed layout, some ptr => Function.update b ptr (some layout)
  | .dealloc ptr _, _ => Function.update b ptr none
  | .realloc ptr layout newSize, some ptr' =>
    Function.update (Function.update b ptr none) ptr' (some { layout with size := newSize })
  | .alloc _, none | .allocZeroed _, none | .realloc _ _ _, none => b

/-- No block is larger than the cap. -/
def Within (b : Blocks) : Prop := ∀ ptr layout, b ptr = some layout → layout.size ≤ maxAllocation

end Blocks

/-- What the caller owes: a size that is not 0, and a block in use with its layout. -/
def Legal (b : Blocks) : Request → Prop
  | .alloc layout | .allocZeroed layout => layout.size ≠ 0
  | .dealloc ptr layout => b ptr = some layout
  | .realloc ptr layout newSize => b ptr = some layout ∧ newSize ≠ 0

instance (b : Blocks) : (r : Request) → Decidable (Legal b r)
  | .alloc layout | .allocZeroed layout => inferInstanceAs (Decidable (layout.size ≠ 0))
  | .dealloc ptr layout => inferInstanceAs (Decidable (b ptr = some layout))
  | .realloc ptr layout newSize =>
    inferInstanceAs (Decidable (b ptr = some layout ∧ newSize ≠ 0))

namespace GlobalAlloc

variable {σ : Type} (A : GlobalAlloc σ)

def step (s : σ) : Request → Option UInt64 × σ
  | .alloc layout => A.alloc layout s
  | .allocZeroed layout => A.allocZeroed layout s
  | .dealloc ptr layout => (none, A.dealloc ptr layout s)
  | .realloc ptr layout newSize => A.realloc ptr layout newSize s

/-- The blocks in use after a program's requests. -/
def blocks : σ → Blocks → List Request → Blocks
  | _, b, [] => b
  | s, b, r :: rs => blocks (A.step s r).2 (b.tell r (A.step s r).1) rs

/-- Every request is legal when it is made. -/
def Lawful : σ → Blocks → List Request → Prop
  | _, _, [] => True
  | s, b, r :: rs => Legal b r ∧ Lawful (A.step s r).2 (b.tell r (A.step s r).1) rs

end GlobalAlloc

/-! ## The cap -/

section Capped

variable {σ : Type} {system : GlobalAlloc σ}

theorem step_of_within {r : Request} (h : r.within = true) (s : σ) :
    (capped system).step s r = system.step s r := by
  have hle : ∀ {n : UInt64}, decide (n ≤ maxAllocation) = true → ¬ maxAllocation < n :=
    fun h => UInt64.not_lt.mpr (of_decide_eq_true h)
  cases r with
  | alloc layout => exact if_neg (hle h)
  | allocZeroed layout => exact if_neg (hle h)
  | dealloc ptr layout => rfl
  | realloc ptr layout newSize => exact if_neg (hle h)

/-- **A request above the cap gets null and changes nothing**; a block it would have
grown stays as it is. -/
theorem step_of_not_within {r : Request} (h : r.within = false) (s : σ) (b : Blocks) :
    (capped system).step s r = (none, s) ∧ b.tell r none = b := by
  have hlt : ∀ {n : UInt64}, decide (n ≤ maxAllocation) = false → maxAllocation < n :=
    fun h => UInt64.not_le.mp (of_decide_eq_false h)
  cases r with
  | alloc layout => exact ⟨if_pos (hlt h), rfl⟩
  | allocZeroed layout => exact ⟨if_pos (hlt h), rfl⟩
  | dealloc ptr layout => cases h
  | realloc ptr layout newSize => exact ⟨if_pos (hlt h), rfl⟩

theorem run_capped : ∀ (rs : List Request) (s : σ),
    (Machine.run (capped system).step s rs).2 =
      (Machine.run system.step s (rs.filter Request.within)).2 := by
  intro rs
  induction rs with
  | nil => intro s; rfl
  | cons r rs ih =>
    intro s
    cases h : r.within with
    | true =>
      rw [List.filter_cons_of_pos h]
      show (Machine.run (capped system).step ((capped system).step s r).2 rs).2 =
        (Machine.run system.step (system.step s r).2 (rs.filter Request.within)).2
      rw [step_of_within h, ih]
    | false =>
      rw [List.filter_cons_of_neg (by simp [h])]
      show (Machine.run (capped system).step ((capped system).step s r).2 rs).2 =
        (Machine.run system.step s (rs.filter Request.within)).2
      rw [(step_of_not_within h s fun _ => none).1, ih]

theorem blocks_capped : ∀ (rs : List Request) (s : σ) (b : Blocks),
    (capped system).blocks s b rs = system.blocks s b (rs.filter Request.within) := by
  intro rs
  induction rs with
  | nil => intro s b; rfl
  | cons r rs ih =>
    intro s b
    cases h : r.within with
    | true =>
      rw [List.filter_cons_of_pos h, GlobalAlloc.blocks, GlobalAlloc.blocks, step_of_within h, ih]
    | false =>
      obtain ⟨hstep, htell⟩ : (capped system).step s r = (none, s) ∧ b.tell r none = b :=
        step_of_not_within h s b
      rw [List.filter_cons_of_neg (by simp [h]), GlobalAlloc.blocks, hstep, htell, ih]

/-- **The contract is passed on.** -/
theorem lawful_capped : ∀ (rs : List Request) (s : σ) (b : Blocks),
    (capped system).Lawful s b rs → system.Lawful s b (rs.filter Request.within) := by
  intro rs
  induction rs with
  | nil => intro s b _; trivial
  | cons r rs ih =>
    rintro s b ⟨hlegal, hrest⟩
    cases h : r.within with
    | true =>
      rw [List.filter_cons_of_pos h]
      rw [step_of_within h] at hrest
      exact ⟨hlegal, ih _ _ hrest⟩
    | false =>
      obtain ⟨hstep, htell⟩ : (capped system).step s r = (none, s) ∧ b.tell r none = b :=
        step_of_not_within h s b
      rw [List.filter_cons_of_neg (by simp [h])]
      rw [hstep, htell] at hrest
      exact ih _ _ hrest

theorem within_update {b : Blocks} (hb : b.Within) (ptr : UInt64) {layout : Option Layout}
    (h : ∀ l, layout = some l → l.size ≤ maxAllocation) :
    Blocks.Within (Function.update b ptr layout) := by
  intro ptr' l hl
  by_cases hptr : ptr' = ptr
  · subst hptr
    rw [Function.update_self] at hl
    exact h l hl
  · rw [Function.update_of_ne hptr] at hl
    exact hb ptr' l hl

theorem within_tell {b : Blocks} (hb : b.Within) {r : Request} (h : r.within = true)
    (answer : Option UInt64) : (b.tell r answer).Within := by
  have hnone : ∀ l : Layout, none = some l → l.size ≤ maxAllocation := by
    intro l hl
    cases hl
  cases r with
  | dealloc ptr layout => exact within_update hb ptr hnone
  | alloc layout =>
    cases answer with
    | none => exact hb
    | some ptr =>
      refine within_update hb ptr fun l hl => ?_
      obtain rfl := Option.some.inj hl
      exact of_decide_eq_true h
  | allocZeroed layout =>
    cases answer with
    | none => exact hb
    | some ptr =>
      refine within_update hb ptr fun l hl => ?_
      obtain rfl := Option.some.inj hl
      exact of_decide_eq_true h
  | realloc ptr layout newSize =>
    cases answer with
    | none => exact hb
    | some ptr' =>
      refine within_update (within_update hb ptr hnone) ptr' fun l hl => ?_
      obtain rfl := Option.some.inj hl
      exact of_decide_eq_true h

theorem within_blocks : ∀ {rs : List Request} (s : σ) {b : Blocks},
    (∀ r ∈ rs, r.within = true) → b.Within → (system.blocks s b rs).Within := by
  intro rs
  induction rs with
  | nil => intro s b _ hb; exact hb
  | cons r rs ih =>
    intro s b h hb
    exact ih _ (fun r hr => h r (List.mem_cons_of_mem _ hr))
      (within_tell hb (h r (List.mem_cons_self ..)) _)

end Capped

/-- **The cap is transparent.**  Whatever a program asks of `Capped`, and whatever the
system answers: the system is left as if only the requests within the cap had been
made, and these are answered as it answers them; the others get null.  Both sides
have the same blocks in use, of which none is larger than the cap, and a program that
keeps the contract with `Capped` keeps it, through `Capped`, with the system. -/
theorem capped_refines {σ : Type} (system : GlobalAlloc σ) (s : σ) (rs : List Request) :
    (Machine.run (capped system).step s rs).2 =
      (Machine.run system.step s (rs.filter Request.within)).2 ∧
    ((rs.zip (Machine.run (capped system).step s rs).1).filter (fun x => x.1.within)).map
        (fun x => x.2) = (Machine.run system.step s (rs.filter Request.within)).1 ∧
    (∀ x ∈ rs.zip (Machine.run (capped system).step s rs).1, x.1.within = false → x.2 = none) ∧
    (∀ b : Blocks, (capped system).blocks s b rs =
      system.blocks s b (rs.filter Request.within)) ∧
    ((capped system).blocks s (fun _ => none) rs).Within ∧
    ((capped system).Lawful s (fun _ => none) rs →
      system.Lawful s (fun _ => none) (rs.filter Request.within)) := by
  refine ⟨run_capped rs s, ?_, ?_, blocks_capped rs s, ?_, lawful_capped rs s _⟩
  · have hkeep : ∀ (s t : σ) (r : Request), s = t → r.within = true →
        ((capped system).step s r).1 = (system.step t r).1 ∧
          ((capped system).step s r).2 = (system.step t r).2 := by
      rintro s _ r rfl h
      rw [step_of_within h]
      exact ⟨rfl, rfl⟩
    have hskip : ∀ (s t : σ) (r : Request), s = t → r.within = false →
        ((capped system).step s r).2 = t := by
      rintro s _ r rfl h
      rw [(step_of_not_within h s fun _ => none).1]
    exact Machine.run_filter hkeep hskip rs s s rfl
  · have hnull : ∀ (s : σ) (r : Request), True →
        (r.within = false → ((capped system).step s r).1 = none) ∧ True := by
      intro s r _
      refine ⟨fun h => ?_, trivial⟩
      rw [(step_of_not_within h s fun _ => none).1]
    intro x hx hout
    have hanswers := Machine.forall₂_run
      (P := fun (r : Request) (answer : Option UInt64) => r.within = false → answer = none)
      hnull rs s trivial
    exact (List.forall₂_iff_zip.mp hanswers).2 hx hout
  · rw [blocks_capped]
    exact within_blocks s (fun r hr => (List.mem_filter.mp hr).2) (by intro _ _ h; cases h)

/-- An allocator that hands out one address after another. -/
def bump : GlobalAlloc UInt64 where
  alloc layout s := (some s, s + layout.size)
  allocZeroed layout s := (some s, s + layout.size)
  dealloc _ _ s := s
  realloc _ _ newSize s := (some s, s + newSize)

/-- A block of 64 bytes that could not grow to 3 GiB, and is given back. -/
theorem capped_refines_grow :
    bump.Lawful 16 (fun _ => none) [.alloc ⟨64, 8⟩, .dealloc 16 ⟨64, 8⟩] := by
  refine (capped_refines bump 16
    [.alloc ⟨64, 8⟩, .realloc 16 ⟨64, 8⟩ 3221225472, .dealloc 16 ⟨64, 8⟩]).2.2.2.2.2 ?_
  exact ⟨by decide, ⟨by decide, by decide⟩, by decide, trivial⟩

end RawHelper.Alloc
