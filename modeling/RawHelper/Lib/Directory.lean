import Mathlib.Data.Set.Basic
import Mathlib.Tactic

/-!
# Names that exist for a moment

Agents share a directory of names.  One makes a new object under a name that is
free, removes the name again and keeps the object, which from then on is known
only to those it is handed to.  Agents take their steps in any order and may stop
anywhere, which leaves a name behind if it was between making and removing it;
others use the directory too, under names of their own (`own` says which are the
agents').

`Inv` is what holds of every directory reached: what an agent is about to remove
is the name of its own object (`Inv.entry`), no two agents have one object
(`Inv.eq_of_object`), what is kept has no name and nobody else has it
(`Inv.kept`), and a name of theirs is in the hands of one of them or was left
behind (`Inv.accounted`).
-/

namespace Directory

variable {κ ν : Type}

/-- Where an agent stands: it has nothing, an object under a name, or an object whose
name is removed. -/
inductive Agent (ν : Type) where
  | idle
  | made (name : ν) (object : ℕ)
  | owns (object : ℕ)

namespace Agent

/-- The object an agent has. -/
def object : Agent ν → Option ℕ
  | idle => none
  | made _ o => some o
  | owns o => some o

@[simp] theorem object_idle : (idle : Agent ν).object = none := rfl
@[simp] theorem object_made (n : ν) (o : ℕ) : (made n o).object = some o := rfl
@[simp] theorem object_owns (o : ℕ) : (owns o : Agent ν).object = some o := rfl

end Agent

/-- The directory and its agents. -/
structure State (κ ν : Type) where
  /-- Every object there has been, with who made it, if it was an agent, and under
  which name. -/
  objects : List (Option κ × ν)
  entries : ν → Option ℕ
  agents : κ → Agent ν
  /-- The objects that are kept. -/
  kept : List ℕ
  /-- The names left behind. -/
  left : Set ν

/-- One step of an agent, or of somebody else. -/
inductive Step [DecidableEq κ] [DecidableEq ν] (own : ν → Prop) (d : State κ ν) : State κ ν → Prop
  | make (k : κ) (n : ν) : d.agents k = .idle → d.entries n = none → own n →
      Step own d { d with
        objects := d.objects ++ [(some k, n)]
        entries := Function.update d.entries n (some d.objects.length)
        agents := Function.update d.agents k (.made n d.objects.length) }
  | remove (k : κ) (n : ν) (o : ℕ) : d.agents k = .made n o →
      Step own d { d with
        entries := Function.update d.entries n none
        agents := Function.update d.agents k (.owns o) }
  | keep (k : κ) (o : ℕ) : d.agents k = .owns o →
      Step own d { d with agents := Function.update d.agents k .idle, kept := o :: d.kept }
  | abandon (gone : κ → Bool) :
      Step own d { d with
        agents := fun k => if gone k then .idle else d.agents k
        left := d.left ∪ {n | ∃ k o, gone k = true ∧ d.agents k = .made n o} }
  | foreign (n : ν) (here : Bool) : ¬ own n →
      Step own d { d with
        objects := d.objects ++ [(none, n)]
        entries := Function.update d.entries n (if here then some d.objects.length else none) }

variable {own : ν → Prop} {d d' : State κ ν}

/-- **The invariant.** -/
structure Inv (own : ν → Prop) (d : State κ ν) : Prop where
  /-- An entry is the name its object was made under. -/
  named : ∀ n o, d.entries n = some o → ∃ k, d.objects[o]? = some (k, n)
  /-- An agent that is about to remove a name removes the one of its object. -/
  entry : ∀ k n o, d.agents k = .made n o →
    own n ∧ d.objects[o]? = some (some k, n) ∧ d.entries n = some o
  owned : ∀ k o, d.agents k = .owns o →
    ∃ n, d.objects[o]? = some (some k, n) ∧ d.entries n ≠ some o
  kept : ∀ o ∈ d.kept, ∃ k n, d.objects[o]? = some (some k, n) ∧ d.entries n ≠ some o ∧
    (d.agents k).object ≠ some o
  nodup : d.kept.Nodup
  /-- A name of the agents' has an agent, or was left behind. -/
  accounted : ∀ n o, own n → d.entries n = some o → (∃ k, d.agents k = .made n o) ∨ n ∈ d.left

namespace Inv

/-- An agent made the object it has. -/
theorem made (h : Inv own d) {k : κ} {o : ℕ} (hk : (d.agents k).object = some o) :
    ∃ n, d.objects[o]? = some (some k, n) := by
  cases ha : d.agents k with
  | idle => rw [ha] at hk; cases hk
  | made n o' =>
    rw [ha] at hk
    obtain rfl : o' = o := Option.some.inj hk
    exact ⟨n, (h.entry k n o' ha).2.1⟩
  | owns o' =>
    rw [ha] at hk
    obtain rfl : o' = o := Option.some.inj hk
    obtain ⟨n, hn, -⟩ := h.owned k o' ha
    exact ⟨n, hn⟩

/-- **No two agents have one object.** -/
theorem eq_of_object (h : Inv own d) {k k' : κ} {o : ℕ} (hk : (d.agents k).object = some o)
    (hk' : (d.agents k').object = some o) : k = k' := by
  obtain ⟨n, hn⟩ := h.made hk
  obtain ⟨n', hn'⟩ := h.made hk'
  have := Option.some.inj (hn.symm.trans hn')
  exact Option.some.inj (congrArg Prod.fst this)

/-- What is kept no agent has. -/
theorem object_ne_of_kept (h : Inv own d) {o : ℕ} (ho : o ∈ d.kept) (k : κ) :
    (d.agents k).object ≠ some o := by
  obtain ⟨k', n, hobj, -, hne⟩ := h.kept o ho
  intro hk
  obtain ⟨n', hn'⟩ := h.made hk
  have := Option.some.inj (hobj.symm.trans hn')
  obtain rfl : k' = k := Option.some.inj (congrArg Prod.fst this)
  exact hne hk

/-- What has lost its name has no other. -/
theorem entries_ne {n : ν} {k : Option κ} {o : ℕ} (h : Inv own d)
    (hobj : d.objects[o]? = some (k, n)) (hn : d.entries n ≠ some o) (n' : ν) :
    d.entries n' ≠ some o := by
  intro hn'
  obtain ⟨k', hk'⟩ := h.named n' o hn'
  have := Option.some.inj (hobj.symm.trans hk')
  obtain rfl : n = n' := congrArg Prod.snd this
  exact hn hn'

theorem entries_ne_of_kept (h : Inv own d) {o : ℕ} (ho : o ∈ d.kept) (n : ν) :
    d.entries n ≠ some o := by
  obtain ⟨k, n', hobj, hne, -⟩ := h.kept o ho
  exact h.entries_ne hobj hne n

end Inv

/-! ### Each step keeps it -/

section Step

/-- An object that is there stays where it is. -/
theorem getElem?_concat {l : List (Option κ × ν)} {o : ℕ} {x y : Option κ × ν}
    (h : l[o]? = some x) : (l ++ [y])[o]? = some x := by
  rw [List.getElem?_append_left (List.getElem?_eq_some_iff.mp h).1, h]

theorem ne_length {l : List (Option κ × ν)} {o : ℕ} {x : Option κ × ν} (h : l[o]? = some x) :
    some l.length ≠ some o := by
  have := (List.getElem?_eq_some_iff.mp h).1
  intro he
  obtain rfl := Option.some.inj he
  omega

theorem none_ne (o : ℕ) : none ≠ some o := (Option.some_ne_none o).symm

theorem ite_ne {l : List (Option κ × ν)} {o : ℕ} {x : Option κ × ν} (here : Bool)
    (h : l[o]? = some x) : (if here then some l.length else none) ≠ some o := by
  cases here with
  | true => exact ne_length h
  | false => exact none_ne o

theorem Inv.abandon (h : Inv own d) (gone : κ → Bool) :
    Inv own { d with
      agents := fun k => if gone k then .idle else d.agents k
      left := d.left ∪ {n | ∃ k o, gone k = true ∧ d.agents k = .made n o} } where
  named := h.named
  entry := by
    intro k n o ho
    dsimp only at ho ⊢
    cases hg : gone k with
    | true => simp [hg] at ho
    | false => exact h.entry k n o (by simpa [hg] using ho)
  owned := by
    intro k o ho
    dsimp only at ho ⊢
    cases hg : gone k with
    | true => simp [hg] at ho
    | false => exact h.owned k o (by simpa [hg] using ho)
  kept := by
    intro o ho
    dsimp only at ho ⊢
    obtain ⟨k, n, hobj, hent, hne⟩ := h.kept o ho
    refine ⟨k, n, hobj, hent, ?_⟩
    cases hg : gone k with
    | true => simp
    | false => simpa [hg] using hne
  nodup := h.nodup
  accounted := by
    intro n o hown ho
    dsimp only at ho ⊢
    rcases h.accounted n o hown ho with ⟨k, hk⟩ | hleft
    · cases hg : gone k with
      | true => exact Or.inr (Or.inr ⟨k, o, hg, hk⟩)
      | false => exact Or.inl ⟨k, by simpa [hg] using hk⟩
    · exact Or.inr (Or.inl hleft)

theorem object_update_ne [DecidableEq κ] {f : κ → Agent ν} {k k' : κ} {a : Agent ν} {o : ℕ}
    (h : (f k').object ≠ some o) (ha : a.object ≠ some o) :
    (Function.update f k a k').object ≠ some o := by
  by_cases hk : k' = k
  · subst hk
    rwa [Function.update_self]
  · rwa [Function.update_of_ne hk]

theorem Inv.keep [DecidableEq κ] (h : Inv own d) {k : κ} {o : ℕ} (hk : d.agents k = .owns o) :
    Inv own { d with agents := Function.update d.agents k .idle, kept := o :: d.kept } where
  named := h.named
  entry := by
    intro k' n o' ho
    dsimp only at ho ⊢
    by_cases hk' : k' = k
    · subst hk'
      rw [Function.update_self] at ho
      cases ho
    · rw [Function.update_of_ne hk'] at ho
      exact h.entry k' n o' ho
  owned := by
    intro k' o' ho
    dsimp only at ho ⊢
    by_cases hk' : k' = k
    · subst hk'
      rw [Function.update_self] at ho
      cases ho
    · rw [Function.update_of_ne hk'] at ho
      exact h.owned k' o' ho
  kept := by
    intro o' ho
    dsimp only at ho ⊢
    rcases List.mem_cons.mp ho with rfl | ho
    · obtain ⟨n, hobj, hent⟩ := h.owned k o' hk
      refine ⟨k, n, hobj, hent, ?_⟩
      rw [Function.update_self]
      exact none_ne o'
    · obtain ⟨k', n, hobj, hent, hne⟩ := h.kept o' ho
      exact ⟨k', n, hobj, hent, object_update_ne hne (none_ne o')⟩
  nodup := by
    refine List.nodup_cons.mpr ⟨?_, h.nodup⟩
    intro ho
    exact h.object_ne_of_kept ho k (by rw [hk]; rfl)
  accounted := by
    intro n o' hown ho
    dsimp only at ho ⊢
    rcases h.accounted n o' hown ho with ⟨k', hk'⟩ | hleft
    · have hne : k' ≠ k := by
        intro he
        rw [he, hk] at hk'
        cases hk'
      exact Or.inl ⟨k', (Function.update_of_ne hne ..).trans hk'⟩
    · exact Or.inr hleft

variable [DecidableEq ν]

theorem update_ne {f : ν → Option ℕ} {n n' : ν} {v : Option ℕ} {o : ℕ} (h : f n' ≠ some o)
    (hv : v ≠ some o) : Function.update f n v n' ≠ some o := by
  by_cases hn : n' = n
  · subst hn
    rwa [Function.update_self]
  · rwa [Function.update_of_ne hn]

theorem Inv.foreign (h : Inv own d) {n : ν} (hn : ¬ own n) (here : Bool) :
    Inv own { d with
      objects := d.objects ++ [(none, n)]
      entries := Function.update d.entries n (if here then some d.objects.length else none) } where
  named := by
    intro n' o ho
    dsimp only at ho ⊢
    by_cases hn' : n' = n
    · subst hn'
      rw [Function.update_self] at ho
      cases here with
      | true =>
        obtain rfl := Option.some.inj ho
        exact ⟨none, List.getElem?_concat_length⟩
      | false => cases ho
    · rw [Function.update_of_ne hn'] at ho
      obtain ⟨k', hk'⟩ := h.named n' o ho
      exact ⟨k', getElem?_concat hk'⟩
  entry := by
    intro k n' o ho
    dsimp only at ho ⊢
    obtain ⟨hown, hobj, hent⟩ := h.entry k n' o ho
    have hne : n' ≠ n := by
      rintro rfl
      exact hn hown
    exact ⟨hown, getElem?_concat hobj, (Function.update_of_ne hne ..).trans hent⟩
  owned := by
    intro k o ho
    dsimp only at ho ⊢
    obtain ⟨n', hobj, hent⟩ := h.owned k o ho
    exact ⟨n', getElem?_concat hobj, update_ne hent (ite_ne here hobj)⟩
  kept := by
    intro o ho
    dsimp only at ho ⊢
    obtain ⟨k, n', hobj, hent, hne⟩ := h.kept o ho
    exact ⟨k, n', getElem?_concat hobj, update_ne hent (ite_ne here hobj), hne⟩
  nodup := h.nodup
  accounted := by
    intro n' o hown ho
    dsimp only at ho ⊢
    have hne : n' ≠ n := by
      rintro rfl
      exact hn hown
    rw [Function.update_of_ne hne] at ho
    exact h.accounted n' o hown ho

variable [DecidableEq κ]

theorem Inv.make (h : Inv own d) {k : κ} {n : ν} (hk : d.agents k = .idle)
    (hn : d.entries n = none) (hown : own n) :
    Inv own { d with
      objects := d.objects ++ [(some k, n)]
      entries := Function.update d.entries n (some d.objects.length)
      agents := Function.update d.agents k (.made n d.objects.length) } where
  named := by
    intro n' o ho
    dsimp only at ho ⊢
    by_cases hn' : n' = n
    · subst hn'
      rw [Function.update_self] at ho
      obtain rfl := Option.some.inj ho
      exact ⟨some k, List.getElem?_concat_length⟩
    · rw [Function.update_of_ne hn'] at ho
      obtain ⟨k', hk'⟩ := h.named n' o ho
      exact ⟨k', getElem?_concat hk'⟩
  entry := by
    intro k' n' o ho
    dsimp only at ho ⊢
    by_cases hk' : k' = k
    · subst hk'
      rw [Function.update_self] at ho
      obtain ⟨rfl, rfl⟩ := Agent.made.inj ho
      exact ⟨hown, List.getElem?_concat_length, Function.update_self ..⟩
    · rw [Function.update_of_ne hk'] at ho
      obtain ⟨hown', hobj, hent⟩ := h.entry k' n' o ho
      have hne : n' ≠ n := by
        intro he
        rw [he, hn] at hent
        cases hent
      exact ⟨hown', getElem?_concat hobj, (Function.update_of_ne hne ..).trans hent⟩
  owned := by
    intro k' o ho
    dsimp only at ho ⊢
    by_cases hk' : k' = k
    · subst hk'
      rw [Function.update_self] at ho
      cases ho
    · rw [Function.update_of_ne hk'] at ho
      obtain ⟨n', hobj, hent⟩ := h.owned k' o ho
      exact ⟨n', getElem?_concat hobj, update_ne hent (ne_length hobj)⟩
  kept := by
    intro o ho
    dsimp only at ho ⊢
    obtain ⟨k', n', hobj, hent, hne⟩ := h.kept o ho
    exact ⟨k', n', getElem?_concat hobj, update_ne hent (ne_length hobj),
      object_update_ne hne (ne_length hobj)⟩
  nodup := h.nodup
  accounted := by
    intro n' o hown ho
    dsimp only at ho ⊢
    by_cases hn' : n' = n
    · subst hn'
      rw [Function.update_self] at ho
      obtain rfl := Option.some.inj ho
      exact Or.inl ⟨k, Function.update_self ..⟩
    · rw [Function.update_of_ne hn'] at ho
      rcases h.accounted n' o hown ho with ⟨k', hk'⟩ | hleft
      · have hne : k' ≠ k := by
          intro he
          rw [he, hk] at hk'
          cases hk'
        exact Or.inl ⟨k', (Function.update_of_ne hne ..).trans hk'⟩
      · exact Or.inr hleft

theorem Inv.remove (h : Inv own d) {k : κ} {n : ν} {o : ℕ} (hk : d.agents k = .made n o) :
    Inv own { d with
      entries := Function.update d.entries n none
      agents := Function.update d.agents k (.owns o) } where
  named := by
    intro n' o' ho
    dsimp only at ho ⊢
    by_cases hn' : n' = n
    · subst hn'
      rw [Function.update_self] at ho
      cases ho
    · rw [Function.update_of_ne hn'] at ho
      exact h.named n' o' ho
  entry := by
    intro k' n' o' ho
    dsimp only at ho ⊢
    by_cases hk' : k' = k
    · subst hk'
      rw [Function.update_self] at ho
      cases ho
    · rw [Function.update_of_ne hk'] at ho
      obtain ⟨hown, hobj, hent⟩ := h.entry k' n' o' ho
      -- an agent with the same name would have the same object
      have hne : n' ≠ n := by
        intro he
        subst he
        obtain ⟨-, -, hent'⟩ := h.entry k n' o hk
        obtain rfl : o' = o := Option.some.inj (hent.symm.trans hent')
        exact hk' (h.eq_of_object (by rw [ho]; rfl) (by rw [hk]; rfl))
      exact ⟨hown, hobj, (Function.update_of_ne hne ..).trans hent⟩
  owned := by
    intro k' o' ho
    dsimp only at ho ⊢
    by_cases hk' : k' = k
    · subst hk'
      rw [Function.update_self] at ho
      obtain rfl := Agent.owns.inj ho
      obtain ⟨-, hobj, -⟩ := h.entry k' n o hk
      refine ⟨n, hobj, ?_⟩
      rw [Function.update_self]
      exact none_ne o
    · rw [Function.update_of_ne hk'] at ho
      obtain ⟨n', hobj, hent⟩ := h.owned k' o' ho
      exact ⟨n', hobj, update_ne hent (none_ne o')⟩
  kept := by
    intro o' ho
    dsimp only at ho ⊢
    obtain ⟨k', n', hobj, hent, hne⟩ := h.kept o' ho
    refine ⟨k', n', hobj, update_ne hent (none_ne o'), ?_⟩
    by_cases hk' : k' = k
    · subst hk'
      rw [hk] at hne
      rwa [Function.update_self]
    · rwa [Function.update_of_ne hk']
  nodup := h.nodup
  accounted := by
    intro n' o' hown ho
    dsimp only at ho ⊢
    by_cases hn' : n' = n
    · subst hn'
      rw [Function.update_self] at ho
      cases ho
    · rw [Function.update_of_ne hn'] at ho
      rcases h.accounted n' o' hown ho with ⟨k', hk'⟩ | hleft
      · have hne : k' ≠ k := by
          intro he
          rw [he, hk] at hk'
          exact hn' (Agent.made.inj hk').1.symm
        exact Or.inl ⟨k', (Function.update_of_ne hne ..).trans hk'⟩
      · exact Or.inr hleft

/-- **Every step keeps the invariant.** -/
theorem Step.inv (h : Step own d d') (hd : Inv own d) : Inv own d' := by
  cases h with
  | make k n hk hn hown => exact hd.make hk hn hown
  | remove k n o hk => exact hd.remove hk
  | keep k o hk => exact hd.keep hk
  | abandon gone => exact hd.abandon gone
  | foreign n here hn => exact hd.foreign hn here

end Step

/-- A directory before the agents start: the objects there are were made by others,
under other names. -/
def start (others : List ν) (entries : ν → Option ℕ) : State κ ν where
  objects := others.map fun n => (none, n)
  entries := entries
  agents _ := .idle
  kept := []
  left := ∅

theorem inv_start {others : List ν} {entries : ν → Option ℕ} (hothers : ∀ n ∈ others, ¬ own n)
    (hentries : ∀ n o, entries n = some o → others[o]? = some n) :
    Inv own (start others entries : State κ ν) where
  named := by
    intro n o ho
    refine ⟨none, ?_⟩
    rw [start, List.getElem?_map, hentries n o ho]
    rfl
  entry := by
    intro k n o ho
    cases ho
  owned := by
    intro k o ho
    cases ho
  kept := by
    intro o ho
    cases ho
  nodup := List.nodup_nil
  accounted := by
    intro n o hown ho
    exact absurd hown (hothers n (List.mem_of_getElem? (hentries n o ho)))

end Directory
