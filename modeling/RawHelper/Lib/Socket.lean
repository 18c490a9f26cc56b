import Mathlib.Tactic
import Mathlib.Logic.Relation

/-!
# Programs at the two ends of a stream socket

A `Sender` and a `Receiver` are the programs of the two processes, as trees of
system calls.  Bytes travel in order; an attached item (a descriptor) rides on
the first byte of the call that sent it.  Every call may move any non-zero part
of what it is asked: a `Moved n` is how much of `n` it moved.  `recvmsg` hands
over the items attached to the bytes it returns, `read` drops them, and both
return nothing exactly when the peer has closed and the stream is empty.

`Step` lets the two programs run against each other, in any order and with any
cuts.  What a run does is reduced to each program alone: `Emits` says which
stream a sender writes whatever the cuts, `Reads` is the weakest precondition of
a receiver on a given stream whatever the cuts, and `inv_of_run` says that if the
sender emits the stream the receiver reads, every interleaving agrees with the
receiver reading that stream by itself.  `progress` and `step_wf` say no run
stops early and none goes on for ever.
-/

namespace Socket

variable {β φ α γ ρ : Type}

/-! ## Programs -/

/-- How much of `n` a call moved: some of it. -/
abbrev Moved (n : Nat) := {k : Nat // 0 < k ∧ k ≤ n}

/-- A program that writes: `put` sends bytes with an item attached to the first
of those it moves. -/
inductive Sender (β φ α : Type) where
  | ret (a : α)
  | put (bytes : List β) (item : Option φ) (next : Moved bytes.length → Sender β φ α)

/-- A program that reads at most `cap` bytes a call; `alloc n` asks for a buffer
of `n` bytes, and `panic` is where an index was out of range. -/
inductive Receiver (β φ α : Type) where
  | ret (a : α)
  | panic
  | alloc (n : Nat) (next : Receiver β φ α)
  | recvmsg (cap : Nat) (next : List β → List φ → Receiver β φ α)
  | read (cap : Nat) (next : List β → Receiver β φ α)

def Sender.bind : Sender β φ α → (α → Sender β φ γ) → Sender β φ γ
  | .ret a, f => f a
  | .put bytes item next, f => .put bytes item (fun k => (next k).bind f)

def Receiver.bind : Receiver β φ α → (α → Receiver β φ γ) → Receiver β φ γ
  | .ret a, f => f a
  | .panic, _ => .panic
  | .alloc n next, f => .alloc n (next.bind f)
  | .recvmsg cap next, f => .recvmsg cap (fun bytes items => (next bytes items).bind f)
  | .read cap next, f => .read cap (fun bytes => (next bytes).bind f)

/-! ## Streams -/

/-- Bytes in flight, each with what is attached to it. -/
abbrev Tagged (β φ : Type) := List (β × Option φ)

/-- Bytes sent together, the item on the first. -/
def attach (item : Option φ) : List β → Tagged β φ
  | [] => []
  | b :: l => (b, item) :: l.map (fun b => (b, none))

def bytesOf (s : Tagged β φ) : List β := s.map Prod.fst

def itemsOf (s : Tagged β φ) : List φ := s.filterMap Prod.snd

@[simp] theorem attach_nil (item : Option φ) : attach item ([] : List β) = [] := rfl

@[simp] theorem bytesOf_attach (item : Option φ) (l : List β) : bytesOf (attach item l) = l := by
  cases l with
  | nil => rfl
  | cons b l => simp [attach, bytesOf, Function.comp_def]

@[simp] theorem length_attach (item : Option φ) (l : List β) :
    (attach item l).length = l.length := by
  cases l <;> simp [attach]

@[simp] theorem bytesOf_append (s t : Tagged β φ) :
    bytesOf (s ++ t) = bytesOf s ++ bytesOf t := List.map_append

@[simp] theorem length_bytesOf (s : Tagged β φ) : (bytesOf s).length = s.length := List.length_map _

theorem bytesOf_take (n : Nat) (s : Tagged β φ) : bytesOf (s.take n) = (bytesOf s).take n :=
  List.map_take

theorem bytesOf_drop (n : Nat) (s : Tagged β φ) : bytesOf (s.drop n) = (bytesOf s).drop n :=
  List.map_drop

theorem attach_none_append (l₁ l₂ : List β) :
    (attach none (l₁ ++ l₂) : Tagged β φ) = attach none l₁ ++ attach none l₂ := by
  cases l₁ with
  | nil => rfl
  | cons b l₁ => cases l₂ <;> simp [attach]

/-- Cutting a message anywhere but before its first byte leaves the item in front. -/
theorem attach_append (item : Option φ) {l₁ : List β} (l₂ : List β) (h : l₁ ≠ []) :
    attach item (l₁ ++ l₂) = attach item l₁ ++ attach none l₂ := by
  cases l₁ with
  | nil => exact absurd rfl h
  | cons b l₁ => cases l₂ <;> simp [attach]

theorem itemsOf_attach (item : Option φ) {l : List β} (h : l ≠ []) :
    itemsOf (attach item l) = item.toList := by
  cases l with
  | nil => exact absurd rfl h
  | cons b l =>
    cases item <;> simp [attach, itemsOf]

/-! ## What a program does by itself -/

/-- The sender writes exactly the stream `t`, however its calls are cut, and ends
with a result satisfying `Q`. -/
def Emits : Sender β φ α → Tagged β φ → (α → Prop) → Prop
  | .ret a, t, Q => t = [] ∧ Q a
  | .put bytes item next, t, Q => bytes ≠ [] ∧ ∀ k : Moved bytes.length,
      ∃ t', t = attach item (bytes.take k) ++ t' ∧ Emits (next k) t' Q

/-- The receiver, reading the closed stream `t`, ends with a result and a rest of
the stream satisfying `Q`, however its calls are cut; it does not panic. -/
def Reads : Receiver β φ α → Tagged β φ → (α → Tagged β φ → Prop) → Prop
  | .ret a, t, Q => Q a t
  | .panic, _, _ => False
  | .alloc _ next, t, Q => Reads next t Q
  | .recvmsg cap next, t, Q => 0 < cap ∧ (t = [] → Reads (next [] []) [] Q) ∧
      ∀ k, 0 < k → k ≤ cap → k ≤ t.length →
        Reads (next (bytesOf (t.take k)) (itemsOf (t.take k))) (t.drop k) Q
  | .read cap next, t, Q => 0 < cap ∧ (t = [] → Reads (next []) [] Q) ∧
      ∀ k, 0 < k → k ≤ cap → k ≤ t.length → Reads (next (bytesOf (t.take k))) (t.drop k) Q

/-- No buffer the receiver asks for is larger than `bound`, whatever it reads. -/
def AllocsAtMost (bound : Nat) : Receiver β φ α → Prop
  | .ret _ => True
  | .panic => True
  | .alloc n next => n ≤ bound ∧ AllocsAtMost bound next
  | .recvmsg _ next => ∀ bytes items, AllocsAtMost bound (next bytes items)
  | .read _ next => ∀ bytes, AllocsAtMost bound (next bytes)

theorem emits_bind {f : α → Sender β φ γ} {Q : γ → Prop} {t₂ : Tagged β φ} :
    ∀ {p : Sender β φ α} {t₁ : Tagged β φ},
      Emits p t₁ (fun a => Emits (f a) t₂ Q) → Emits (p.bind f) (t₁ ++ t₂) Q := by
  intro p
  induction p with
  | ret a => rintro t₁ ⟨rfl, h⟩; exact h
  | put bytes item next ih =>
    rintro t₁ ⟨hne, h⟩
    refine ⟨hne, fun k => ?_⟩
    obtain ⟨t', rfl, hnext⟩ := h k
    exact ⟨t' ++ t₂, List.append_assoc _ _ _, ih k hnext⟩

theorem Emits.mono {Q Q' : α → Prop} (hQ : ∀ a, Q a → Q' a) :
    ∀ {p : Sender β φ α} {t : Tagged β φ}, Emits p t Q → Emits p t Q' := by
  intro p
  induction p with
  | ret a => rintro t ⟨ht, h⟩; exact ⟨ht, hQ a h⟩
  | put bytes item next ih =>
    rintro t ⟨hne, h⟩
    refine ⟨hne, fun k => ?_⟩
    obtain ⟨t', ht, hnext⟩ := h k
    exact ⟨t', ht, ih k hnext⟩

theorem Reads.mono {Q Q' : α → Tagged β φ → Prop} (hQ : ∀ a t, Q a t → Q' a t) :
    ∀ {p : Receiver β φ α} {t : Tagged β φ}, Reads p t Q → Reads p t Q' := by
  intro p
  induction p with
  | ret a => intro t h; exact hQ a t h
  | panic => intro t h; exact h
  | alloc n next ih => intro t h; exact ih h
  | recvmsg cap next ih =>
    rintro t ⟨hcap, heof, h⟩
    exact ⟨hcap, fun ht => ih _ _ (heof ht), fun k h0 hk hl => ih _ _ (h k h0 hk hl)⟩
  | read cap next ih =>
    rintro t ⟨hcap, heof, h⟩
    exact ⟨hcap, fun ht => ih _ (heof ht), fun k h0 hk hl => ih _ (h k h0 hk hl)⟩

/-- **A sequence of two programs**: the second reads what the first left. -/
theorem reads_bind {f : α → Receiver β φ γ} {Q : γ → Tagged β φ → Prop} :
    ∀ {p : Receiver β φ α} {t : Tagged β φ},
      Reads p t (fun a t' => Reads (f a) t' Q) → Reads (p.bind f) t Q := by
  intro p
  induction p with
  | ret a => intro t h; exact h
  | panic => intro t h; exact h
  | alloc n next ih => intro t h; exact ih h
  | recvmsg cap next ih =>
    rintro t ⟨hcap, heof, h⟩
    exact ⟨hcap, fun ht => ih _ _ (heof ht), fun k h0 hk hl => ih _ _ (h k h0 hk hl)⟩
  | read cap next ih =>
    rintro t ⟨hcap, heof, h⟩
    exact ⟨hcap, fun ht => ih _ (heof ht), fun k h0 hk hl => ih _ (h k h0 hk hl)⟩

theorem allocsAtMost_bind {bound : Nat} {f : α → Receiver β φ γ}
    (hf : ∀ a, AllocsAtMost bound (f a)) :
    ∀ {p : Receiver β φ α}, AllocsAtMost bound p → AllocsAtMost bound (p.bind f) := by
  intro p
  induction p with
  | ret a => intro _; exact hf a
  | panic => intro _; trivial
  | alloc n next ih => intro h; exact ⟨h.1, ih h.2⟩
  | recvmsg cap next ih => intro h bytes items; exact ih _ _ (h bytes items)
  | read cap next ih => intro h bytes; exact ih _ (h bytes)

/-! ## Reading and writing in full -/

/-- Writes all of `bytes`, call after call, then goes on. -/
def writeAll (bytes : List β) (next : Sender β φ α) : Sender β φ α :=
  if _h : bytes = [] then next
  else .put bytes none (fun k => writeAll (bytes.drop k) next)
termination_by bytes.length
decreasing_by
  have := List.length_pos_iff.mpr _h
  have := k.2.1
  rw [List.length_drop]
  omega

/-- Reads exactly `n` bytes, or nothing when the stream ends before. -/
def readExact (n : Nat) : Receiver β φ (Option (List β)) :=
  if n = 0 then .ret (some [])
  else .read n fun chunk =>
    if _h : chunk = [] then .ret none
    else (readExact (n - chunk.length)).bind (fun rest => .ret (rest.map (chunk ++ ·)))
termination_by n
decreasing_by
  have := List.length_pos_iff.mpr _h
  omega

theorem emits_writeAll {next : Sender β φ α} {t : Tagged β φ} {Q : α → Prop}
    (h : Emits next t Q) : ∀ bytes : List β,
      Emits (writeAll bytes next) (attach none bytes ++ t) Q := by
  intro bytes
  induction hn : bytes.length using Nat.strong_induction_on generalizing bytes with
  | _ n ih =>
    rw [writeAll]
    split
    · next hnil => subst hnil; exact h
    · next hne =>
      refine ⟨hne, fun k => ⟨attach none (bytes.drop k) ++ t, ?_, ?_⟩⟩
      · rw [← List.append_assoc, ← attach_none_append, List.take_append_drop]
      · have := k.2
        exact ih _ (by rw [List.length_drop]; omega) _ rfl

/-- **Reading exactly `n` bytes** gives the next `n`, or fails at the end of the
stream. -/
theorem reads_readExact {Q : Option (List β) → Tagged β φ → Prop} :
    ∀ (n : Nat) (t : Tagged β φ),
      (n ≤ t.length → Q (some (bytesOf (t.take n))) (t.drop n)) →
      (t.length < n → Q none []) → Reads (readExact n) t Q := by
  intro n
  induction n using Nat.strong_induction_on generalizing Q with
  | _ n ih =>
    intro t hall hnone
    rw [readExact]
    split
    · next h0 => subst h0; exact hall (Nat.zero_le _)
    · next hn =>
      refine ⟨by omega, ?_, ?_⟩
      · intro ht
        subst ht
        exact hnone (by simp; omega)
      · intro k h0 hk hl
        have hlen : (bytesOf (t.take k)).length = k := by simp [hl]
        have hne : bytesOf (t.take k) ≠ [] := by
          intro h
          rw [h] at hlen
          simp at hlen
          omega
        simp only [dif_neg hne, hlen]
        refine reads_bind (ih (n - k) (by omega) (t.drop k) ?_ ?_)
        · intro hle
          rw [List.length_drop] at hle
          have hsplit : bytesOf (t.take k) ++ bytesOf ((t.drop k).take (n - k))
              = bytesOf (t.take n) := by
            rw [← bytesOf_append, ← List.take_add, Nat.add_sub_cancel' hk]
          show Q (some (_ ++ _)) _
          rw [hsplit, List.drop_drop, Nat.add_sub_cancel' hk]
          exact hall (by omega)
        · intro hlt
          rw [List.length_drop] at hlt
          exact hnone (by omega)

theorem allocsAtMost_readExact (bound : Nat) : ∀ n : Nat,
    AllocsAtMost bound (readExact n : Receiver β φ (Option (List β))) := by
  intro n
  induction n using Nat.strong_induction_on with
  | _ n ih =>
    rw [readExact]
    split
    · trivial
    · next hn =>
      intro chunk
      dsimp only
      split
      · trivial
      · next hne =>
        have := List.length_pos_iff.mpr hne
        exact allocsAtMost_bind (fun rest => by trivial) (ih _ (by omega))

/-! ## Running the two against each other -/

/-- Both programs and the bytes between them. -/
structure Config (β φ α ρ : Type) where
  sender : Sender β φ α
  inFlight : Tagged β φ
  receiver : Receiver β φ ρ

/-- One call of either program.  Reading nothing takes a peer that has closed. -/
inductive Step : Config β φ α ρ → Config β φ α ρ → Prop
  | put {bytes item next s r} (k : Moved bytes.length) :
      Step ⟨.put bytes item next, s, r⟩ ⟨next k, s ++ attach item (bytes.take k), r⟩
  | alloc {w s n next} : Step ⟨w, s, .alloc n next⟩ ⟨w, s, next⟩
  | recvmsg {w s cap next} (k : Nat) : 0 < k → k ≤ cap → k ≤ s.length →
      Step ⟨w, s, .recvmsg cap next⟩
        ⟨w, s.drop k, next (bytesOf (s.take k)) (itemsOf (s.take k))⟩
  | recvmsgEof {a cap next} :
      Step ⟨.ret a, [], .recvmsg cap next⟩ ⟨.ret a, [], next [] []⟩
  | read {w s cap next} (k : Nat) : 0 < k → k ≤ cap → k ≤ s.length →
      Step ⟨w, s, .read cap next⟩ ⟨w, s.drop k, next (bytesOf (s.take k))⟩
  | readEof {a cap next} : Step ⟨.ret a, [], .read cap next⟩ ⟨.ret a, [], next []⟩

/-- Any number of calls. -/
abbrev Run : Config β φ α ρ → Config β φ α ρ → Prop := Relation.ReflTransGen Step

/-- The sender still emits some stream, and the receiver reads what is in flight
followed by it. -/
def Inv (Qs : α → Prop) (Qr : ρ → Tagged β φ → Prop) (c : Config β φ α ρ) : Prop :=
  ∃ t, Emits c.sender t Qs ∧ Reads c.receiver (c.inFlight ++ t) Qr

variable {Qs : α → Prop} {Qr : ρ → Tagged β φ → Prop}

theorem inv_step {c c' : Config β φ α ρ} (h : Inv Qs Qr c) (hstep : Step c c') :
    Inv Qs Qr c' := by
  obtain ⟨t, hs, hr⟩ := h
  cases hstep with
  | put k =>
    obtain ⟨t', rfl, hnext⟩ := hs.2 k
    exact ⟨t', hnext, by rw [List.append_assoc]; exact hr⟩
  | alloc => exact ⟨t, hs, hr⟩
  | @recvmsg w s cap next k h0 hk hl =>
    refine ⟨t, hs, ?_⟩
    have := hr.2.2 k h0 hk (hl.trans (by simp))
    rwa [List.take_append_of_le_length hl, List.drop_append_of_le_length hl] at this
  | recvmsgEof =>
    obtain ⟨rfl, hQ⟩ := hs
    exact ⟨[], ⟨rfl, hQ⟩, hr.2.1 rfl⟩
  | @read w s cap next k h0 hk hl =>
    refine ⟨t, hs, ?_⟩
    have := hr.2.2 k h0 hk (hl.trans (by simp))
    rwa [List.take_append_of_le_length hl, List.drop_append_of_le_length hl] at this
  | readEof =>
    obtain ⟨rfl, hQ⟩ := hs
    exact ⟨[], ⟨rfl, hQ⟩, hr.2.1 rfl⟩

/-- **Every interleaving agrees with the receiver reading the sender's stream.** -/
theorem inv_of_run {c c' : Config β φ α ρ} (h : Inv Qs Qr c) (hrun : Run c c') :
    Inv Qs Qr c' := by
  induction hrun with
  | refl => exact h
  | tail _ hstep ih => exact inv_step ih hstep

theorem Inv.ne_panic {c : Config β φ α ρ} (h : Inv Qs Qr c) : c.receiver ≠ .panic := by
  obtain ⟨t, -, hr⟩ := h
  intro hp
  rw [hp] at hr
  exact hr

/-- **A run never stops before the receiver is done.** -/
theorem Inv.progress {c : Config β φ α ρ} (h : Inv Qs Qr c) :
    (∃ a, c.receiver = .ret a) ∨ ∃ c', Step c c' := by
  obtain ⟨w, s, r⟩ := c
  obtain ⟨t, hs, hr⟩ := h
  have hempty : s = [] → (∃ a, w = .ret a) ∨ ∃ c', Step ⟨w, s, r⟩ c' := by
    rintro rfl
    cases w with
    | ret a => exact Or.inl ⟨a, rfl⟩
    | put bytes item next =>
      have hpos := List.length_pos_iff.mpr hs.1
      exact Or.inr ⟨_, .put ⟨1, by omega, hpos⟩⟩
  cases r with
  | ret a => exact Or.inl ⟨a, rfl⟩
  | panic => exact absurd hr id
  | alloc n next => exact Or.inr ⟨_, .alloc⟩
  | recvmsg cap next =>
    by_cases h0 : s = []
    · rcases hempty h0 with ⟨a, rfl⟩ | hstep
      · subst h0; exact Or.inr ⟨_, .recvmsgEof⟩
      · exact Or.inr hstep
    · exact Or.inr ⟨_, .recvmsg 1 (by omega) hr.1 (List.length_pos_iff.mpr h0)⟩
  | read cap next =>
    by_cases h0 : s = []
    · rcases hempty h0 with ⟨a, rfl⟩ | hstep
      · subst h0; exact Or.inr ⟨_, .readEof⟩
      · exact Or.inr hstep
    · exact Or.inr ⟨_, .read 1 (by omega) hr.1 (List.length_pos_iff.mpr h0)⟩

/-- Each call replaces one of the two trees by one of its subtrees. -/
theorem acc_step (w : Sender β φ α) : ∀ (r : Receiver β φ ρ) (s : Tagged β φ),
    Acc (fun c' c : Config β φ α ρ => Step c c') ⟨w, s, r⟩ := by
  induction w with
  | ret a =>
    intro r
    induction r with
    | ret b => intro s; exact ⟨_, fun c' h => by cases h⟩
    | panic => intro s; exact ⟨_, fun c' h => by cases h⟩
    | alloc n next ih => intro s; exact ⟨_, fun c' h => by cases h; exact ih s⟩
    | recvmsg cap next ih =>
      intro s
      refine ⟨_, fun c' h => ?_⟩
      cases h with
      | recvmsg k _ _ _ => exact ih _ _ _
      | recvmsgEof => exact ih _ _ _
    | read cap next ih =>
      intro s
      refine ⟨_, fun c' h => ?_⟩
      cases h with
      | read k _ _ _ => exact ih _ _
      | readEof => exact ih _ _
  | put bytes item next ihw =>
    intro r
    induction r with
    | ret b => intro s; exact ⟨_, fun c' h => by cases h; exact ihw _ _ _⟩
    | panic => intro s; exact ⟨_, fun c' h => by cases h; exact ihw _ _ _⟩
    | alloc n next ih =>
      intro s
      refine ⟨_, fun c' h => ?_⟩
      cases h with
      | put k => exact ihw _ _ _
      | alloc => exact ih s
    | recvmsg cap next ih =>
      intro s
      refine ⟨_, fun c' h => ?_⟩
      cases h with
      | put k => exact ihw _ _ _
      | recvmsg k _ _ _ => exact ih _ _ _
    | read cap next ih =>
      intro s
      refine ⟨_, fun c' h => ?_⟩
      cases h with
      | put k => exact ihw _ _ _
      | read k _ _ _ => exact ih _ _

/-- **No run goes on for ever.** -/
theorem step_wf : WellFounded (fun c' c : Config β φ α ρ => Step c c') :=
  ⟨fun c => acc_step c.sender c.receiver c.inFlight⟩

/-- Every run can be continued until the receiver is done. -/
theorem Inv.exists_ret {c : Config β φ α ρ} (h : Inv Qs Qr c) :
    ∃ c', Run c c' ∧ ∃ a, c'.receiver = .ret a := by
  induction c using step_wf.induction with
  | _ c ih =>
    rcases h.progress with hret | ⟨c₁, hstep⟩
    · exact ⟨c, .refl, hret⟩
    · obtain ⟨c', hrun, hret⟩ := ih c₁ hstep (inv_step h hstep)
      exact ⟨c', .head hstep hrun, hret⟩

end Socket
