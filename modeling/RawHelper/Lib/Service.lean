import RawHelper.Lib.Socket

/-!
# Services over a stream socket

A service is a loop: in a state it runs a program that reads the peer's stream
and writes its own, and that ends with the next state or with an exit.  The two
directions are those of `Socket`, a `Receiver` and a `Sender` being two parts a
program is made of; `ask` is where it takes a value from its surroundings.

`Does` is the weakest precondition of one program on a stream that is all it will
ever read.  `Step` puts a service in front of any peer: the peer writes what it
likes when it likes, closes or not, and reads or not; every call moves any part of
what it is asked, a write as much as there is room for; any call may fail, which ends
the service.  What one round may do is a relation `Round` between the stream it finds,
what it leaves of it, what it writes and how it ends, and from `Does` for the body
alone:

* `inv_of_run`: in every run, the rounds done are rounds of the relation, and what
  the current one has read and written can still become one, whatever the peer
  goes on to write;
* `Inv.settles`: by its own calls, and with a peer that only reads, a service comes to
  rest, and `Inv.progress` says that it rests at its exit or in front of a peer that has
  to write more, or to read;
* `Inv.waiting`: where the peer has to write, the next byte is one that the current
  round takes.
-/

namespace Service

open Socket

variable {β φ ψ ι α γ σ ε : Type}

/-! ## Programs -/

/-- A program that reads a stream with items `φ`, writes one with items `ψ`, and
asks its surroundings for values `ι`. -/
inductive Program (β φ ψ ι α : Type) where
  | ret (a : α)
  | panic
  | alloc (n : Nat) (next : Program β φ ψ ι α)
  | ask (next : ι → Program β φ ψ ι α)
  | recvmsg (cap : Nat) (next : List β → List φ → Program β φ ψ ι α)
  | read (cap : Nat) (next : List β → Program β φ ψ ι α)
  | put (bytes : List β) (item : Option ψ) (next : Moved bytes.length → Program β φ ψ ι α)

/-- Receives first, and goes on with what was received. -/
def receiving : Receiver β φ γ → (γ → Program β φ ψ ι α) → Program β φ ψ ι α
  | .ret a, f => f a
  | .panic, _ => .panic
  | .alloc n next, f => .alloc n (receiving next f)
  | .recvmsg cap next, f => .recvmsg cap (fun bytes items => receiving (next bytes items) f)
  | .read cap next, f => .read cap (fun bytes => receiving (next bytes) f)

/-- Sends first, and goes on with how that went. -/
def sending : Sender β ψ γ → (γ → Program β φ ψ ι α) → Program β φ ψ ι α
  | .ret a, f => f a
  | .put bytes item next, f => .put bytes item (fun k => sending (next k) f)

/-- The next thing the program does is a call on the socket. -/
def Program.Calls : Program β φ ψ ι α → Prop
  | .recvmsg _ _ | .read _ _ | .put _ _ _ => True
  | _ => False

/-- The next thing the program does is to read. -/
def Program.Reading : Program β φ ψ ι α → Prop
  | .recvmsg _ _ | .read _ _ => True
  | _ => False

/-- The next thing the program does is to write. -/
def Program.Writing : Program β φ ψ ι α → Prop
  | .put _ _ _ => True
  | _ => False

/-! ## What a program does by itself -/

/-- On the stream `t`, which is all there will be, the program ends with a rest of
the stream, what it wrote and a result satisfying `Q`, however its calls are cut
and whatever its surroundings say; it does not panic and asks for no buffer of
more than `bound` bytes. -/
def Does (bound : Nat) : Program β φ ψ ι α → Tagged β φ →
    (Tagged β φ → Tagged β ψ → α → Prop) → Prop
  | .ret a, t, Q => Q t [] a
  | .panic, _, _ => False
  | .alloc n next, t, Q => n ≤ bound ∧ Does bound next t Q
  | .ask next, t, Q => ∀ i, Does bound (next i) t Q
  | .recvmsg cap next, t, Q => 0 < cap ∧ (t = [] → Does bound (next [] []) [] Q) ∧
      ∀ k, 0 < k → k ≤ cap → k ≤ t.length →
        Does bound (next (bytesOf (t.take k)) (itemsOf (t.take k))) (t.drop k) Q
  | .read cap next, t, Q => 0 < cap ∧ (t = [] → Does bound (next []) [] Q) ∧
      ∀ k, 0 < k → k ≤ cap → k ≤ t.length → Does bound (next (bytesOf (t.take k))) (t.drop k) Q
  | .put bytes item next, t, Q => bytes ≠ [] ∧ ∀ k : Moved bytes.length,
      Does bound (next k) t (fun rest out a => Q rest (attach item (bytes.take k) ++ out) a)

variable {bound : Nat}

theorem does_receiving {f : γ → Program β φ ψ ι α} {Q : Tagged β φ → Tagged β ψ → α → Prop} :
    ∀ {p : Receiver β φ γ} {t : Tagged β φ}, AllocsAtMost bound p →
      Reads p t (fun a t' => Does bound (f a) t' Q) → Does bound (receiving p f) t Q := by
  intro p
  induction p with
  | ret a => intro t _ h; exact h
  | panic => intro t _ h; exact h
  | alloc n next ih => intro t hn h; exact ⟨hn.1, ih hn.2 h⟩
  | recvmsg cap next ih =>
    rintro t hn ⟨hcap, heof, h⟩
    exact ⟨hcap, fun ht => ih _ _ (hn _ _) (heof ht),
      fun k h0 hk hl => ih _ _ (hn _ _) (h k h0 hk hl)⟩
  | read cap next ih =>
    rintro t hn ⟨hcap, heof, h⟩
    exact ⟨hcap, fun ht => ih _ (hn _) (heof ht), fun k h0 hk hl => ih _ (hn _) (h k h0 hk hl)⟩

theorem does_sending {f : γ → Program β φ ψ ι α} {P : γ → Prop} {t : Tagged β φ} :
    ∀ {p : Sender β ψ γ} {u : Tagged β ψ} {Q : Tagged β φ → Tagged β ψ → α → Prop},
      Emits p u P → (∀ a, P a → Does bound (f a) t (fun rest out r => Q rest (u ++ out) r)) →
      Does bound (sending p f) t Q := by
  intro p
  induction p with
  | ret a =>
    rintro u Q ⟨rfl, ha⟩ h
    exact h a ha
  | put bytes item next ih =>
    rintro u Q ⟨hne, hu⟩ h
    refine ⟨hne, fun k => ?_⟩
    obtain ⟨u', rfl, hnext⟩ := hu k
    refine ih k hnext fun a ha => ?_
    simpa only [List.append_assoc] using h a ha

theorem Does.exists_end [Nonempty ι] : ∀ {p : Program β φ ψ ι α} {t : Tagged β φ}
    {Q : Tagged β φ → Tagged β ψ → α → Prop}, Does bound p t Q →
    ∃ rest out a, rest <:+ t ∧ Q rest out a := by
  intro p
  induction p with
  | ret a => intro t Q h; exact ⟨t, [], a, List.suffix_refl t, h⟩
  | panic => intro t Q h; exact absurd h id
  | alloc n next ih => intro t Q h; exact ih h.2
  | ask next ih => intro t Q h; exact ih (Classical.arbitrary ι) (h _)
  | recvmsg cap next ih =>
    rintro t Q ⟨hcap, heof, h⟩
    by_cases h0 : t = []
    · subst h0
      exact ih _ _ (heof rfl)
    · obtain ⟨rest, out, a, hrest, hQ⟩ :=
        ih _ _ (h 1 Nat.one_pos hcap (List.length_pos_iff.mpr h0))
      exact ⟨rest, out, a, hrest.trans (List.drop_suffix 1 t), hQ⟩
  | read cap next ih =>
    rintro t Q ⟨hcap, heof, h⟩
    by_cases h0 : t = []
    · subst h0
      exact ih _ (heof rfl)
    · obtain ⟨rest, out, a, hrest, hQ⟩ :=
        ih _ (h 1 Nat.one_pos hcap (List.length_pos_iff.mpr h0))
      exact ⟨rest, out, a, hrest.trans (List.drop_suffix 1 t), hQ⟩
  | put bytes item next ih =>
    rintro t Q ⟨hne, h⟩
    obtain ⟨rest, out, a, hrest, hQ⟩ :=
      ih _ (h ⟨1, Nat.one_pos, List.length_pos_iff.mpr hne⟩)
    exact ⟨rest, _, a, hrest, hQ⟩

/-! ## A service in front of a peer -/

/-- A service as it runs.  What it read and wrote is kept, by earlier rounds (`past`,
`answered`) and by this one (`taken`, `given`), which began in `state`. -/
structure Config (β φ ψ ι σ ε : Type) where
  state : σ
  program : Program β φ ψ ι (σ ⊕ ε)
  past : Tagged β φ
  taken : Tagged β φ
  inFlight : Tagged β φ
  answered : Tagged β ψ
  given : Tagged β ψ
  /-- How much of that the peer has read. -/
  delivered : Nat
  /-- The peer has closed. -/
  closed : Bool
  /-- A call has failed. -/
  broken : Bool

namespace Config

/-- All the peer has written. -/
def written (c : Config β φ ψ ι σ ε) : Tagged β φ := c.past ++ (c.taken ++ c.inFlight)

/-- All the service has written. -/
def output (c : Config β φ ψ ι σ ε) : Tagged β ψ := c.answered ++ c.given

/-- Nothing read, nothing written. -/
def start (state : σ) (program : Program β φ ψ ι (σ ⊕ ε)) : Config β φ ψ ι σ ε :=
  ⟨state, program, [], [], [], [], [], 0, false, false⟩

/-- How much of what the service has written the peer has not read. -/
def unread (c : Config β φ ψ ι σ ε) : Nat := c.output.length - c.delivered

/-- There is nothing to read, and there may be. -/
def Waiting (c : Config β φ ψ ι σ ε) : Prop :=
  c.program.Reading ∧ c.inFlight = [] ∧ c.closed = false

/-- There is something to write, and no room for it. -/
def Blocked (room : Nat → Nat) (c : Config β φ ψ ι σ ε) : Prop :=
  c.program.Writing ∧ room c.unread = 0

end Config

-- `room n` is how much a call can write when the peer has left `n` unread
variable (room : Nat → Nat)

/-- What a service whose program is the one given does of its own: one call, or the
start of the next round. -/
inductive Moves (body : σ → Program β φ ψ ι (σ ⊕ ε)) (c : Config β φ ψ ι σ ε) :
    Program β φ ψ ι (σ ⊕ ε) → Config β φ ψ ι σ ε → Prop
  | next (s : σ) : Moves body c (.ret (.inl s)) { c with
      state := s, program := body s
      past := c.past ++ c.taken, taken := []
      answered := c.answered ++ c.given, given := [] }
  | alloc (n next) : Moves body c (.alloc n next) { c with program := next }
  | ask (next) (i : ι) : Moves body c (.ask next) { c with program := next i }
  | recvmsg (cap next) (k : Nat) : 0 < k → k ≤ cap → k ≤ c.inFlight.length →
      Moves body c (.recvmsg cap next) { c with
        program := next (bytesOf (c.inFlight.take k)) (itemsOf (c.inFlight.take k))
        taken := c.taken ++ c.inFlight.take k, inFlight := c.inFlight.drop k }
  | recvmsgEof (cap next) : c.inFlight = [] → c.closed = true →
      Moves body c (.recvmsg cap next) { c with program := next [] [] }
  | read (cap next) (k : Nat) : 0 < k → k ≤ cap → k ≤ c.inFlight.length →
      Moves body c (.read cap next) { c with
        program := next (bytesOf (c.inFlight.take k))
        taken := c.taken ++ c.inFlight.take k, inFlight := c.inFlight.drop k }
  | readEof (cap next) : c.inFlight = [] → c.closed = true →
      Moves body c (.read cap next) { c with program := next [] }
  | put (bytes item next) (k : Moved bytes.length) : k ≤ room c.unread →
      Moves body c (.put bytes item next) { c with
        program := next k, given := c.given ++ attach item (bytes.take k) }

/-- The service moves. -/
def Own (body : σ → Program β φ ψ ι (σ ⊕ ε)) (c c' : Config β φ ψ ι σ ε) : Prop :=
  Moves room body c c.program c'

/-- The peer reads. -/
inductive Receives (c : Config β φ ψ ι σ ε) : Config β φ ψ ι σ ε → Prop
  | intro (n : Nat) : 0 < n → n ≤ c.unread →
      Receives c { c with delivered := c.delivered + n }

/-- The service moves, or its peer reads. -/
def Attended (body : σ → Program β φ ψ ι (σ ⊕ ε)) (c c' : Config β φ ψ ι σ ε) : Prop :=
  Own room body c c' ∨ Receives c c'

/-- One step of the service, of its peer, or of a system in which calls fail; a
failed call ends the service with `broke`. -/
inductive Step (body : σ → Program β φ ψ ι (σ ⊕ ε)) (broke : ε) :
    Config β φ ψ ι σ ε → Config β φ ψ ι σ ε → Prop
  | own {c c'} : Own room body c c' → Step body broke c c'
  | receive {c c'} : Receives c c' → Step body broke c c'
  | write (c : Config β φ ψ ι σ ε) (t : Tagged β φ) : c.closed = false →
      Step body broke c { c with inFlight := c.inFlight ++ t }
  | close (c : Config β φ ψ ι σ ε) : Step body broke c { c with closed := true }
  | fail (c : Config β φ ψ ι σ ε) : c.program.Calls →
      Step body broke c { c with program := .ret (.inr broke), broken := true }

/-- Any number of steps. -/
abbrev Run (body : σ → Program β φ ψ ι (σ ⊕ ε)) (broke : ε) :
    Config β φ ψ ι σ ε → Config β φ ψ ι σ ε → Prop :=
  Relation.ReflTransGen (Step room body broke)

variable {room}

theorem Attended.step {body : σ → Program β φ ψ ι (σ ⊕ ε)} {broke : ε}
    {c c' : Config β φ ψ ι σ ε} (h : Attended room body c c') : Step room body broke c c' :=
  h.elim .own .receive

theorem Own.written_eq {body : σ → Program β φ ψ ι (σ ⊕ ε)} {c c' : Config β φ ψ ι σ ε}
    (h : Own room body c c') : c'.written = c.written := by
  rw [Own] at h
  generalize c.program = p at h
  cases h with
  | next s => simp [Config.written]
  | recvmsg cap next k h0 hk hl =>
    simp only [Config.written]
    rw [List.append_assoc c.taken, List.take_append_drop]
  | read cap next k h0 hk hl =>
    simp only [Config.written]
    rw [List.append_assoc c.taken, List.take_append_drop]
  | _ => rfl

theorem Own.flags_eq {body : σ → Program β φ ψ ι (σ ⊕ ε)} {c c' : Config β φ ψ ι σ ε}
    (h : Own room body c c') : c'.closed = c.closed ∧ c'.broken = c.broken := by
  rw [Own] at h
  generalize c.program = p at h
  cases h <;> exact ⟨rfl, rfl⟩

/-- The service changes nothing of what its peer writes, nor does a peer that reads. -/
theorem frame_of_attended {body : σ → Program β φ ψ ι (σ ⊕ ε)} {c c' : Config β φ ψ ι σ ε}
    (hrun : Relation.ReflTransGen (Attended room body) c c') :
    c'.written = c.written ∧ c'.closed = c.closed ∧ c'.broken = c.broken := by
  induction hrun with
  | refl => exact ⟨rfl, rfl, rfl⟩
  | tail _ hstep ih =>
    obtain ⟨hwritten, hclosed, hbroken⟩ := ih
    rw [← hwritten, ← hclosed, ← hbroken]
    rcases hstep with hown | hreads
    · exact ⟨hown.written_eq, hown.flags_eq⟩
    · cases hreads
      exact ⟨rfl, rfl, rfl⟩

/-! ## Rounds -/

section Rounds

-- `Round s t rest out r`: from `s`, a round that finds `t` leaves `rest`, writes
-- `out` and ends with `r`
variable (Round : σ → Tagged β φ → Tagged β φ → Tagged β ψ → σ ⊕ ε → Prop)

/-- Whole rounds, what they read and what they wrote. -/
inductive Rounds (s₀ : σ) : Tagged β φ → Tagged β ψ → σ → Prop
  | start : Rounds s₀ [] [] s₀
  | round {t out s u v s'} (rest : Tagged β φ) : Rounds s₀ t out s →
      Round s (u ++ rest) rest v (.inl s') → Rounds s₀ (t ++ u) (out ++ v) s'

/-- The rounds done are rounds, and the one going on can still become one,
whatever the peer goes on to write. -/
structure Inv (broke : ε) (bound : Nat) (s₀ : σ) (c : Config β φ ψ ι σ ε) : Prop where
  rounds : Rounds Round s₀ c.past c.answered c.state
  does : c.broken = false → ∀ t, (c.closed = true → t = []) →
    Does bound c.program (c.inFlight ++ t) fun rest out r =>
      Round c.state (c.taken ++ (c.inFlight ++ t)) rest (c.given ++ out) r
  possible : ∀ t, (c.closed = true → t = []) → ∃ rest out r, rest <:+ c.inFlight ++ t ∧
    Round c.state (c.taken ++ (c.inFlight ++ t)) rest (c.given ++ out) r
  broken : c.broken = true → c.program = .ret (.inr broke)

variable {Round} {broke : ε} {s₀ : σ} {body : σ → Program β φ ψ ι (σ ⊕ ε)}

/-- While no call has failed, what the program does is all there is to know. -/
theorem Inv.of_does [Nonempty ι] {c : Config β φ ψ ι σ ε} (hbroken : c.broken = false)
    (hrounds : Rounds Round s₀ c.past c.answered c.state)
    (hdoes : ∀ t, (c.closed = true → t = []) →
      Does bound c.program (c.inFlight ++ t) fun rest out r =>
        Round c.state (c.taken ++ (c.inFlight ++ t)) rest (c.given ++ out) r) :
    Inv Round broke bound s₀ c where
  rounds := hrounds
  does _ := hdoes
  possible t ht := (hdoes t ht).exists_end
  broken h := by rw [hbroken] at h; cases h

theorem Inv.not_broken {c : Config β φ ψ ι σ ε} (h : Inv Round broke bound s₀ c)
    (hp : c.program ≠ .ret (.inr broke)) : c.broken = false := by
  cases hb : c.broken with
  | false => rfl
  | true => exact absurd (h.broken hb) hp

theorem Inv.ne_panic {c : Config β φ ψ ι σ ε} (h : Inv Round broke bound s₀ c) :
    c.program ≠ .panic := by
  intro hp
  have := h.does (h.not_broken (by rw [hp]; simp)) [] (fun _ => rfl)
  rw [hp] at this
  exact this

theorem inv_start [Nonempty ι] (hbody : ∀ s t, Does bound (body s) t (Round s t)) :
    Inv Round broke bound s₀ (.start s₀ (body s₀)) :=
  .of_does rfl .start fun t _ => hbody s₀ t

/-- **A step of the service**: in a round, what was read moves from the stream to
what is taken; at its end the round joins those done. -/
theorem inv_own [Nonempty ι] (hbody : ∀ s t, Does bound (body s) t (Round s t))
    {c c' : Config β φ ψ ι σ ε} (h : Inv Round broke bound s₀ c) (hstep : Own room body c c') :
    Inv Round broke bound s₀ c' := by
  -- taking `k` bytes leaves the stream of the round as it was
  have htaken : ∀ (k : Nat) (t : Tagged β φ),
      (c.taken ++ c.inFlight.take k) ++ (c.inFlight.drop k ++ t) =
        c.taken ++ (c.inFlight ++ t) := by
    intro k t
    rw [List.append_assoc, ← List.append_assoc (c.inFlight.take k), List.take_append_drop]
  rw [Own] at hstep
  generalize hp : c.program = p at hstep
  have hexit : ∀ e, p = .ret (.inr e) → False := by
    rintro e rfl
    cases hstep
  have hb : c.broken = false := h.not_broken fun he => hexit _ (hp.symm.trans he)
  have hdoes := h.does hb
  rw [hp] at hdoes
  cases hstep with
  | next s =>
    refine .of_does hb ?_ fun t _ => hbody s _
    have hround := hdoes [] (fun _ => rfl)
    rw [List.append_nil] at hround
    have : Round c.state (c.taken ++ c.inFlight) c.inFlight (c.given ++ []) (.inl s) := hround
    rw [List.append_nil] at this
    exact .round _ h.rounds this
  | alloc n next => exact .of_does hb h.rounds fun t ht => (hdoes t ht).2
  | ask next i => exact .of_does hb h.rounds fun t ht => hdoes t ht i
  | recvmsg cap next k h0 hk hl =>
    refine .of_does hb h.rounds fun t ht => ?_
    have := (hdoes t ht).2.2 k h0 hk (hl.trans (by simp))
    simp only [htaken]
    rwa [List.take_append_of_le_length hl, List.drop_append_of_le_length hl] at this
  | recvmsgEof cap next hempty hclosed =>
    refine .of_does hb h.rounds fun t ht => ?_
    obtain rfl : t = [] := ht hclosed
    have := hdoes [] (fun _ => rfl)
    rw [hempty] at this
    rw [hempty]
    exact this.2.1 rfl
  | read cap next k h0 hk hl =>
    refine .of_does hb h.rounds fun t ht => ?_
    have := (hdoes t ht).2.2 k h0 hk (hl.trans (by simp))
    simp only [htaken]
    rwa [List.take_append_of_le_length hl, List.drop_append_of_le_length hl] at this
  | readEof cap next hempty hclosed =>
    refine .of_does hb h.rounds fun t ht => ?_
    obtain rfl : t = [] := ht hclosed
    have := hdoes [] (fun _ => rfl)
    rw [hempty] at this
    rw [hempty]
    exact this.2.1 rfl
  | put bytes item next k _ =>
    refine .of_does hb h.rounds fun t ht => ?_
    simpa only [List.append_assoc] using (hdoes t ht).2 k

theorem Inv.deliver {c : Config β φ ψ ι σ ε} (h : Inv Round broke bound s₀ c) (n : Nat) :
    Inv Round broke bound s₀ { c with delivered := n } :=
  ⟨h.rounds, h.does, h.possible, h.broken⟩

theorem inv_step [Nonempty ι] (hbody : ∀ s t, Does bound (body s) t (Round s t))
    {c c' : Config β φ ψ ι σ ε} (h : Inv Round broke bound s₀ c)
    (hstep : Step room body broke c c') : Inv Round broke bound s₀ c' := by
  cases hstep with
  | own hown => exact inv_own hbody h hown
  | receive hreads =>
    cases hreads
    exact h.deliver _
  | write u hopen =>
    have hany : ∀ t, c.closed = true → u ++ t = [] := by
      intro t hclosed
      rw [hopen] at hclosed
      cases hclosed
    refine ⟨h.rounds, fun hb t ht => ?_, fun t ht => ?_, h.broken⟩
    · have := h.does hb (u ++ t) (hany t)
      simpa only [List.append_assoc] using this
    · have := h.possible (u ++ t) (hany t)
      simpa only [List.append_assoc] using this
  | close =>
    refine ⟨h.rounds, fun hb t ht => ?_, fun t ht => ?_, h.broken⟩
    · obtain rfl : t = [] := ht rfl
      exact h.does hb [] (fun _ => rfl)
    · obtain rfl : t = [] := ht rfl
      exact h.possible [] (fun _ => rfl)
  | fail hcalls =>
    refine ⟨h.rounds, fun hb => ?_, h.possible, fun _ => rfl⟩
    cases hb

/-- **Every run is made of rounds**, whatever the peer writes and whichever calls
fail. -/
theorem inv_of_run [Nonempty ι] (hbody : ∀ s t, Does bound (body s) t (Round s t))
    {c c' : Config β φ ψ ι σ ε} (h : Inv Round broke bound s₀ c) (hrun : Run room body broke c c') :
    Inv Round broke bound s₀ c' := by
  induction hrun with
  | refl => exact h
  | tail _ hstep ih => exact inv_step hbody ih hstep

/-! ## Coming to rest -/

/-- **The service never stands still**, but at its exit or in front of a peer that
has to write or to read. -/
theorem Inv.progress [Nonempty ι] {c : Config β φ ψ ι σ ε} (h : Inv Round broke bound s₀ c)
    (room : Nat → Nat) (body : σ → Program β φ ψ ι (σ ⊕ ε)) :
    (∃ e, c.program = .ret (.inr e)) ∨ c.Waiting ∨ c.Blocked room ∨
      ∃ c', Own room body c c' := by
  have hread : c.inFlight = [] ∧ c.closed = false ∨ c.inFlight = [] ∧ c.closed = true ∨
      1 ≤ c.inFlight.length := by
    cases c.inFlight with
    | nil => cases c.closed <;> simp
    | cons x l => simp
  have hdoes : (∀ e, c.program ≠ .ret (.inr e)) → Does bound c.program (c.inFlight ++ []) _ :=
    fun hne => h.does (h.not_broken (hne broke)) [] (fun _ => rfl)
  simp only [Own, Config.Waiting, Config.Blocked]
  cases hp : c.program with
  | ret r =>
    cases r with
    | inl s => exact Or.inr (Or.inr (Or.inr ⟨_, .next s⟩))
    | inr e => exact Or.inl ⟨e, rfl⟩
  | panic => exact absurd hp h.ne_panic
  | alloc n next => exact Or.inr (Or.inr (Or.inr ⟨_, .alloc n next⟩))
  | ask next => exact Or.inr (Or.inr (Or.inr ⟨_, .ask next (Classical.arbitrary ι)⟩))
  | recvmsg cap next =>
    rw [hp] at hdoes
    have hcap := (hdoes nofun).1
    rcases hread with ⟨hempty, hopen⟩ | ⟨hempty, hclosed⟩ | hsome
    · exact Or.inr (Or.inl ⟨trivial, hempty, hopen⟩)
    · exact Or.inr (Or.inr (Or.inr ⟨_, .recvmsgEof cap next hempty hclosed⟩))
    · exact Or.inr (Or.inr (Or.inr ⟨_, .recvmsg cap next 1 Nat.one_pos hcap hsome⟩))
  | read cap next =>
    rw [hp] at hdoes
    have hcap := (hdoes nofun).1
    rcases hread with ⟨hempty, hopen⟩ | ⟨hempty, hclosed⟩ | hsome
    · exact Or.inr (Or.inl ⟨trivial, hempty, hopen⟩)
    · exact Or.inr (Or.inr (Or.inr ⟨_, .readEof cap next hempty hclosed⟩))
    · exact Or.inr (Or.inr (Or.inr ⟨_, .read cap next 1 Nat.one_pos hcap hsome⟩))
  | put bytes item next =>
    rw [hp] at hdoes
    have hpos := List.length_pos_iff.mpr (hdoes nofun).1
    rcases Nat.eq_zero_or_pos (room c.unread) with hfull | hroom
    · exact Or.inr (Or.inr (Or.inl ⟨trivial, hfull⟩))
    · exact Or.inr (Or.inr (Or.inr ⟨_, .put bytes item next ⟨1, Nat.one_pos, hpos⟩ hroom⟩))

/-- Between two calls of the service a peer can only read so much. -/
theorem acc_attended {c : Config β φ ψ ι σ ε}
    (h : ∀ n c', Own room body { c with delivered := n } c' →
      Acc (fun c' c => Attended room body c c') c') :
    Acc (fun c' c => Attended room body c c') c := by
  induction hn : c.unread using Nat.strong_induction_on generalizing c with
  | _ n ih =>
  refine ⟨_, fun c' hstep => ?_⟩
  rcases hstep with hown | hreads
  · exact h c.delivered c' hown
  · cases hreads with
    | intro k h0 hk =>
      refine ih _ ?_ (fun m c' hown => h m c' hown) rfl
      simp only [Config.unread, Config.output] at hn hk ⊢
      omega

theorem Inv.acc_of_moves [Nonempty ι] (hbody : ∀ s t, Does bound (body s) t (Round s t))
    {c : Config β φ ψ ι σ ε} (h : Inv Round broke bound s₀ c)
    (hacc : ∀ d c', Moves room body { c with delivered := d } c.program c' →
      Inv Round broke bound s₀ c' → Acc (fun c' c => Attended room body c c') c') :
    Acc (fun c' c => Attended room body c c') c :=
  Service.acc_attended fun d c' hmoves => hacc d c' hmoves (inv_own hbody (h.deliver d) hmoves)

/-- **By itself the service does finitely many things**, and so does a peer that only
reads: a round is a tree of calls, and every round that leads to another takes some of
the stream. -/
theorem Inv.acc_attended [Nonempty ι] (hbody : ∀ s t, Does bound (body s) t (Round s t))
    (hless : ∀ s t rest out s', Round s t rest out (.inl s') → rest.length < t.length) :
    ∀ {c : Config β φ ψ ι σ ε}, Inv Round broke bound s₀ c →
      Acc (fun c' c => Attended room body c c') c := by
  intro c h
  induction hn : (c.taken ++ c.inFlight).length using Nat.strong_induction_on
    generalizing c with
  | _ n ihn =>
  induction hp : c.program generalizing c with
  | ret r =>
    refine h.acc_of_moves hbody fun d c' hmoves h' => ?_
    rw [hp] at hmoves
    cases hmoves with
    | next s =>
      have hb := h.not_broken (by rw [hp]; simp)
      have hround := h.does hb [] (fun _ => rfl)
      rw [hp, List.append_nil] at hround
      exact ihn _ (hn ▸ hless _ _ _ _ _ hround) h' rfl
  | panic => exact absurd hp h.ne_panic
  | alloc m next ih =>
    refine h.acc_of_moves hbody fun d c' hmoves h' => ?_
    rw [hp] at hmoves
    cases hmoves with
    | alloc => exact ih h' hn rfl
  | ask next ih =>
    refine h.acc_of_moves hbody fun d c' hmoves h' => ?_
    rw [hp] at hmoves
    cases hmoves with
    | ask _ i => exact ih i h' hn rfl
  | recvmsg cap next ih =>
    refine h.acc_of_moves hbody fun d c' hmoves h' => ?_
    rw [hp] at hmoves
    cases hmoves with
    | recvmsg _ _ k h0 hk hl =>
      refine ih _ _ h' ?_ rfl
      rw [← hn, List.append_assoc, List.take_append_drop]
    | recvmsgEof _ _ hempty hclosed => exact ih _ _ h' hn rfl
  | read cap next ih =>
    refine h.acc_of_moves hbody fun d c' hmoves h' => ?_
    rw [hp] at hmoves
    cases hmoves with
    | read _ _ k h0 hk hl =>
      refine ih _ h' ?_ rfl
      rw [← hn, List.append_assoc, List.take_append_drop]
    | readEof _ _ hempty hclosed => exact ih _ h' hn rfl
  | put bytes item next ih =>
    refine h.acc_of_moves hbody fun d c' hmoves h' => ?_
    rw [hp] at hmoves
    cases hmoves with
    | put _ _ _ k _ => exact ih k h' hn rfl

/-- **In front of a peer that only reads, the service comes to rest.** -/
theorem Inv.settles [Nonempty ι] (hbody : ∀ s t, Does bound (body s) t (Round s t))
    (hless : ∀ s t rest out s', Round s t rest out (.inl s') → rest.length < t.length)
    {c : Config β φ ψ ι σ ε} (h : Inv Round broke bound s₀ c) :
    ∃ c', Relation.ReflTransGen (Attended room body) c c' ∧
      ∀ c'', ¬ Attended room body c' c'' := by
  have hacc : Acc (fun c' c => Attended room body c c') c := h.acc_attended hbody hless
  induction hacc with
  | intro c _ ih =>
    by_cases hstep : ∃ c₁, Attended room body c c₁
    · obtain ⟨c₁, hstep⟩ := hstep
      obtain ⟨c', hrun, hstop⟩ := ih c₁ hstep (inv_step hbody h hstep.step)
      exact ⟨c', .head hstep hrun, hstop⟩
    · exact ⟨c, .refl, fun c₁ h₁ => hstep ⟨c₁, h₁⟩⟩

end Rounds

end Service
