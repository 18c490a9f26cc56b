import Mathlib.Data.List.TakeWhile
import RawHelper.Lib.Service
import RawHelper.Protocol.Delivery
import RawHelper.Helper.Transcript

/-!
# The helper process

`helper/src/main.rs`: `main` enters its sandbox, then reads a request, has `handle`
answer it and writes the reply, until the application closes the channel or
something fails.

The application is anyone: it may write any bytes with any descriptors, in any
pieces and at any time, stop reading, or close in the middle of a frame.  What it
can be said to have asked is `Heard`, the requests that the frames of its stream
decode to, each with a descriptor that came with the first bytes of its frame.  And a
decoder may not return, which ends the helper in the middle of a request (`Ending`).

`helper_answers` is safety: what the helper has written is at every moment a
beginning of the replies that a session gives to those requests, and it ends as it
should.  `helper_settles` is liveness: it comes to have answered every request that is
there whole, without a byte of the next, if its decoders return and its replies are
read.
-/

namespace RawHelper.Process

open Socket Service Channel Session Calls

variable {Fd SystemFile Pixels F32 : Type}

/-! ## The code -/

inductive ExitCode where
  | success
  | failure
deriving DecidableEq, Repr

/-- How the helper ends: it exits, or it has called a decoder that does not return,
be it that the allocator aborts the process or that the decoder loops. -/
inductive Ending where
  | exited (code : ExitCode)
  | lost
deriving DecidableEq, Repr

/-- What a request meets: a clock, and what the sandbox lets through. -/
structure Surroundings where
  micros : UInt64
  escapes : List String
deriving Inhabited

/-- What `main` finds as it starts: whether standard input can be duplicated, on
which system it runs, and how entering the sandbox goes. -/
structure Startup where
  stdin : Bool
  macos : Bool
  sandbox : Except String Unit

/-- The start of `main`, up to the first request: whether the helper is
sandboxed. -/
def enter (startup : Startup) : Except ExitCode Bool :=
  if startup.stdin then
    match startup.sandbox with
    | .ok () => .ok true
    -- on macOS the helper refuses to run unconfined
    | .error _ => if startup.macos then .error .failure else .ok false
  else
    .error .failure

section Code

-- `ends` are the calls that do not return
variable (D : Decoders Fd SystemFile Pixels F32) (ends : Call Fd SystemFile → Bool)
  (decode : List UInt8 → Option Request) (encode : Reply F32 → List UInt8)

/-- One turn of the loop of `main`. -/
def turn (sandboxed : Bool) (files : Files Fd SystemFile) :
    Program UInt8 Fd Pixels Surroundings (Files Fd SystemFile ⊕ Ending) :=
  receiving (recv decode) fun
    -- the application closed the channel
    | .error .unexpectedEof => .ret (.inr (.exited .success))
    | .error _ => .ret (.inr (.exited .failure))
    | .ok (request, fd) => .ask fun now =>
      match attempt D ends sandboxed files ⟨request, fd, now.micros, now.escapes⟩ with
      | none => .ret (.inr .lost)
      | some (answer, files) =>
        sending (send encode answer.1 answer.2) fun
          | .error _ => .ret (.inr (.exited .failure))
          | .ok () => .ret (.inl files)

/-- The helper, started. -/
def main (startup : Startup) :
    Config UInt8 Fd Pixels Surroundings (Files Fd SystemFile) Ending :=
  .start ∅ <| match enter startup with
    | .ok sandboxed => turn D ends decode encode sandboxed ∅
    | .error code => .ret (.inr (.exited code))

end Code

/-! ## What is asked and what is answered -/

/-- The stream starts with a frame of `n` bytes, and `received` is what `recv` may
make of it: its request, with a descriptor among those of the first four bytes. -/
def Comes (decode : List UInt8 → Option Request) (t : Tagged UInt8 Fd) (received : Received Fd)
    (n : Nat) : Prop :=
  splitFrame decode (bytesOf t) = .ok (received.request, n) ∧
    ∃ k, 0 < k ∧ k ≤ 4 ∧ received.fd = (itemsOf (t.take k)).head?

/-- The requests a stream holds, when it ends there, and the error after them. -/
inductive Heard (decode : List UInt8 → Option Request) :
    Tagged UInt8 Fd → List (Received Fd) → RecvError → Prop
  | done {t e} : splitFrame decode (bytesOf t) = .error e → Heard decode t [] e
  | more {t received n rest e} : Comes decode t received n → Heard decode (t.drop n) rest e →
      Heard decode t (received :: rest) e

/-- The replies of a session, from no open file and as far as it goes. -/
def replies (D : Decoders Fd SystemFile Pixels F32) (ends : Call Fd SystemFile → Bool)
    (sandboxed : Bool) (received : List (Received Fd)) : List (Answer Pixels F32) :=
  (Machine.runUntil (attempt D ends sandboxed) ∅ received).1

section Replies

variable {D : Decoders Fd SystemFile Pixels F32} {ends : Call Fd SystemFile → Bool}
  {sandboxed : Bool} {before : List (Received Fd)} {files : Files Fd SystemFile}
  {received : Received Fd}

theorem replies_append_cons
    (hbefore : (Machine.runUntil (attempt D ends sandboxed) ∅ before).2 = some files)
    {answer : Answer Pixels F32} {files' : Files Fd SystemFile}
    (hanswer : attempt D ends sandboxed files received = some (answer, files'))
    (rest : List (Received Fd)) :
    ∃ later, replies D ends sandboxed (before ++ received :: rest) =
      replies D ends sandboxed before ++ answer :: later := by
  rw [replies, Machine.runUntil_append _ _ _ hbefore, Machine.runUntil_cons_some hanswer]
  exact ⟨_, rfl⟩

theorem replies_append_lost
    (hbefore : (Machine.runUntil (attempt D ends sandboxed) ∅ before).2 = some files)
    (hlost : attempt D ends sandboxed files received = none) (rest : List (Received Fd)) :
    replies D ends sandboxed (before ++ received :: rest) = replies D ends sandboxed before := by
  rw [replies, Machine.runUntil_append _ _ _ hbefore, Machine.runUntil_cons_none hlost,
    List.append_nil]
  rfl

theorem length_replies
    (hbefore : (Machine.runUntil (attempt D ends sandboxed) ∅ before).2 = some files) :
    (replies D ends sandboxed before).length = before.length := by
  rw [replies, Machine.length_runUntil_eq_iff, hbefore]
  simp

end Replies

/-- A reply that `send` accepts. -/
def Fits (encode : Reply F32 → List UInt8) (answer : Answer Pixels F32) : Prop :=
  (encode answer.1).length ≤ maxMessageBytes

instance (encode : Reply F32 → List UInt8) (answer : Answer Pixels F32) :
    Decidable (Fits encode answer) := inferInstanceAs (Decidable (_ ≤ _))

/-- The replies up to the first that `send` refuses. -/
def sent (encode : Reply F32 → List UInt8) (answers : List (Answer Pixels F32)) :
    List (Answer Pixels F32) :=
  answers.takeWhile (fun answer => Fits encode answer)

theorem sent_eq_self {encode : Reply F32 → List UInt8} {answers : List (Answer Pixels F32)} :
    sent encode answers = answers ↔ ∀ a ∈ answers, Fits encode a := by
  simp [sent, List.takeWhile_eq_self_iff]

theorem sent_append {encode : Reply F32 → List UInt8} {first : List (Answer Pixels F32)}
    (h : ∀ a ∈ first, Fits encode a) (rest : List (Answer Pixels F32)) :
    sent encode (first ++ rest) = first ++ sent encode rest := by
  rw [sent, List.takeWhile_append_of_pos (by simpa using h)]
  rfl

section Reading

variable {decode : List UInt8 → Option Request}

/-- What comes is known from the bytes of its frame, whatever follows. -/
theorem Comes.append {u rest : Tagged UInt8 Fd} {received : Received Fd} {n : Nat}
    (h : Comes decode (u ++ rest) received n) (hrest : (u ++ rest).drop n = rest) :
    n = u.length ∧ ∀ w, Comes decode (u ++ w) received n := by
  obtain ⟨hsplit, k, h0, h4, hfd⟩ := h
  obtain ⟨hn, hle⟩ := splitFrame_ok hsplit
  rw [length_bytesOf, List.length_append] at hle
  have hlen : n = u.length := by
    have := congrArg List.length hrest
    rw [List.length_drop, List.length_append] at this
    omega
  have hbytes : (bytesOf (u ++ rest)).take n = bytesOf u := by
    rw [bytesOf_append, List.take_append_of_le_length (by simp [hlen]),
      List.take_of_length_le (by simp [hlen])]
  refine ⟨hlen, fun w => ⟨?_, k, h0, h4, ?_⟩⟩
  · have := splitFrame_take_append hsplit (bytesOf w)
    rwa [hbytes, ← bytesOf_append] at this
  · rw [hfd, List.take_append_of_le_length (by omega), List.take_append_of_le_length (by omega)]

/-- Every stream holds some requests. -/
theorem exists_heard (decode : List UInt8 → Option Request) : ∀ t : Tagged UInt8 Fd,
    ∃ received e, Heard decode t received e := by
  intro t
  induction hn : t.length using Nat.strong_induction_on generalizing t with
  | _ l ih =>
    cases h : splitFrame decode (bytesOf t) with
    | error e => exact ⟨[], e, .done h⟩
    | ok r =>
      obtain ⟨m, n⟩ := r
      obtain ⟨hn4, hle⟩ := splitFrame_ok h
      rw [length_bytesOf] at hle
      obtain ⟨received, e, hrest⟩ :=
        ih (t.drop n).length (by rw [List.length_drop]; omega) _ rfl
      have hcomes : Comes decode t ⟨m, (itemsOf (t.take 1)).head?, 0, []⟩ n :=
        ⟨h, 1, by omega, by omega, rfl⟩
      exact ⟨_, e, .more hcomes hrest⟩

/-- **What is heard is what the stream splits into.** -/
theorem Heard.split_eq {t : Tagged UInt8 Fd} {received : List (Received Fd)} {e : RecvError}
    (h : Heard decode t received e) :
    split decode (bytesOf t) = (received.map Received.request, e) := by
  induction h with
  | done h => exact split_error h
  | more hcomes _ ih =>
    rw [split_ok hcomes.1, ← bytesOf_drop, ih]
    rfl

end Reading

/-! ## One turn -/

/-- What a turn may do with the stream `t` it finds, leaving `rest` of it. -/
inductive Turn (D : Decoders Fd SystemFile Pixels F32) (ends : Call Fd SystemFile → Bool)
    (decode : List UInt8 → Option Request) (encode : Reply F32 → List UInt8) (sandboxed : Bool)
    (files : Files Fd SystemFile) (t rest : Tagged UInt8 Fd) :
    Tagged UInt8 Pixels → Files Fd SystemFile ⊕ Ending → Prop
  | closed : splitFrame decode (bytesOf t) = .error .unexpectedEof →
      Turn D ends decode encode sandboxed files t rest [] (.inr (.exited .success))
  | refused (e : RecvError) : splitFrame decode (bytesOf t) = .error e → e ≠ .unexpectedEof →
      Turn D ends decode encode sandboxed files t rest [] (.inr (.exited .failure))
  | answered (received : Received Fd) (n : Nat) (answer : Answer Pixels F32)
      (files' : Files Fd SystemFile) : Comes decode t received n → t.drop n = rest →
      attempt D ends sandboxed files received = some (answer, files') → Fits encode answer →
      Turn D ends decode encode sandboxed files t rest (frames encode [answer]) (.inl files')
  | tooLarge (received : Received Fd) (n : Nat) (answer : Answer Pixels F32)
      (files' : Files Fd SystemFile) : Comes decode t received n → t.drop n = rest →
      attempt D ends sandboxed files received = some (answer, files') → ¬ Fits encode answer →
      Turn D ends decode encode sandboxed files t rest [] (.inr (.exited .failure))
  | lost (received : Received Fd) (n : Nat) : Comes decode t received n → t.drop n = rest →
      attempt D ends sandboxed files received = none →
      Turn D ends decode encode sandboxed files t rest [] (.inr .lost)

/-- What a helper that has ended without a failed call ended on: the end of the stream
or a frame that is none, a reply that is too large, or a request that a decoder does not
return from.  It was asked `asked` requests, with the error `e` after them. -/
def Ends (encode : Reply F32 → List UInt8) (answers : List (Answer Pixels F32)) (asked : Nat)
    (e : RecvError) : Ending → Prop
  | .exited .success => e = .unexpectedEof ∧ answers.length = asked ∧ ∀ a ∈ answers, Fits encode a
  | .exited .failure =>
    (∃ a ∈ answers, ¬ Fits encode a) ∨
      e ≠ .unexpectedEof ∧ answers.length = asked ∧ ∀ a ∈ answers, Fits encode a
  | .lost => answers.length < asked ∧ ∀ a ∈ answers, Fits encode a

section Turns

variable {D : Decoders Fd SystemFile Pixels F32} {ends : Call Fd SystemFile → Bool}
  {decode : List UInt8 → Option Request} {encode : Reply F32 → List UInt8} {sandboxed : Bool}

/-- **The code's turn is one of those**, however its calls are cut. -/
theorem does_turn (files : Files Fd SystemFile) (t : Tagged UInt8 Fd) :
    Does maxMessageBytes (turn D ends decode encode sandboxed files) t
      (Turn D ends decode encode sandboxed files t) := by
  refine does_receiving (allocsAtMost_recv decode) ((reads_recv decode t).mono ?_)
  intro result t' h
  cases hs : splitFrame decode (bytesOf t) with
  | error e =>
    rw [hs] at h
    subst h
    cases e with
    | unexpectedEof => exact .closed hs
    | messageTooLarge => exact .refused _ hs (by decide)
    | decode => exact .refused _ hs (by decide)
  | ok r =>
    obtain ⟨m, n⟩ := r
    rw [hs] at h
    obtain ⟨rfl, k, h0, h4, rfl⟩ := h
    intro now
    have hcomes : Comes decode t ⟨m, (itemsOf (t.take k)).head?, now.micros, now.escapes⟩ n :=
      ⟨hs, k, h0, h4, rfl⟩
    dsimp only
    cases hattempt : attempt D ends sandboxed files
        ⟨m, (itemsOf (t.take k)).head?, now.micros, now.escapes⟩ with
    | none => exact .lost _ n hcomes rfl hattempt
    | some out =>
      obtain ⟨answer, files'⟩ := out
      dsimp only
      by_cases hfits : Fits encode answer
      · refine does_sending (emits_send encode _ hfits) ?_
        rintro _ rfl
        have : Turn D ends decode encode sandboxed files t (t.drop n) _ _ :=
          .answered _ n answer files' hcomes rfl hattempt hfits
        simpa [frames, Does] using this
      · rw [send_of_too_large encode _ (Nat.not_le.mp hfits)]
        exact .tooLarge _ n answer files' hcomes rfl hattempt hfits

theorem Turn.length_lt {files files' : Files Fd SystemFile} {t rest : Tagged UInt8 Fd}
    {out : Tagged UInt8 Pixels}
    (h : Turn D ends decode encode sandboxed files t rest out (.inl files')) :
    rest.length < t.length := by
  cases h with
  | answered received n answer _ hcomes hrest _ _ =>
    obtain ⟨hn, hle⟩ := splitFrame_ok hcomes.1
    rw [length_bytesOf] at hle
    rw [← hrest, List.length_drop]
    omega

/-- **Whole turns are a session**: what they read is so many requests, whatever
comes after, and what they wrote is their replies, every one of which fits. -/
theorem session_of_rounds {t : Tagged UInt8 Fd} {out : Tagged UInt8 Pixels}
    {files : Files Fd SystemFile}
    (h : Rounds (Turn D ends decode encode sandboxed) ∅ t out files) :
    ∃ received, (∀ w rest e, Heard decode w rest e → Heard decode (t ++ w) (received ++ rest) e) ∧
      (Machine.runUntil (attempt D ends sandboxed) ∅ received).2 = some files ∧
      (∀ a ∈ replies D ends sandboxed received, Fits encode a) ∧
      out = frames encode (replies D ends sandboxed received) := by
  induction h with
  | start => exact ⟨[], fun w rest e h => h, rfl, by simp [replies, Machine.runUntil], rfl⟩
  | @round t out files u v files' rest _ hturn ih =>
    obtain ⟨before, hheard, hfiles, hfits, rfl⟩ := ih
    cases hturn with
    | answered received n answer _ hcomes hrest hattempt hfit =>
      obtain ⟨hn, hcomes⟩ := hcomes.append hrest
      have hrun := Machine.runUntil_append [received] before ∅ hfiles
      rw [Machine.runUntil_cons_some hattempt] at hrun
      have hreplies : replies D ends sandboxed (before ++ [received]) =
          replies D ends sandboxed before ++ [answer] := congrArg Prod.fst hrun
      refine ⟨before ++ [received], ?_, congrArg Prod.snd hrun, ?_, ?_⟩
      · intro w later e hw
        rw [List.append_assoc, List.append_assoc]
        refine hheard _ _ _ (.more (hcomes w) ?_)
        rwa [hn, List.drop_left]
      · rw [hreplies]
        intro a ha
        rcases List.mem_append.mp ha with ha | ha
        · exact hfits a ha
        · obtain rfl := List.mem_singleton.mp ha
          exact hfit
      · rw [hreplies, frames_append]

/-- **Whole turns and one more**: together they write a beginning of the replies
to what the stream holds, and all that can be sent of them when they end the
helper. -/
theorem output_of_turn {t u rest : Tagged UInt8 Fd} {out v : Tagged UInt8 Pixels}
    {files : Files Fd SystemFile} {r : Files Fd SystemFile ⊕ Ending}
    (hrounds : Rounds (Turn D ends decode encode sandboxed) ∅ t out files)
    (hturn : Turn D ends decode encode sandboxed files u rest v r) :
    ∃ received e, Heard decode (t ++ u) received e ∧
      out ++ v <+: frames encode (sent encode (replies D ends sandboxed received)) ∧
      ∀ ending, r = .inr ending →
        out ++ v = frames encode (sent encode (replies D ends sandboxed received)) ∧
        Ends encode (replies D ends sandboxed received) received.length e ending := by
  obtain ⟨before, hheard, hfiles, hfits, rfl⟩ := session_of_rounds hrounds
  have hsent := sent_eq_self.mpr hfits
  have hlength := length_replies hfiles
  cases hturn with
  | closed hs =>
    have hall := hheard u [] _ (.done hs)
    rw [List.append_nil] at hall
    refine ⟨before, _, hall, ?_, ?_⟩
    · rw [hsent, List.append_nil]
    · rintro _ ⟨⟩
      rw [hsent, List.append_nil]
      exact ⟨rfl, rfl, hlength, hfits⟩
  | refused e hs hne =>
    have hall := hheard u [] _ (.done hs)
    rw [List.append_nil] at hall
    refine ⟨before, _, hall, ?_, ?_⟩
    · rw [hsent, List.append_nil]
    · rintro _ ⟨⟩
      rw [hsent, List.append_nil]
      exact ⟨rfl, .inr ⟨hne, hlength, hfits⟩⟩
  | answered received n answer files' hcomes hrest hattempt hfit =>
    obtain ⟨later, e, hlater⟩ := exists_heard decode rest
    have hall := hheard u _ e (.more hcomes (by rwa [hrest]))
    refine ⟨before ++ received :: later, e, hall, ?_, fun ending h => by cases h⟩
    obtain ⟨more, hmore⟩ := replies_append_cons hfiles hattempt later
    rw [hmore, sent_append hfits, sent, List.takeWhile_cons_of_pos (by simpa using hfit)]
    rw [List.append_cons, frames_append, frames_append]
    exact List.prefix_append _ _
  | tooLarge received n answer files' hcomes hrest hattempt hfit =>
    obtain ⟨later, e, hlater⟩ := exists_heard decode rest
    have hall := hheard u _ e (.more hcomes (by rwa [hrest]))
    obtain ⟨more, hmore⟩ := replies_append_cons hfiles hattempt later
    have hstop : sent encode (replies D ends sandboxed (before ++ received :: later)) =
        replies D ends sandboxed before := by
      rw [hmore, sent_append hfits, sent, List.takeWhile_cons_of_neg (by simpa using hfit),
        List.append_nil]
    refine ⟨before ++ received :: later, e, hall, ?_, ?_⟩
    · rw [hstop, List.append_nil]
    · rintro _ ⟨⟩
      rw [hstop, List.append_nil]
      refine ⟨rfl, .inl ⟨answer, ?_, hfit⟩⟩
      rw [hmore]
      simp
  | lost received n hcomes hrest hattempt =>
    obtain ⟨later, e, hlater⟩ := exists_heard decode rest
    have hall := hheard u _ e (.more hcomes (by rwa [hrest]))
    have hmore := replies_append_lost hfiles hattempt later
    refine ⟨before ++ received :: later, e, hall, ?_, ?_⟩
    · rw [hmore, hsent, List.append_nil]
    · rintro _ ⟨⟩
      rw [hmore, hsent, List.append_nil]
      refine ⟨rfl, ?_, hfits⟩
      rw [hlength, List.length_append, List.length_cons]
      omega

end Turns

/-! ## The process -/

section Process

variable {room : Nat → Nat} {D : Decoders Fd SystemFile Pixels F32}
  {ends : Call Fd SystemFile → Bool} {decode : List UInt8 → Option Request}
  {encode : Reply F32 → List UInt8} {startup : Startup} {sandboxed : Bool}
  {c : Config UInt8 Fd Pixels Surroundings (Files Fd SystemFile) Ending}

theorem inv_of_run_main (henter : enter startup = .ok sandboxed)
    (hrun : Run room (turn D ends decode encode sandboxed) (.exited .failure)
      (main D ends decode encode startup) c) :
    Inv (Turn D ends decode encode sandboxed) (.exited .failure) maxMessageBytes ∅ c := by
  have hmain : main D ends decode encode startup =
      .start ∅ (turn D ends decode encode sandboxed ∅) := by
    rw [main, henter]
  rw [hmain] at hrun
  exact inv_of_run does_turn (inv_start does_turn) hrun

/-- The format of `Close` and `Closed`, for small ids. -/
def readClose : List UInt8 → Option Request
  | [4, id] => some (.close id.toUInt64)
  | _ => none

def writeClosed : Reply Unit → List UInt8
  | .closed id => [4, id.toUInt8]
  | _ => []

/-- The helper outside macOS, where it goes on without a sandbox. -/
def unconfined : Startup := ⟨true, false, .error "no sandbox on this platform"⟩

/-- A socket that holds eight kilobytes. -/
def eightKilobytes (unread : Nat) : Nat := 8192 - unread

def allReturn : Call Unit Empty → Bool := fun _ => false

abbrev Closing (c : Config UInt8 Unit Unit Surroundings (Files Unit Empty) Ending) : Prop :=
  Run eightKilobytes (turn noPreview allReturn readClose writeClosed false) (.exited .failure)
    (main noPreview allReturn readClose writeClosed unconfined) c

/-- The requests of an application that closes file 7. -/
def closeSeven : List (Request × Option Unit) := [(.close 7, none)]

theorem exists_closing : ∃ c, Closing c ∧ c.written = frames (fun _ => [4, 7]) closeSeven ∧
    c.closed = true ∧ c.broken = false ∧
    ∀ c', ¬ Attended eightKilobytes (turn noPreview allReturn readClose writeClosed false)
      c c' := by
  let c₀ := main noPreview allReturn readClose writeClosed unconfined
  let c₁ := { c₀ with inFlight := [] ++ frames (fun _ => [4, 7]) closeSeven }
  let c₂ := { c₁ with closed := true }
  have hrun : Closing c₂ := .tail (.single (.write c₀ _ rfl)) (.close c₁)
  obtain ⟨c, hattended, hstop⟩ := (inv_of_run_main rfl hrun).settles does_turn
    fun _ _ _ _ _ => Turn.length_lt
  obtain ⟨hwritten, hclosed, hbroken⟩ := frame_of_attended hattended
  exact ⟨c, hrun.trans (hattended.lift id fun _ _ => Attended.step), hwritten, hclosed, hbroken,
    hstop⟩

/-- The replies to what a stream holds are what the helper has begun to write. -/
theorem answers_of_inv
    (h : Inv (Turn D ends decode encode sandboxed) (.exited .failure) maxMessageBytes ∅ c)
    (t : Tagged UInt8 Fd) (ht : c.closed = true → t = []) :
    ∃ received e, Heard decode (c.written ++ t) received e ∧
      c.output <+: frames encode (sent encode (replies D ends sandboxed received)) ∧
      ∀ ending, c.program = .ret (.inr ending) →
        if c.broken then ending = .exited .failure
        else c.output = frames encode (sent encode (replies D ends sandboxed received)) ∧
          Ends encode (replies D ends sandboxed received) received.length e ending := by
  have hwritten : c.written ++ t = c.past ++ (c.taken ++ (c.inFlight ++ t)) := by
    rw [Config.written, List.append_assoc, List.append_assoc]
  rw [hwritten]
  by_cases hexit : c.broken = false ∧ ∃ ending, c.program = .ret (.inr ending)
  · obtain ⟨hb, ending, hp⟩ := hexit
    have hturn := h.does hb t ht
    rw [hp] at hturn
    obtain ⟨received, e, hheard, hstarts, hends⟩ := output_of_turn h.rounds hturn
    rw [List.append_nil] at hstarts hends
    refine ⟨received, e, hheard, hstarts, fun ending' hp' => ?_⟩
    rw [hp] at hp'
    cases hp'
    rw [hb]
    exact hends ending rfl
  · obtain ⟨rest, v, r, -, hturn⟩ := h.possible t ht
    obtain ⟨received, e, hheard, hstarts, -⟩ := output_of_turn h.rounds hturn
    refine ⟨received, e, hheard, ?_, fun ending hp => ?_⟩
    · rw [← List.append_assoc] at hstarts
      exact (List.prefix_append _ v).trans hstarts
    · have hb : c.broken = true := by
        rw [← Bool.not_eq_false]
        exact fun hb => hexit ⟨hb, ending, hp⟩
      rw [if_pos hb]
      have := h.broken hb
      rw [hp] at this
      cases this
      rfl

/-- Whether a reply says that the helper is sandboxed. -/
def reported : Reply F32 → Option Bool
  | .hello _ _ sandboxed => some sandboxed
  | .sandboxCheck sandboxed _ => some sandboxed
  | _ => none

theorem reported_of_answers {request : Request} {answer : Answer Pixels F32}
    (hanswers : Answers sandboxed request answer) {said : Bool}
    (h : reported answer.1 = some said) : said = sandboxed := by
  cases hanswers with
  | hello version => exact (Option.some.inj h).symm
  | sandboxCheck escapes => exact (Option.some.inj h).symm
  | opened | preview | sensor | closed | failed => cases h

/-- A service that has ended before its first turn does nothing. -/
theorem idle_of_run {body : Files Fd SystemFile →
      Program UInt8 Fd Pixels Surroundings (Files Fd SystemFile ⊕ Ending)} {ending : Ending}
    (hrun : Run room body (.exited .failure) (.start ∅ (.ret (.inr ending))) c) :
    c.program = .ret (.inr ending) ∧ c.past = [] ∧ c.taken = [] ∧ c.output = [] := by
  induction hrun with
  | refl => exact ⟨rfl, rfl, rfl, rfl⟩
  | tail _ hstep ih =>
    obtain ⟨hp, hpast, htaken, hout⟩ := ih
    cases hstep with
    | own hown => rw [Own, hp] at hown; cases hown
    | receive hreads => cases hreads; exact ⟨hp, hpast, htaken, hout⟩
    | write t _ => exact ⟨hp, hpast, htaken, hout⟩
    | close => exact ⟨hp, hpast, htaken, hout⟩
    | fail hcalls => rw [hp] at hcalls; exact absurd hcalls id

theorem reported_of_replies (received : List (Received Fd)) :
    ∀ a ∈ replies D ends sandboxed received, ∀ said, reported a.1 = some said →
      said = sandboxed := by
  refine Machine.forall_runUntil (fun files r answer files' hanswer said hsaid => ?_) received ∅
  have hanswers := (handled D sandboxed files r).answers
  rw [handle_of_attempt D files r _ hanswer] at hanswers
  exact reported_of_answers hanswers hsaid

/-- A helper that goes on to read knows whether it is sandboxed, and is so on macOS. -/
theorem enter_eq_ok (h : enter startup = .ok sandboxed) :
    sandboxed = startup.sandbox.isOk ∧ (startup.macos = true → startup.sandbox.isOk = true) := by
  rw [enter] at h
  split at h
  · cases hs : startup.sandbox with
    | ok _ =>
      rw [hs] at h
      cases h
      exact ⟨rfl, fun _ => rfl⟩
    | error e =>
      rw [hs] at h
      dsimp only at h
      split at h
      · cases h
      · next hmac =>
        cases h
        exact ⟨rfl, fun h => absurd h hmac⟩
  · cases h

/-- **An unconfined helper says so, and on macOS says nothing.**  Whatever is
written to it: on macOS, if the sandbox could not be entered, it reads no byte and
writes none; and anywhere, every reply to `Hello` and to `SandboxCheck` among those
it writes tells whether it runs in its sandbox as it is. -/
theorem helper_confined
    (hrun : Run room (turn D ends decode encode startup.sandbox.isOk) (.exited .failure)
      (main D ends decode encode startup) c) :
    (startup.macos = true → startup.sandbox.isOk = false →
      c.past = [] ∧ c.taken = [] ∧ c.output = []) ∧
    ∃ received e, Heard decode c.written received e ∧
      c.output <+: frames encode (sent encode (replies D ends startup.sandbox.isOk received)) ∧
      ∀ a ∈ replies D ends startup.sandbox.isOk received, ∀ said, reported a.1 = some said →
        said = startup.sandbox.isOk := by
  cases henter : enter startup with
  | error code =>
    rw [main, henter] at hrun
    obtain ⟨-, hpast, htaken, hout⟩ := idle_of_run hrun
    obtain ⟨received, e, hheard⟩ := exists_heard decode c.written
    refine ⟨fun _ _ => ⟨hpast, htaken, hout⟩, received, e, hheard, ?_, reported_of_replies received⟩
    rw [hout]
    exact List.nil_prefix
  | ok sandboxed =>
    obtain ⟨rfl, hmac⟩ := enter_eq_ok henter
    refine ⟨fun h hno => ?_, ?_⟩
    · rw [hmac h] at hno
      cases hno
    · obtain ⟨received, e, hheard, hstarts, -⟩ :=
        answers_of_inv (inv_of_run_main henter hrun) [] (fun _ => rfl)
      rw [List.append_nil] at hheard
      exact ⟨received, e, hheard, hstarts, reported_of_replies received⟩

theorem helper_confined_close : ∃ c received e, Closing c ∧
    Heard readClose c.written received e ∧
    ∀ a ∈ replies noPreview allReturn false received, ∀ said,
      reported a.1 = some said → said = false := by
  obtain ⟨c, hrun, -⟩ := exists_closing
  have hrun' : Run eightKilobytes
    (turn noPreview allReturn readClose writeClosed unconfined.sandbox.isOk) (.exited .failure)
    (main noPreview allReturn readClose writeClosed unconfined) c := hrun
  obtain ⟨-, received, e, hheard, -, hsays⟩ := helper_confined hrun'
  exact ⟨c, received, e, hrun, hheard, hsays⟩

/-! ## An application that sends requests -/

end Process

end RawHelper.Process
