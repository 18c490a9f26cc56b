import RawHelper.Lib.Socket
import RawHelper.Protocol.Messages

/-!
# Framed messages over a stream socket

`protocol/src/channel.rs`: `send` writes a frame, a little-endian length and a
payload, with the descriptor on its first byte; `recv` reads one frame and the
descriptor that came with it.  How messages are encoded is a parameter: `encode`
and `decode` stand for postcard.

`splitFrame` and `split` are the reference: what one frame, and a whole stream,
holds as bytes.  `reads_recv` says that one `recv` does what `splitFrame` says,
however `recvmsg` and `read` cut the stream, and takes its descriptor from the
first four bytes.  `emits_send` says what `send` puts on the stream.

From the two, with the rules for programs at the ends of a socket:
`recv_eq_split` for a peer that writes anything at all, and `channel_delivers`
for one that uses `send`.
-/

namespace RawHelper.Channel

open ByteField Socket

variable {Msg Fd : Type}

inductive SendError where
  | messageTooLarge
deriving DecidableEq, Repr

inductive RecvError where
  | unexpectedEof
  | messageTooLarge
  | decode
deriving DecidableEq, Repr

/-! ## The code -/

/-- A payload behind its length. -/
def frame (payload : List UInt8) : List UInt8 :=
  u32le.encode (UInt32.ofNat payload.length) ++ payload

/-- Sends one message, with an optional descriptor. -/
def send (encode : Msg → List UInt8) (message : Msg) (fd : Option Fd) :
    Sender UInt8 Fd (Except SendError Unit) :=
  let payload := encode message
  if maxMessageBytes < payload.length then
    .ret (.error .messageTooLarge)
  else
    -- the descriptor goes with the first byte; the rest of the frame is plain data
    .put (frame payload) fd fun sent =>
      writeAll ((frame payload).drop sent) (.ret (.ok ()))

/-- What `recv` does once it has the header: the payload, and its decoding. -/
def recvPayload (decode : List UInt8 → Option Msg) (fd : Option Fd) (length : Nat) :
    Receiver UInt8 Fd (Except RecvError (Msg × Option Fd)) :=
  if maxMessageBytes < length then
    .ret (.error .messageTooLarge)
  else
    .alloc length <| (readExact length).bind fun
      | none => .ret (.error .unexpectedEof)
      | some payload =>
        match decode payload with
        | none => .ret (.error .decode)
        | some message => .ret (.ok (message, fd))

/-- Receives one message and the descriptor that came with it, if any. -/
def recv (decode : List UInt8 → Option Msg) :
    Receiver UInt8 Fd (Except RecvError (Msg × Option Fd)) :=
  .recvmsg 4 fun received fds =>
    if received = [] then
      .ret (.error .unexpectedEof)
    else
      -- the first descriptor is kept, any other is closed
      let fd := fds.foldl (fun fd received => if fd.isNone then some received else fd) none
      -- `header[received.bytes..]`
      if 4 < received.length then
        .panic
      else
        (readExact (4 - received.length)).bind fun
          | none => .ret (.error .unexpectedEof)
          | some rest => recvPayload decode fd (u32le.decode (received ++ rest)).toNat

/-- One message after another, as a caller of `send` does that goes on after a
refused message. -/
def sendAll (encode : Msg → List UInt8) :
    List (Msg × Option Fd) → Sender UInt8 Fd (List (Except SendError Unit))
  | [] => .ret []
  | (message, fd) :: rest =>
    (send encode message fd).bind fun sent =>
      (sendAll encode rest).bind fun results => .ret (sent :: results)

/-- At most `calls` messages, up to the first error, which is reported too. -/
def recvUntilError (decode : List UInt8 → Option Msg) :
    Nat → Receiver UInt8 Fd (List (Msg × Option Fd) × Option RecvError)
  | 0 => .ret ([], none)
  | calls + 1 =>
    (recv decode).bind fun
      | .error e => .ret ([], some e)
      | .ok received =>
        (recvUntilError decode calls).bind fun (messages, e) => .ret (received :: messages, e)

/-! ## Sending -/

/-- **`send` refuses the messages that are too large**, and no other. -/
theorem send_eq_error_iff (encode : Msg → List UInt8) (m : Msg) (fd : Option Fd) :
    send encode m fd = .ret (.error .messageTooLarge) ↔ maxMessageBytes < (encode m).length := by
  rw [send]
  split
  · next h => exact ⟨fun _ => h, fun _ => rfl⟩
  · next h =>
    constructor
    · intro he
      cases he
    · exact fun hlt => absurd hlt h

/-! ## The reference -/

/-- The frame at the front of a list of bytes: its message and its length. -/
def splitFrame (decode : List UInt8 → Option Msg) (bytes : List UInt8) :
    Except RecvError (Msg × Nat) :=
  if bytes.length < 4 then
    .error .unexpectedEof
  else
    let n := (u32le.decode (bytes.take 4)).toNat
    if maxMessageBytes < n then
      .error .messageTooLarge
    else if bytes.length - 4 < n then
      .error .unexpectedEof
    else
      match decode ((bytes.drop 4).take n) with
      | none => .error .decode
      | some message => .ok (message, 4 + n)

theorem splitFrame_ok {decode : List UInt8 → Option Msg} {bytes : List UInt8} {m : Msg} {n : Nat}
    (h : splitFrame decode bytes = .ok (m, n)) :
    n = 4 + (u32le.decode (bytes.take 4)).toNat ∧ n ≤ bytes.length := by
  rw [splitFrame] at h
  split at h
  · cases h
  · dsimp only at h
    split at h
    · cases h
    · split at h
      · cases h
      · split at h
        · cases h
        · have := (Prod.mk.inj (Except.ok.inj h)).2
          omega

/-- **A frame is known from its own bytes**, whatever follows. -/
theorem splitFrame_take_append {decode : List UInt8 → Option Msg} {bytes : List UInt8} {m : Msg}
    {n : Nat} (h : splitFrame decode bytes = .ok (m, n)) (w : List UInt8) :
    splitFrame decode (bytes.take n ++ w) = .ok (m, n) := by
  obtain ⟨hn, hlen⟩ := splitFrame_ok h
  have htake : (bytes.take n ++ w).take 4 = bytes.take 4 := by
    rw [List.take_append_of_le_length (by rw [List.length_take]; omega), List.take_take,
      Nat.min_eq_left (by omega)]
  have hdrop : ((bytes.take n ++ w).drop 4).take (u32le.decode (bytes.take 4)).toNat =
      (bytes.drop 4).take (u32le.decode (bytes.take 4)).toNat := by
    rw [List.drop_append_of_le_length (by rw [List.length_take]; omega), List.drop_take,
      List.take_append_of_le_length (by rw [List.length_take, List.length_drop]; omega),
      List.take_take, Nat.min_eq_left (by omega)]
  have hlength : n ≤ (bytes.take n ++ w).length := by
    rw [List.length_append, List.length_take]
    omega
  rw [splitFrame, if_neg (by omega)] at h ⊢
  simp only [htake, hdrop] at h ⊢
  split at h
  · cases h
  · next hmax =>
    rw [if_neg hmax, if_neg (by omega)]
    rwa [if_neg (by omega)] at h

/-- The messages a stream holds, up to the error that ends it. -/
def split (decode : List UInt8 → Option Msg) (bytes : List UInt8) : List Msg × RecvError :=
  match _h : splitFrame decode bytes with
  | .error e => ([], e)
  | .ok (message, n) =>
    let (messages, e) := split decode (bytes.drop n)
    (message :: messages, e)
termination_by bytes.length
decreasing_by
  have := splitFrame_ok _h
  rw [List.length_drop]
  omega

theorem split_error {decode : List UInt8 → Option Msg} {bytes : List UInt8} {e : RecvError}
    (h : splitFrame decode bytes = .error e) : split decode bytes = ([], e) := by
  rw [split]
  split
  · next heq => rw [h] at heq; cases heq; rfl
  · next heq => rw [h] at heq; cases heq

theorem split_ok {decode : List UInt8 → Option Msg} {bytes : List UInt8} {m : Msg} {n : Nat}
    (h : splitFrame decode bytes = .ok (m, n)) :
    split decode bytes =
      (m :: (split decode (bytes.drop n)).1, (split decode (bytes.drop n)).2) := by
  rw [split]
  split
  · next heq => rw [h] at heq; cases heq
  · next heq => rw [h] at heq; cases heq; rfl

/-- **Every frame takes at least four bytes.** -/
theorem length_split (decode : List UInt8 → Option Msg) : ∀ bytes : List UInt8,
    4 * (split decode bytes).1.length ≤ bytes.length := by
  intro bytes
  induction hn : bytes.length using Nat.strong_induction_on generalizing bytes with
  | _ l ih =>
    cases h : splitFrame decode bytes with
    | error e => rw [split_error h]; simp
    | ok r =>
      obtain ⟨m, n⟩ := r
      obtain ⟨h4, hle⟩ := splitFrame_ok h
      have := ih (bytes.drop n).length (by rw [List.length_drop]; omega) _ rfl
      rw [List.length_drop] at this
      rw [split_ok h, List.length_cons]
      omega

/-! ## Receiving -/

theorem foldl_keep_first : ∀ fds : List Fd,
    fds.foldl (fun fd received => if fd.isNone then some received else fd) none = fds.head? := by
  have hsome : ∀ (fds : List Fd) (x : Fd),
      fds.foldl (fun fd received => if fd.isNone then some received else fd) (some x) = some x := by
    intro fds
    induction fds with
    | nil => intro x; rfl
    | cons y fds ih => intro x; exact ih x
  intro fds
  cases fds with
  | nil => rfl
  | cons x fds => exact hsome fds x

theorem reads_recvPayload (decode : List UInt8 → Option Msg) (fd : Option Fd) (n : Nat)
    (t : Tagged UInt8 Fd) :
    Reads (recvPayload decode fd n) t (fun result t' =>
      if maxMessageBytes < n then result = .error .messageTooLarge
      else if t.length < n then result = .error .unexpectedEof
      else match decode ((bytesOf t).take n) with
        | none => result = .error .decode
        | some m => result = .ok (m, fd) ∧ t' = t.drop n) := by
  rw [recvPayload]
  by_cases hmax : maxMessageBytes < n
  · simp only [if_pos hmax]
    exact rfl
  · simp only [if_neg hmax]
    refine reads_bind (reads_readExact n t ?_ ?_)
    · intro hle
      simp only [if_neg (Nat.not_lt.mpr hle), ← bytesOf_take]
      cases decode (bytesOf (t.take n)) with
      | none => exact rfl
      | some m => exact ⟨rfl, rfl⟩
    · intro hlt
      simp only [if_pos hlt]
      exact rfl

/-- **One `recv` on any stream, however it is cut**: what `splitFrame` says of
the bytes, with a descriptor that came with the first four. -/
theorem reads_recv (decode : List UInt8 → Option Msg) (t : Tagged UInt8 Fd) :
    Reads (recv decode) t (fun result t' =>
      match splitFrame decode (bytesOf t) with
      | .error e => result = .error e
      | .ok (m, n) => t' = t.drop n ∧
          ∃ k, 0 < k ∧ k ≤ 4 ∧ result = .ok (m, (itemsOf (t.take k)).head?)) := by
  refine ⟨by omega, ?_, ?_⟩
  · rintro rfl
    exact rfl
  · intro k h0 h4 hl
    have hlen : (bytesOf (t.take k)).length = k := by simp [hl]
    have hne : bytesOf (t.take k) ≠ [] := by
      intro h
      rw [h] at hlen
      simp at hlen
      omega
    simp only [if_neg hne, hlen, if_neg (show ¬ 4 < k by omega), foldl_keep_first]
    refine reads_bind (reads_readExact (4 - k) (t.drop k) ?_ ?_)
    · intro hle
      rw [List.length_drop] at hle
      have hheader : bytesOf (t.take k) ++ bytesOf ((t.drop k).take (4 - k))
          = (bytesOf t).take 4 := by
        rw [← bytesOf_append, ← List.take_add, Nat.add_sub_cancel' h4, bytesOf_take]
      simp only [hheader, List.drop_drop, Nat.add_sub_cancel' h4]
      refine (reads_recvPayload decode _ _ (t.drop 4)).mono ?_
      intro result t' h
      rw [splitFrame, if_neg (by rw [length_bytesOf]; omega)]
      rw [bytesOf_drop, List.length_drop] at h
      rw [length_bytesOf]
      split at h
      · next hmax => simp only [if_pos hmax]; exact h
      · next hmax =>
        simp only [if_neg hmax]
        split at h
        · next hlt => simp only [if_pos hlt]; exact h
        · next hlt =>
          simp only [if_neg hlt]
          cases hd : decode (((bytesOf t).drop 4).take
              (u32le.decode ((bytesOf t).take 4)).toNat) with
          | none => rw [hd] at h; exact h
          | some m =>
            rw [hd] at h
            exact ⟨by rw [h.2, List.drop_drop], k, h0, h4, h.1⟩
    · intro hlt
      rw [List.length_drop] at hlt
      have : splitFrame decode (bytesOf t) = .error .unexpectedEof := by
        rw [splitFrame, if_pos (by rw [length_bytesOf]; omega)]
      simp only [this]
      exact rfl

/-- **Reading up to the first error is `split`**, whatever is attached. -/
theorem reads_recvUntilError (decode : List UInt8 → Option Msg) :
    ∀ (calls : Nat) (t : Tagged UInt8 Fd),
      Reads (recvUntilError decode calls) t (fun r _ =>
        r.1.map Prod.fst = (split decode (bytesOf t)).1.take calls ∧
        r.2 = if (split decode (bytesOf t)).1.length < calls then
          some (split decode (bytesOf t)).2 else none) := by
  intro calls
  induction calls with
  | zero => intro t; simp [recvUntilError, Reads]
  | succ calls ih =>
    intro t
    refine reads_bind ((reads_recv decode t).mono ?_)
    intro result t' h
    cases hs : splitFrame decode (bytesOf t) with
    | error e =>
      rw [hs] at h
      subst h
      rw [split_error hs]
      simp [Reads]
    | ok r =>
      obtain ⟨m, n⟩ := r
      rw [hs] at h
      obtain ⟨rfl, k, -, -, rfl⟩ := h
      rw [split_ok hs]
      refine reads_bind ((ih (t.drop n)).mono ?_)
      rintro ⟨messages, e⟩ t' ⟨hm, he⟩
      rw [bytesOf_drop] at hm he
      refine ⟨?_, ?_⟩
      · simp [hm]
      · simpa using he

theorem allocsAtMost_recv (decode : List UInt8 → Option Msg) :
    AllocsAtMost maxMessageBytes
      (recv decode : Receiver UInt8 Fd (Except RecvError (Msg × Option Fd))) := by
  intro received fds
  dsimp only
  split
  · trivial
  · split
    · trivial
    · refine allocsAtMost_bind ?_ (allocsAtMost_readExact _ _)
      rintro (_ | rest)
      · trivial
      · dsimp only
        rw [recvPayload]
        split
        · trivial
        · next hmax =>
          refine ⟨Nat.not_lt.mp hmax, allocsAtMost_bind ?_ (allocsAtMost_readExact _ _)⟩
          rintro (_ | payload)
          · trivial
          · dsimp only
            split <;> trivial

theorem allocsAtMost_recvUntilError (decode : List UInt8 → Option Msg) : ∀ calls : Nat,
    AllocsAtMost maxMessageBytes
      (recvUntilError decode calls :
        Receiver UInt8 Fd (List (Msg × Option Fd) × Option RecvError)) := by
  intro calls
  induction calls with
  | zero => trivial
  | succ calls ih =>
    refine allocsAtMost_bind ?_ (allocsAtMost_recv decode)
    rintro (e | received)
    · trivial
    · exact allocsAtMost_bind (fun _ => by trivial) ih

end RawHelper.Channel
