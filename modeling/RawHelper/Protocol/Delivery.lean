import RawHelper.Protocol.Channel

/-!
# Conversations over a channel

What `Channel.send` and `Channel.recv` guarantee when they run against each
other, or against anything.

`channel_delivers` is the protocol's side: whatever is sent arrives once, in
order and with its own descriptor, for every interleaving and every cutting of
the transfers.  A frame has at least four bytes and `recv` starts with a
`recvmsg` of at most four, so the only descriptor it can meet is the one of its
own frame; the reads after it ask for exactly what the frame still holds, so they
never reach the first byte of the next.

`recv_eq_split` is the receiver's side against a peer that writes any bytes with
any descriptors in any pieces and then closes.
-/

namespace RawHelper.Channel

open ByteField Socket

variable {Msg Fd : Type}

/-! ## Sending -/

theorem send_of_too_large (encode : Msg → List UInt8) {m : Msg} (fd : Option Fd)
    (h : maxMessageBytes < (encode m).length) :
    send encode m fd = .ret (.error .messageTooLarge) :=
  (send_eq_error_iff encode m fd).mpr h

theorem frame_ne_nil (payload : List UInt8) : frame payload ≠ [] := by
  intro h
  have := congrArg List.length h
  simp [frame] at this

/-- **`send` puts the frame on the stream**, the descriptor on its first byte. -/
theorem emits_send (encode : Msg → List UInt8) {m : Msg} (fd : Option Fd)
    (h : (encode m).length ≤ maxMessageBytes) :
    Emits (send encode m fd) (attach fd (frame (encode m))) (· = .ok ()) := by
  rw [send, if_neg (Nat.not_lt.mpr h)]
  refine ⟨frame_ne_nil _, fun k => ⟨attach none ((frame (encode m)).drop k), ?_, ?_⟩⟩
  · have hpos := k.2.1
    have hne : (frame (encode m)).take k ≠ [] := by
      rw [Ne, List.take_eq_nil_iff, not_or]
      exact ⟨by omega, frame_ne_nil _⟩
    rw [← attach_append fd _ hne, List.take_append_drop]
  · have hend : Emits (.ret (.ok ()) : Sender UInt8 Fd (Except SendError Unit)) []
        (· = .ok ()) := ⟨rfl, rfl⟩
    have := emits_writeAll hend ((frame (encode m)).drop k)
    rwa [List.append_nil] at this

/-- The messages `send` does not refuse. -/
def accepted (encode : Msg → List UInt8) (messages : List (Msg × Option Fd)) :
    List (Msg × Option Fd) :=
  messages.filter (fun m => (encode m.1).length ≤ maxMessageBytes)

/-- Their frames, one after another. -/
def frames (encode : Msg → List UInt8) (messages : List (Msg × Option Fd)) : Tagged UInt8 Fd :=
  messages.flatMap (fun m => attach m.2 (frame (encode m.1)))

theorem frames_append (encode : Msg → List UInt8) (first rest : List (Msg × Option Fd)) :
    frames encode (first ++ rest) = frames encode first ++ frames encode rest :=
  List.flatMap_append

/-- What `send` answers for a message. -/
def sendResult (encode : Msg → List UInt8) (m : Msg) : Except SendError Unit :=
  if (encode m).length ≤ maxMessageBytes then .ok () else .error .messageTooLarge

/-- Going on with the rest of the messages once one has been answered. -/
theorem emits_cons_results {p : Sender UInt8 Fd (List (Except SendError Unit))}
    {t : Tagged UInt8 Fd} {results : List (Except SendError Unit)} (r : Except SendError Unit)
    (h : Emits p t (· = results)) :
    Emits (p.bind fun results => .ret (r :: results)) t (· = r :: results) := by
  have hcons : Emits p t (fun a =>
      Emits (.ret (r :: a) : Sender UInt8 Fd (List (Except SendError Unit))) []
        (· = r :: results)) := by
    refine h.mono ?_
    rintro _ rfl
    exact ⟨rfl, rfl⟩
  have := emits_bind hcons
  rwa [List.append_nil] at this

theorem emits_sendAll (encode : Msg → List UInt8) : ∀ messages : List (Msg × Option Fd),
    Emits (sendAll encode messages) (frames encode (accepted encode messages))
      (· = messages.map (fun m => sendResult encode m.1)) := by
  intro messages
  induction messages with
  | nil => exact ⟨rfl, rfl⟩
  | cons m rest ih =>
    obtain ⟨m, fd⟩ := m
    rw [sendAll]
    by_cases h : (encode m).length ≤ maxMessageBytes
    · have hacc : accepted encode ((m, fd) :: rest) = (m, fd) :: accepted encode rest := by
        rw [accepted, List.filter_cons_of_pos (by simpa using h)]; rfl
      have hres : sendResult encode m = .ok () := if_pos h
      rw [hacc, frames, List.flatMap_cons, List.map_cons, hres]
      refine emits_bind ((emits_send encode fd h).mono ?_)
      rintro _ rfl
      exact emits_cons_results _ ih
    · have hacc : accepted encode ((m, fd) :: rest) = accepted encode rest := by
        rw [accepted, List.filter_cons_of_neg (by simpa using h)]; rfl
      have hres : sendResult encode m = .error .messageTooLarge := if_neg h
      rw [hacc, send_of_too_large encode fd (Nat.not_le.mp h), List.map_cons, hres]
      exact emits_cons_results _ ih

/-! ## Receiving what was sent -/

theorem splitFrame_frame {decode : List UInt8 → Option Msg} {payload : List UInt8} {m : Msg}
    (hdec : decode payload = some m) (hlen : payload.length ≤ maxMessageBytes)
    (t : List UInt8) : splitFrame decode (frame payload ++ t) = .ok (m, 4 + payload.length) := by
  have hn : (UInt32.ofNat payload.length).toNat = payload.length := by
    apply UInt32.toNat_ofNat_of_lt'
    rw [maxMessageBytes] at hlen
    rw [UInt32.size]
    omega
  have htake : (frame payload ++ t).take 4 = u32le.encode (UInt32.ofNat payload.length) := by
    rw [frame, List.append_assoc]
    exact u32le.take_encode_append _ _
  have hdrop : (frame payload ++ t).drop 4 = payload ++ t := by
    rw [frame, List.append_assoc]
    exact u32le.drop_encode_append _ _
  have hlength : (frame payload ++ t).length = 4 + (payload.length + t.length) := by
    simp [frame]
  rw [splitFrame, htake, hdrop, u32le.decode_encode, hn, hlength]
  rw [if_neg (by omega)]
  simp only [if_neg (Nat.not_lt.mpr hlen)]
  rw [if_neg (by omega), List.take_left, hdec]

/-- The descriptor among the first bytes of a stream is the first frame's. -/
theorem itemsOf_take_frame (fd : Option Fd) (payload : List UInt8) (t : Tagged UInt8 Fd) {k : Nat}
    (h0 : 0 < k) (h4 : k ≤ 4) :
    (itemsOf ((attach fd (frame payload) ++ t).take k)).head? = fd := by
  have hlen : k ≤ (frame payload).length := by simp [frame]; omega
  have hne : (frame payload).take k ≠ [] := by
    rw [Ne, List.take_eq_nil_iff, not_or]
    exact ⟨by omega, frame_ne_nil _⟩
  have hsplit : attach fd (frame payload) =
      attach fd ((frame payload).take k) ++ attach none ((frame payload).drop k) := by
    rw [← attach_append fd _ hne, List.take_append_drop]
  have hk : (attach fd ((frame payload).take k)).length = k := by simp [hlen]
  rw [hsplit, List.append_assoc, List.take_append_of_le_length (by omega),
    List.take_of_length_le (by omega), itemsOf_attach fd hne]
  cases fd <;> rfl

/-- **One `recv` takes one frame**, with its own descriptor, and nothing of the
next. -/
theorem reads_recv_frame {decode : List UInt8 → Option Msg} {payload : List UInt8} {m : Msg}
    (hdec : decode payload = some m) (hlen : payload.length ≤ maxMessageBytes) (fd : Option Fd)
    (t : Tagged UInt8 Fd) :
    Reads (recv decode) (attach fd (frame payload) ++ t)
      (fun result t' => result = .ok (m, fd) ∧ t' = t) := by
  refine (reads_recv decode _).mono ?_
  intro result t' h
  rw [bytesOf_append, bytesOf_attach, splitFrame_frame hdec hlen] at h
  obtain ⟨rfl, k, h0, h4, rfl⟩ := h
  have h4len : 4 + payload.length = (attach fd (frame payload)).length := by simp [frame]
  rw [itemsOf_take_frame fd payload t h0 h4, h4len, List.drop_left]
  exact ⟨rfl, rfl⟩

theorem reads_recvUntilError_frames {encode : Msg → List UInt8} {decode : List UInt8 → Option Msg}
    (hcodec : ∀ m, decode (encode m) = some m) :
    ∀ (calls : Nat) (messages : List (Msg × Option Fd)),
      (∀ m ∈ messages, (encode m.1).length ≤ maxMessageBytes) →
      Reads (recvUntilError decode calls) (frames encode messages) (fun r _ =>
        r = (messages.take calls,
          if messages.length < calls then some .unexpectedEof else none)) := by
  intro calls
  induction calls with
  | zero => intro messages _; simp [recvUntilError, Reads]
  | succ calls ih =>
    intro messages hsmall
    cases messages with
    | nil =>
      refine reads_bind ((reads_recv decode []).mono ?_)
      intro result t' h
      have : splitFrame decode (bytesOf ([] : Tagged UInt8 Fd)) = .error .unexpectedEof := rfl
      rw [this] at h
      subst h
      simp [Reads]
    | cons m messages =>
      rw [frames, List.flatMap_cons]
      refine reads_bind ((reads_recv_frame (hcodec m.1) (hsmall m (by simp)) m.2 _).mono ?_)
      rintro _ _ ⟨rfl, rfl⟩
      refine reads_bind ((ih messages fun m hm => hsmall m (List.mem_cons_of_mem _ hm)).mono ?_)
      rintro _ _ rfl
      simp [Reads]

/-- **Every message arrives once, in order, with its own descriptor.**  Whatever
is sent, with any number of frames in flight, and however the system cuts the
transfers: the messages that fit are what successive `recv` calls return, each
with the descriptor it was sent with; `send` answers for each whether it fits;
every run can be continued until the calls have returned.  A message that does
not fit is refused before any byte is written. -/
theorem channel_delivers (encode : Msg → List UInt8) (decode : List UInt8 → Option Msg)
    (hcodec : ∀ m, decode (encode m) = some m) :
    (∀ (messages : List (Msg × Option Fd)) (calls : Nat)
      (c : Config UInt8 Fd (List (Except SendError Unit))
        (List (Msg × Option Fd) × Option RecvError)),
      Run ⟨sendAll encode messages, [], recvUntilError decode calls⟩ c →
        c.receiver ≠ .panic ∧
        (∀ received e, c.receiver = .ret (received, e) →
          received = (accepted encode messages).take calls ∧
          e = if (accepted encode messages).length < calls then some .unexpectedEof else none) ∧
        (∀ results, c.sender = .ret results →
          results = messages.map (fun m => sendResult encode m.1)) ∧
        ∃ c', Run c c' ∧ ∃ r, c'.receiver = .ret r) ∧
    (∀ (m : Msg) (fd : Option Fd), maxMessageBytes < (encode m).length →
      send encode m fd = .ret (.error .messageTooLarge)) := by
  refine ⟨?_, fun m fd => send_of_too_large encode fd⟩
  intro messages calls c hrun
  have hsmall : ∀ m ∈ accepted encode messages, (encode m.1).length ≤ maxMessageBytes := by
    intro m hm
    simpa using (List.mem_filter.mp hm).2
  have hinv := inv_of_run ⟨_, emits_sendAll encode messages,
    reads_recvUntilError_frames hcodec calls _ hsmall⟩ hrun
  refine ⟨hinv.ne_panic, ?_, ?_, hinv.exists_ret⟩
  · intro received e hret
    obtain ⟨t, -, hr⟩ := hinv
    rw [hret] at hr
    exact Prod.mk.inj hr
  · intro results hret
    obtain ⟨t, hs, -⟩ := hinv
    rw [hret] at hs
    exact hs.2

theorem channel_delivers_two_messages :
    ∃ c : Config UInt8 Nat (List (Except SendError Unit))
        (List (List UInt8 × Option Nat) × Option RecvError),
      Run ⟨sendAll id [([7, 2], some 3), ([], none)], [], recvUntilError some 3⟩ c ∧
        c.receiver = .ret ([([7, 2], some 3), ([], none)], some .unexpectedEof) := by
  have hall := (channel_delivers id some fun m => rfl).1
    [([7, 2], some (3 : Nat)), ([], none)] 3
  have hacc : accepted id [(([7, 2] : List UInt8), some 3), ([], none)] =
      [([7, 2], some 3), ([], none)] := by decide
  obtain ⟨c, hrun, ⟨received, e⟩, hret⟩ := (hall _ .refl).2.2.2
  obtain ⟨hreceived, he⟩ := (hall c hrun).2.1 received e hret
  rw [hacc] at hreceived he
  exact ⟨c, hrun, by rw [hret, hreceived, he]; rfl⟩

/-! ## Receiving anything -/

/-- A peer that writes given pieces, each with or without a descriptor, and
closes. -/
def peer : List (List UInt8 × Option Fd) → Sender UInt8 Fd Unit
  | [] => .ret ()
  | (bytes, fd) :: rest =>
    if bytes = [] then peer rest
    else .put bytes fd (fun k => writeAll (bytes.drop k) (peer rest))

theorem emits_peer : ∀ writes : List (List UInt8 × Option Fd),
    Emits (peer writes) (writes.flatMap (fun w => attach w.2 w.1)) (fun _ => True) := by
  intro writes
  induction writes with
  | nil => exact ⟨rfl, trivial⟩
  | cons w rest ih =>
    obtain ⟨bytes, fd⟩ := w
    rw [peer, List.flatMap_cons]
    split
    · next hnil => subst hnil; exact ih
    · next hne =>
      refine ⟨hne, fun k => ⟨_, ?_, emits_writeAll ih (bytes.drop k)⟩⟩
      have htake : bytes.take k ≠ [] := by
        have := k.2.1
        rw [Ne, List.take_eq_nil_iff, not_or]
        exact ⟨by omega, hne⟩
      rw [← List.append_assoc, ← attach_append fd _ htake, List.take_append_drop]

theorem bytesOf_flatMap_attach (writes : List (List UInt8 × Option Fd)) :
    bytesOf (writes.flatMap (fun w => attach w.2 w.1)) = writes.flatMap Prod.fst := by
  induction writes with
  | nil => rfl
  | cons w rest ih => simp [ih]

/-- **Receiving until the first error is the reference splitter**, for any bytes
written in any pieces and read with any cuts: the calls return its messages and
then its error, without an index out of range, and every run can be continued to
that end.  A call that succeeds takes exactly its frame off the stream, so at
most a quarter as many calls succeed as the stream has bytes; and the payload
buffer is never larger than a message may be. -/
theorem recv_eq_split (decode : List UInt8 → Option Msg) :
    (∀ (writes : List (List UInt8 × Option Fd)) (calls : Nat)
      (c : Config UInt8 Fd Unit (List (Msg × Option Fd) × Option RecvError)),
      Run ⟨peer writes, [], recvUntilError decode calls⟩ c →
        c.receiver ≠ .panic ∧
        (∀ received e, c.receiver = .ret (received, e) →
          received.map Prod.fst = (split decode (writes.flatMap Prod.fst)).1.take calls ∧
          e = if (split decode (writes.flatMap Prod.fst)).1.length < calls then
            some (split decode (writes.flatMap Prod.fst)).2 else none) ∧
        ∃ c', Run c c' ∧ ∃ r, c'.receiver = .ret r) ∧
    (∀ (writes : List (List UInt8 × Option Fd)) (s : Tagged UInt8 Fd)
      (c : Config UInt8 Fd Unit (Except RecvError (Msg × Option Fd))) (m : Msg) (fd : Option Fd),
      Run ⟨peer writes, s, recv decode⟩ c → c.receiver = .ret (.ok (m, fd)) →
        ∃ n t, splitFrame decode (bytesOf s ++ writes.flatMap Prod.fst) = .ok (m, 4 + n) ∧
          n = (u32le.decode ((bytesOf s ++ writes.flatMap Prod.fst).take 4)).toNat ∧
          Emits c.sender t (fun _ => True) ∧
          bytesOf (c.inFlight ++ t) =
            (bytesOf s ++ writes.flatMap Prod.fst).drop (4 + n)) ∧
    (∀ bytes : List UInt8, (split decode bytes).1.length ≤ bytes.length / 4) ∧
    (∀ calls : Nat, AllocsAtMost maxMessageBytes (recvUntilError decode calls :
      Receiver UInt8 Fd (List (Msg × Option Fd) × Option RecvError))) := by
  refine ⟨?_, ?_, ?_, allocsAtMost_recvUntilError decode⟩
  · intro writes calls c hrun
    have hinv := inv_of_run ⟨_, emits_peer writes, reads_recvUntilError decode calls _⟩ hrun
    refine ⟨hinv.ne_panic, ?_, hinv.exists_ret⟩
    intro received e hret
    obtain ⟨t, -, hr⟩ := hinv
    rw [hret, List.nil_append, bytesOf_flatMap_attach] at hr
    exact hr
  · intro writes s c m fd hrun hret
    obtain ⟨t, hs, hr⟩ := inv_of_run ⟨_, emits_peer writes, reads_recv decode _⟩ hrun
    rw [hret, bytesOf_append, bytesOf_flatMap_attach] at hr
    cases hsplit : splitFrame decode (bytesOf s ++ writes.flatMap Prod.fst) with
    | error e => rw [hsplit] at hr; cases hr
    | ok r =>
      obtain ⟨m', n⟩ := r
      rw [hsplit] at hr
      obtain ⟨hrest, k, -, -, hok⟩ := hr
      obtain ⟨rfl, rfl⟩ := Prod.mk.inj (Except.ok.inj hok)
      obtain ⟨hn, -⟩ := splitFrame_ok hsplit
      refine ⟨_, t, by rw [← hn], rfl, hs, ?_⟩
      rw [← hn, hrest, bytesOf_drop, bytesOf_append, bytesOf_flatMap_attach]
  · intro bytes
    have := length_split decode bytes
    omega

theorem recv_eq_split_truncated :
    (∃ (c : Config UInt8 Nat Unit (List (List UInt8 × Option Nat) × Option RecvError))
        (received : List (List UInt8 × Option Nat)),
      Run ⟨peer [([1, 0, 0], some 3), ([0, 7, 2], none)], [], recvUntilError some 5⟩ c ∧
        c.receiver = .ret (received, some .unexpectedEof) ∧ received.map Prod.fst = [[7]]) ∧
    ∃ (c : Config UInt8 Nat Unit (Except RecvError (List UInt8 × Option Nat)))
        (t : Tagged UInt8 Nat),
      Run ⟨peer [([1, 0, 0], some 3), ([0, 7, 2], none)], [], recv some⟩ c ∧
        bytesOf (c.inFlight ++ t) = [2] := by
  have hbytes : [(([1, 0, 0] : List UInt8), some 3), ([0, 7, 2], none)].flatMap Prod.fst =
      [1, 0, 0, 0, 7, 2] := rfl
  have hfirst : splitFrame some [1, 0, 0, 0, 7, 2] = .ok ([7], 5) := rfl
  have hlast : splitFrame (some : List UInt8 → _) [2] = .error .unexpectedEof := rfl
  have hsplit : split some [1, 0, 0, 0, 7, 2] = ([[7]], .unexpectedEof) := by
    rw [split_ok hfirst]
    exact congrArg (fun r => ([7] :: r.1, r.2)) (split_error hlast)
  refine ⟨?_, ?_⟩
  · have hall := (recv_eq_split some).1 [([1, 0, 0], some (3 : Nat)), ([0, 7, 2], none)] 5
    obtain ⟨c, hrun, ⟨received, e⟩, hret⟩ := (hall _ .refl).2.2
    obtain ⟨hreceived, he⟩ := (hall c hrun).2.1 received e hret
    rw [hbytes, hsplit] at hreceived he
    exact ⟨c, received, hrun, by rw [hret, he]; rfl, hreceived⟩
  · have hinv : Inv (fun _ => True) _
        (⟨peer [([1, 0, 0], some 3), ([0, 7, 2], none)], [], recv some⟩ : Config UInt8 Nat Unit _) :=
      ⟨_, emits_peer _, reads_recv some _⟩
    obtain ⟨c, hrun, result, hret⟩ := hinv.exists_ret
    obtain ⟨t, -, hr⟩ := inv_of_run hinv hrun
    rw [hret, List.nil_append, bytesOf_flatMap_attach, hbytes, hfirst] at hr
    obtain ⟨-, k, -, -, rfl⟩ := hr
    obtain ⟨n, t', hframe, -, -, hrest⟩ := (recv_eq_split some).2.1 _ [] c _ _ hrun hret
    have h5 : splitFrame some [1, 0, 0, 0, 7, 2] = .ok ([7], 4 + n) := hframe
    obtain rfl : n = 1 := by
      rw [hfirst] at h5
      have := (Prod.mk.inj (Except.ok.inj h5)).2
      omega
    exact ⟨c, t', hrun, hrest⟩

end RawHelper.Channel
