import RawHelper.Helper.Handle

/-!
# A session

`helper/src/main.rs`: `handle` answers one request after another, with the files
open so far.

`Reference` is what the session is for: a map from ids to bytes and extension,
from which everything is computed again at each request.  It reads the outcomes of
the decoders for itself, in its own words.  `Kept` is what ties the two, that what a
file keeps is what would be computed again, and `handle_refines_reference` says that
no sequence of requests tells them apart.
-/

namespace RawHelper.Session

open Calls

/-! ## The reference -/

section Reference

variable {Fd SystemFile Pixels F32 α : Type} (D : Decoders Fd SystemFile Pixels F32)

/-- All the reference keeps of a file. -/
structure Stored where
  bytes : List UInt8
  extension : Option String

abbrev Reference := Std.HashMap UInt64 Stored

/-- The text of two failures; a raw decoder that was not tried, or that says nothing, is
left out of it. -/
def bothReasons (rawReason systemReason : String) : String :=
  if rawReason = "" then systemReason else rawReason ++ "; system: " ++ systemReason

/-- The system's image of a file, its decoder opened afresh. -/
def Stored.bySystem (file : Stored) (system : SystemFile → Outcome α) (rawReason : String) :
    Except String α :=
  match D.systemOpen file.bytes file.extension with
  | .err error => .error error
  | .panic => .error "decoder panicked"
  | .ok (decoder, _) =>
    match system decoder with
    | .ok image => .ok image
    | .err error => .error (bothReasons rawReason error)
    | .panic => .error (bothReasons rawReason "decoder panicked")

/-- The raw decoder's image when it reads the file's headers, and on its failure the
system's. -/
def Stored.decode (file : Stored) (raw : List UInt8 → Outcome α)
    (system : SystemFile → Outcome α) : Except String α :=
  match D.info file.bytes with
  | .ok _ =>
    match raw file.bytes with
    | .ok image => .ok image
    | .err error => file.bySystem D system error
    | .panic => file.bySystem D system "decoder panicked"
  | .err _ | .panic => file.bySystem D system ""

def systemHeaders (bytes : List UInt8) (extension : Option String) (rawReason : String) :
    Except String (FileInfo F32) :=
  match D.systemOpen bytes extension with
  | .ok (_, info) => .ok info
  | .err error => .error (rawReason ++ "; system: " ++ error)
  | .panic => .error (rawReason ++ "; system: " ++ "decoder panicked")

/-- The headers, from the raw decoder or else from the system's. -/
def headers (bytes : List UInt8) (extension : Option String) : Except String (FileInfo F32) :=
  match D.info bytes with
  | .ok info => .ok info
  | .err error => systemHeaders D bytes extension error
  | .panic => systemHeaders D bytes extension "decoder panicked"

/-- What opening a file comes to: its bytes and its headers. -/
def opening (extension : Option String) (fd : Option Fd) (openFiles : Nat) :
    Except String (List UInt8 × FileInfo F32) :=
  match fd with
  | none => .error "no file descriptor attached"
  | some fd =>
    if openFiles < 8 then
      match D.mapFile fd with
      | .error error => .error ("cannot map file: " ++ error)
      | .ok bytes => (headers D bytes extension).map (bytes, ·)
    else
      .error "too many open files"

/-- Answers one request, with no clock. -/
def answer (sandboxed : Bool) (files : Reference) (received : Received Fd) :
    Answer Pixels F32 × Reference :=
  match received.request with
  | .hello _ => ((.hello 4 "rawler 0.8.0" sandboxed, none), files)
  | .open id extension =>
    match opening D extension received.fd files.size with
    | .error error => ((.failed id error, none), files)
    | .ok (bytes, info) => ((.opened id info 0, none), files.insert id { bytes, extension })
  | .preview id =>
    match files[id]? with
    | none => ((.failed id "file not open", none), files)
    | some file =>
      match file.decode D D.preview D.systemPreview with
      | .ok (image, buffer) => ((.preview id image 0, some buffer), files)
      | .error error => ((.failed id error, none), files)
  | .sensor id =>
    match files[id]? with
    | none => ((.failed id "file not open", none), files)
    | some file =>
      match file.decode D D.sensor D.systemDevelop with
      | .ok (sensor, info, buffer) => ((.sensor id sensor info 0, some buffer), files)
      | .error error => ((.failed id error, none), files)
  | .sandboxCheck => ((.sandboxCheck sandboxed received.escapes, none), files)
  | .close id => ((.closed id, none), files.erase id)

/-- An answer without its time. -/
def untimed (answer : Answer Pixels F32) : Answer Pixels F32 :=
  match answer.1 with
  | .opened id info _ => (.opened id info 0, answer.2)
  | .preview id image _ => (.preview id image 0, answer.2)
  | .sensor id sensor info _ => (.sensor id sensor info 0, answer.2)
  | _ => answer

variable {D}

theorem answer_absent {files : Reference} {id : UInt64} (h : files[id]? = none) (sandboxed : Bool)
    (wanted : Wanted) (fd : Option Fd) (micros : UInt64) (escapes : List String) :
    answer D sandboxed files ⟨wanted.request id, fd, micros, escapes⟩ =
      (failed id "file not open", files) := by
  cases wanted with
  | preview => simp only [answer, Wanted.request, h, failed]
  | sensor => simp only [answer, Wanted.request, h, failed]

theorem answer_decoded {files : Reference} {id : UInt64} {file : Stored}
    (h : files[id]? = some file) (sandboxed : Bool) (wanted : Wanted) (fd : Option Fd)
    (micros : UInt64) (escapes : List String) :
    answer D sandboxed files ⟨wanted.request id, fd, micros, escapes⟩ =
      (wanted.answer id 0 (file.decode D (D.raw wanted) (D.system wanted)), files) := by
  cases wanted with
  | preview =>
    simp only [answer, Wanted.request, h]
    rw [show D.raw .preview = D.preview from rfl, show D.system .preview = D.systemPreview from rfl]
    rcases file.decode D D.preview D.systemPreview with error | ⟨image, buffer⟩ <;> rfl
  | sensor =>
    simp only [answer, Wanted.request, h]
    rw [show D.raw .sensor = D.sensor from rfl, show D.system .sensor = D.systemDevelop from rfl]
    rcases file.decode D D.sensor D.systemDevelop with error | ⟨layout, info, buffer⟩ <;> rfl

theorem untimed_answer (id micros : UInt64) {wanted : Wanted}
    (result : Except String (Decoded Pixels F32 wanted)) :
    untimed (wanted.answer id micros result) = wanted.answer id 0 result := by
  cases wanted <;> cases result <;> rfl

end Reference

/-! ## What an open file keeps -/

section Refinement

variable {Fd SystemFile Pixels F32 α : Type} (D : Decoders Fd SystemFile Pixels F32)

def OpenFile.stored (file : OpenFile Fd SystemFile) : Stored := ⟨file.source, file.extension⟩

/-- What the file keeps is what its bytes and extension give. -/
structure OpenFile.Kept (file : OpenFile Fd SystemFile) : Prop where
  rawler : file.rawler = (guarded (D.info file.source)).isOk
  system : ∀ system, file.system = some system →
    system = (guarded (D.systemOpen file.source file.extension)).map Prod.fst

theorem join_eq_bothReasons (rawError systemError : String) :
    join rawError systemError = bothReasons rawError systemError := by
  rw [join, bothReasons]
  by_cases h : rawError = ""
  · rw [if_pos h, if_pos (String.isEmpty_iff.mpr h)]
  · rw [if_neg h, if_neg (by simpa using h)]

/-- **The system decoder kept is the one opened afresh.** -/
theorem OpenFile.Kept.systemDecoder_eq {file : OpenFile Fd SystemFile} (h : file.Kept D) :
    file.systemDecoder D = (guarded (D.systemOpen file.source file.extension)).map Prod.fst := by
  rw [systemDecoder]
  cases hs : file.system with
  | some system => exact h.system system hs
  | none => rfl

theorem OpenFile.Kept.keep {file : OpenFile Fd SystemFile} (h : file.Kept D) :
    OpenFile.Kept D { file with system := some (file.systemDecoder D) } where
  rawler := h.rawler
  system := by
    rintro system ⟨⟩
    exact h.systemDecoder_eq

theorem OpenFile.Kept.bySystem_eq {file : OpenFile Fd SystemFile} (h : file.Kept D)
    (system : SystemFile → Outcome α) (rawError : String) :
    (file.systemDecoder D >>= fun decoder =>
        (guarded (system decoder)).mapError (join rawError)) =
      file.stored.bySystem D system rawError := by
  rw [h.systemDecoder_eq, Stored.bySystem, stored]
  cases D.systemOpen file.source file.extension with
  | err error => rfl
  | panic => rfl
  | ok opened =>
    show (guarded (system opened.1)).mapError (join rawError) = _
    dsimp only
    cases system opened.1 with
    | ok image => rfl
    | err error => exact congrArg Except.error (join_eq_bothReasons rawError error)
    | panic => exact congrArg Except.error (join_eq_bothReasons rawError _)

/-- **Decoding from what the file keeps is decoding from its bytes.** -/
theorem OpenFile.Kept.decode_eq {file : OpenFile Fd SystemFile} (h : file.Kept D)
    (wanted : Wanted) :
    (file.decode D wanted).1 = file.stored.decode D (D.raw wanted) (D.system wanted) ∧
      (file.decode D wanted).2.stored = file.stored ∧ (file.decode D wanted).2.Kept D := by
  have hsystem : ∀ rawError, file.tried D wanted = .error rawError →
      (file.decode D wanted).1 = file.stored.bySystem D (D.system wanted) rawError ∧
        (file.decode D wanted).2.stored = file.stored ∧ (file.decode D wanted).2.Kept D := by
    intro rawError htried
    rw [decode_def, htried]
    exact ⟨h.bySystem_eq D (D.system wanted) rawError, rfl, h.keep⟩
  have hrawler := h.rawler
  rw [Stored.decode, show file.stored.bytes = file.source from rfl]
  cases hinfo : D.info file.source with
  | ok info =>
    have htried : file.tried D wanted = guarded (D.raw wanted file.source) := by
      rw [tried, hrawler, hinfo]
      rfl
    cases hraw : D.raw wanted file.source with
    | ok image =>
      rw [decode_def, htried, hraw]
      exact ⟨rfl, rfl, h⟩
    | err error => exact hsystem error (by rw [htried, hraw]; rfl)
    | panic => exact hsystem _ (by rw [htried, hraw]; rfl)
  | err error => exact hsystem "" (by rw [tried, hrawler, hinfo]; rfl)
  | panic => exact hsystem "" (by rw [tried, hrawler, hinfo]; rfl)

theorem size_insert_of_getElem? {files : Files Fd SystemFile} {id : UInt64}
    {old : OpenFile Fd SystemFile} (hold : files[id]? = some old) (file : OpenFile Fd SystemFile) :
    (files.insert id file).size = files.size := by
  have hmem : id ∈ files := by rw [Std.HashMap.mem_iff_isSome_getElem?, hold]; rfl
  rw [Std.HashMap.size_insert, if_pos hmem]

/-- The reference's entry for what is open under an id. -/
structure Represented (file : Option (OpenFile Fd SystemFile)) (stored : Option Stored) :
    Prop where
  stored : file.map OpenFile.stored = stored
  kept : ∀ f, file = some f → f.Kept D

/-- The reference holds the same files, and each keeps what it would compute
again. -/
structure Related (files : Files Fd SystemFile) (reference : Reference) : Prop where
  size : files.size = reference.size
  entries : Tabled (Represented D) files fun id : UInt64 => reference[id]?

variable {D} in
theorem OpenFile.Kept.represented {file : OpenFile Fd SystemFile} (h : file.Kept D) :
    Represented D (some file) (some file.stored) := by
  refine ⟨rfl, ?_⟩
  rintro f ⟨⟩
  exact h

namespace Related

variable {D} {files : Files Fd SystemFile} {reference : Reference}

theorem stored (h : Related D files reference) (id : UInt64) :
    files[id]?.map OpenFile.stored = reference[id]? := (h.entries id).stored

theorem mem_iff (h : Related D files reference) (id : UInt64) : id ∈ files ↔ id ∈ reference := by
  rw [Std.HashMap.mem_iff_isSome_getElem?, Std.HashMap.mem_iff_isSome_getElem?, ← h.stored,
    Option.isSome_map]

theorem empty : Related D (∅ : Files Fd SystemFile) ∅ where
  size := rfl
  entries := .empty fun id => ⟨by simp, by rintro f ⟨⟩⟩

theorem insert (h : Related D files reference) (id : UInt64) {file : OpenFile Fd SystemFile}
    (hfile : file.Kept D) :
    Related D (files.insert id file) (reference.insert id file.stored) where
  size := by
    have := h.mem_iff id
    simp only [Std.HashMap.size_insert, h.size, this]
  entries := by
    rw [getElem?_insert_eq_update]
    exact h.entries.insert id hfile.represented

/-- A file may come to keep more. -/
theorem update (h : Related D files reference) {id : UInt64} {old file : OpenFile Fd SystemFile}
    (hold : files[id]? = some old) (hstored : file.stored = old.stored) (hfile : file.Kept D) :
    Related D (files.insert id file) reference where
  size := by rw [size_insert_of_getElem? hold, h.size]
  entries := by
    refine h.entries.keep ?_
    rw [← h.stored id, hold, Option.map_some, ← hstored]
    exact hfile.represented

theorem erase (h : Related D files reference) (id : UInt64) :
    Related D (files.erase id) (reference.erase id) where
  size := by
    have := h.mem_iff id
    simp only [Std.HashMap.size_erase, h.size, this]
  entries := by
    rw [getElem?_erase_eq_update]
    exact h.entries.erase id ⟨rfl, by rintro f ⟨⟩⟩

/-- **An open file is asked to decode**: it answers as one opened afresh, and may
come to keep its system decoder. -/
theorem decode (h : Related D files reference) {id : UInt64} {file : OpenFile Fd SystemFile}
    (hfile : files[id]? = some file) (wanted : Wanted) :
    (file.decode D wanted).1 = file.stored.decode D (D.raw wanted) (D.system wanted) ∧
      Related D (files.insert id (file.decode D wanted).2) reference := by
  obtain ⟨hresult, hstored, hkept⟩ := ((h.entries id).kept file hfile).decode_eq D wanted
  exact ⟨hresult, h.update hfile hstored hkept⟩

theorem getElem?_of_some (h : Related D files reference) {id : UInt64}
    {file : OpenFile Fd SystemFile} (hfile : files[id]? = some file) :
    reference[id]? = some file.stored := by
  rw [← h.stored id, hfile]
  rfl

theorem getElem?_of_none (h : Related D files reference) {id : UInt64} (hfile : files[id]? = none) :
    reference[id]? = none := by
  rw [← h.stored id, hfile]
  rfl

end Related

/-! ## Refinement -/

theorem headers_of_error {source : List UInt8} {rawError : String}
    (h : guarded (D.info source) = .error rawError) (extension : Option String) :
    headers D source extension = systemHeaders D source extension rawError := by
  rw [headers]
  cases hinfo : D.info source with
  | ok info => rw [hinfo] at h; cases h
  | err error => rw [hinfo] at h; cases h; rfl
  | panic => rw [hinfo] at h; cases h; rfl

/-- **Opening** comes to what the reference says of it, and what is then kept of the
file is what its bytes give. -/
theorem Opens.refines {extension : Option String} {fd : Option Fd} {openFiles : Nat}
    {opened : Except String (FileInfo F32 × OpenFile Fd SystemFile)}
    (h : Opens D extension openFiles fd opened) :
    opening D extension fd openFiles = opened.map (fun x => (x.2.source, x.1)) ∧
      ∀ info file, opened = .ok (info, file) → file.extension = extension ∧ file.Kept D := by
  cases h with
  | unattached => exact ⟨rfl, by rintro info file ⟨⟩⟩
  | full fd hfull =>
    have hfull : ¬ openFiles < 8 := Nat.not_lt.mpr hfull
    exact ⟨by rw [opening, if_neg hfull]; rfl, by rintro info file ⟨⟩⟩
  | unmapped hroom hmap =>
    have hroom : openFiles < 8 := hroom
    exact ⟨by rw [opening, if_pos hroom, hmap]; rfl, by rintro info file ⟨⟩⟩
  | raw hroom hmap hinfo =>
    have hroom : openFiles < 8 := hroom
    refine ⟨?_, ?_⟩
    · simp only [opening, if_pos hroom, hmap, headers, hinfo]
      rfl
    · rintro info file ⟨⟩
      exact ⟨rfl, ⟨by rw [hinfo]; rfl, by rintro system ⟨⟩⟩⟩
  | system hroom hmap hinfo hopen =>
    have hroom : openFiles < 8 := hroom
    refine ⟨?_, ?_⟩
    · simp only [opening, if_pos hroom, hmap, headers_of_error D hinfo, systemHeaders, hopen]
      rfl
    · rintro info file ⟨⟩
      refine ⟨rfl, ⟨by rw [hinfo]; rfl, ?_⟩⟩
      rintro system ⟨⟩
      rw [hopen]
      rfl
  | @unread fd source rawError systemError hroom hmap hinfo hopen =>
    have hroom : openFiles < 8 := hroom
    refine ⟨?_, by rintro info file ⟨⟩⟩
    simp only [opening, if_pos hroom, hmap, headers_of_error D hinfo, systemHeaders]
    cases hsystem : D.systemOpen source extension with
    | ok opened => rw [hsystem] at hopen; cases hopen
    | err error => rw [hsystem] at hopen; cases hopen; rfl
    | panic => rw [hsystem] at hopen; cases hopen; rfl

/-- **One request**: the answers agree and the states stay related. -/
theorem handle_refines (sandboxed : Bool) (files : Files Fd SystemFile) (reference : Reference)
    (received : Received Fd) (h : Related D files reference) :
    untimed (handle D sandboxed files received).1 = (answer D sandboxed reference received).1 ∧
      Related D (handle D sandboxed files received).2 (answer D sandboxed reference received).2 := by
  have hhandled := handled D sandboxed files received
  generalize handle D sandboxed files received = out at hhandled ⊢
  cases hhandled with
  | hello version fd micros escapes => exact ⟨rfl, h⟩
  | refused micros escapes hopens =>
    rw [answer]
    dsimp only
    rw [← h.size, hopens.refines.1]
    exact ⟨rfl, h⟩
  | opened micros escapes hopens =>
    obtain ⟨hopening, hnew⟩ := hopens.refines
    obtain ⟨rfl, hkept⟩ := hnew _ _ rfl
    rw [answer]
    dsimp only
    rw [← h.size, hopening]
    exact ⟨rfl, h.insert _ hkept⟩
  | absent wanted fd micros escapes hfile =>
    rw [answer_absent (h.getElem?_of_none hfile)]
    exact ⟨rfl, h⟩
  | decoded wanted fd micros escapes hfile =>
    obtain ⟨hresult, hrelated⟩ := h.decode hfile wanted
    rw [answer_decoded (h.getElem?_of_some hfile), untimed_answer, hresult]
    exact ⟨rfl, hrelated⟩
  | close id fd micros escapes => exact ⟨rfl, h.erase id⟩
  | sandboxCheck fd micros escapes => exact ⟨rfl, h⟩

/-- **No request makes the open files more than eight.** -/
theorem size_handle_le (sandboxed : Bool) (files : Files Fd SystemFile) (received : Received Fd)
    (h : files.size ≤ 8) : (handle D sandboxed files received).2.size ≤ 8 := by
  have hhandled := handled D sandboxed files received
  generalize handle D sandboxed files received = out at hhandled ⊢
  cases hhandled with
  | opened micros escapes hopens =>
    obtain ⟨-, -, -, hroom⟩ := hopens.file_eq
    exact Std.HashMap.size_insert_le.trans hroom
  | decoded wanted fd micros escapes hfile => exact (size_insert_of_getElem? hfile _).trans_le h
  | close id fd micros escapes => exact Std.HashMap.size_erase_le.trans h
  | hello | refused | absent | sandboxCheck => exact h

/-- A whole run, from no open file. -/
theorem run_refines (sandboxed : Bool) (requests : List (Received Fd)) :
    (Machine.run (handle D sandboxed) ∅ requests).1.map untimed =
        (Machine.run (answer D sandboxed) ∅ requests).1 ∧
      Related D (Machine.run (handle D sandboxed) ∅ requests).2
        (Machine.run (answer D sandboxed) ∅ requests).2 :=
  Machine.run_simulates (handle_refines D sandboxed) requests (∅ : Files Fd SystemFile) ∅ .empty

/-- **In every state reached, a file keeps what its bytes and extension give.** -/
theorem kept_of_run {sandboxed : Bool} {requests : List (Received Fd)} {id : UInt64}
    {file : OpenFile Fd SystemFile}
    (h : (Machine.run (handle D sandboxed) ∅ requests).2[id]? = some file) : file.Kept D :=
  ((run_refines D sandboxed requests).2.entries id).kept file h

/-- **No sequence of requests tells the session from the reference.**  From no
open file, every reply but its time, with its pixels, is the one recomputed from
the bytes and the extension of each open id; the open ids are the same, each
with its bytes; and at most eight files are ever open. -/
theorem handle_refines_reference (sandboxed : Bool) (requests : List (Received Fd)) :
    (Machine.run (handle D sandboxed) ∅ requests).1.map untimed =
        (Machine.run (answer D sandboxed) ∅ requests).1 ∧
      (∀ id, id ∈ (Machine.run (handle D sandboxed) ∅ requests).2 ↔
        id ∈ (Machine.run (answer D sandboxed) ∅ requests).2) ∧
      (∀ id : UInt64, (Machine.run (handle D sandboxed) ∅ requests).2[id]?.map OpenFile.stored =
        (Machine.run (answer D sandboxed) ∅ requests).2[id]?) ∧
      (Machine.run (handle D sandboxed) ∅ requests).2.size ≤ 8 := by
  obtain ⟨hreplies, hrelated⟩ := run_refines D sandboxed requests
  refine ⟨hreplies, hrelated.mem_iff, hrelated.stored, ?_⟩
  exact Machine.run_invariant (size_handle_le D sandboxed) requests ∅ (Nat.zero_le _)

end Refinement

end RawHelper.Session
