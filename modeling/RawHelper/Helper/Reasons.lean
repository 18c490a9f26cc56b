import RawHelper.Helper.Session

/-!
# The reasons a failure carries

A `Preview` or a `Sensor` request tries the raw decoder, if it recognised the
file, and then the system's.  `join` puts both decoders' reasons in one text when
both failed, as opening a file does.

The system's side fails in two places.  When its decoder produces no image the
error goes through `join`; when its decoder could not be opened, now or before,
the error leaves the closure at once, and the raw decoder's reason with it.
`failed_carries_reasons_iff` says that this is the only way a reason is lost, in
any state a session reaches.  Where there are no system decoders
(`system/unsupported.rs`) every failure of the raw decoder takes that way.
-/

namespace RawHelper.Session

open Calls

/-! ## Joining -/

@[simp] theorem join_empty (systemError : String) : join "" systemError = systemError := rfl

theorem join_ne {rawError : String} (h : rawError ≠ "") (systemError : String) :
    join rawError systemError ≠ systemError := by
  intro heq
  have hne : rawError.isEmpty = false := by simpa [String.isEmpty_iff] using h
  have hlen := congrArg String.length heq
  rw [join, hne] at hlen
  simp only [Bool.false_eq_true, if_false, String.length_append] at hlen
  have hpos : 0 < "; system: ".length := by decide
  omega

section Reasons

variable {Fd SystemFile Pixels F32 α : Type} (D : Decoders Fd SystemFile Pixels F32)

/-! ## What a failure should say -/

/-- What the system makes of a file, from opening it to the image. -/
def OpenFile.bySystem (file : OpenFile Fd SystemFile) (system : SystemFile → Outcome α) :
    Except String α :=
  match file.systemDecoder D with
  | .error error => .error error
  | .ok decoder => guarded (system decoder)

/-- When both decoders fail the failure carries both reasons, and the system's
alone when the raw decoder was not tried. -/
structure CarriesReasons (file : OpenFile Fd SystemFile) (raw : List UInt8 → Outcome α)
    (system : SystemFile → Outcome α) (fails : String → Prop) : Prop where
  both : file.rawler = true → ∀ rawError systemError, guarded (raw file.source) = .error rawError →
    file.bySystem D system = .error systemError → fails (join rawError systemError)
  alone : file.rawler = false → ∀ systemError, file.bySystem D system = .error systemError →
    fails systemError

/-- The raw decoder reads the headers and fails later with a reason, and the
system cannot open the file. -/
def RawReasonLost (file : Stored) (raw : List UInt8 → Outcome α) : Prop :=
  (guarded (D.info file.bytes)).isOk = true ∧
    (∃ rawError, guarded (raw file.bytes) = .error rawError ∧ rawError ≠ "") ∧
    (guarded (D.systemOpen file.bytes file.extension)).isOk = false

/-! ## Decoding -/

/-- **What a failure says**: both reasons once the system's decoder is open, and
that decoder's alone when it could not be opened. -/
theorem OpenFile.decode_eq_error {file : OpenFile Fd SystemFile} {wanted : Wanted}
    {rawError systemError : String} (h : file.tried D wanted = .error rawError)
    (hby : file.bySystem D (D.system wanted) = .error systemError) :
    (file.decode D wanted).1 =
      .error (if (file.systemDecoder D).isOk then join rawError systemError else systemError) := by
  rw [bySystem] at hby
  rw [decode_def, h]
  dsimp only
  cases hsystem : file.systemDecoder D with
  | error error =>
    rw [hsystem] at hby
    exact hby
  | ok decoder =>
    rw [hsystem] at hby
    exact congrArg (Except.mapError (join rawError)) hby

theorem OpenFile.exists_bySystem_eq_error {file : OpenFile Fd SystemFile}
    (h : (file.systemDecoder D).isOk = false) (system : SystemFile → Outcome α) :
    ∃ systemError, file.bySystem D system = .error systemError := by
  rw [bySystem]
  cases hsystem : file.systemDecoder D with
  | error systemError => exact ⟨systemError, rfl⟩
  | ok decoder => rw [hsystem] at h; cases h

/-- **One request loses a reason exactly when** the raw decoder was tried and
failed with one, and the system's decoder could not be opened. -/
theorem OpenFile.carriesReasons_decode_iff (file : OpenFile Fd SystemFile) (wanted : Wanted) :
    CarriesReasons D file (D.raw wanted) (D.system wanted)
        (fun e => (file.decode D wanted).1 = .error e) ↔
      ¬ (file.rawler = true ∧
        (∃ rawError, guarded (D.raw wanted file.source) = .error rawError ∧ rawError ≠ "") ∧
        (file.systemDecoder D).isOk = false) := by
  have htried : ∀ {rawError}, file.rawler = true →
      guarded (D.raw wanted file.source) = .error rawError →
      file.tried D wanted = .error rawError := by
    intro rawError hrawler hraw
    rw [tried, if_pos hrawler, hraw]
  constructor
  · rintro hcarries ⟨hrawler, ⟨rawError, hraw, hne⟩, hopen⟩
    obtain ⟨systemError, hby⟩ := file.exists_bySystem_eq_error D hopen (D.system wanted)
    have hresult := file.decode_eq_error D (htried hrawler hraw) hby
    rw [hopen, hcarries.both hrawler rawError systemError hraw hby] at hresult
    exact join_ne hne systemError (Except.error.inj hresult)
  · intro hkept
    refine ⟨?_, ?_⟩
    · intro hrawler rawError systemError hraw hby
      rw [file.decode_eq_error D (htried hrawler hraw) hby]
      by_cases hopen : (file.systemDecoder D).isOk = true
      · rw [if_pos hopen]
      · obtain rfl : rawError = "" := by
          by_contra hne
          exact hkept ⟨hrawler, ⟨rawError, hraw, hne⟩, Bool.eq_false_iff.mpr hopen⟩
        rw [if_neg hopen, join_empty]
    · intro hrawler systemError hby
      rw [file.decode_eq_error D (by rw [tried, hrawler]; rfl) hby, join_empty, ite_self]

/-! ## Replies -/

theorem failed_inj {id : UInt64} {e e' : String} :
    (failed id e : Answer Pixels F32) = failed id e' ↔ e = e' := by
  simp [failed]

theorem answer_eq_failed_iff {id micros : UInt64} {wanted : Wanted}
    {result : Except String (Decoded Pixels F32 wanted)} {e : String} :
    wanted.answer id micros result = failed id e ↔ result = .error e := by
  cases result with
  | error error =>
    rw [Wanted.answer, failed_inj, Except.error.injEq]
  | ok image => cases wanted <;> simp [Wanted.answer, Wanted.reply, failed]

theorem handle_eq_failed_iff {files : Files Fd SystemFile} {id : UInt64}
    {file : OpenFile Fd SystemFile} (hfile : files[id]? = some file) (sandboxed : Bool)
    (wanted : Wanted) (fd : Option Fd) (micros : UInt64) (escapes : List String) (e : String) :
    (handle D sandboxed files ⟨wanted.request id, fd, micros, escapes⟩).1 = failed id e ↔
      (file.decode D wanted).1 = .error e := by
  rw [handle_fst_of_open D hfile, answer_eq_failed_iff]

theorem OpenFile.Kept.rawReasonLost_iff {file : OpenFile Fd SystemFile} (h : file.Kept D)
    (raw : List UInt8 → Outcome α) :
    RawReasonLost D file.stored raw ↔ file.rawler = true ∧
      (∃ rawError, guarded (raw file.source) = .error rawError ∧ rawError ≠ "") ∧
      (file.systemDecoder D).isOk = false := by
  have hsystem : (file.systemDecoder D).isOk =
      (guarded (D.systemOpen file.source file.extension)).isOk := by
    rw [h.systemDecoder_eq]
    cases guarded (D.systemOpen file.source file.extension) <;> rfl
  rw [RawReasonLost, h.rawler, hsystem]
  exact Iff.rfl

theorem carries_reasons_iff {sandboxed : Bool} {files : Files Fd SystemFile} {id : UInt64}
    {file : OpenFile Fd SystemFile} (hfile : files[id]? = some file) (hkept : file.Kept D)
    (wanted : Wanted) (fd : Option Fd) (micros : UInt64) (escapes : List String) :
    CarriesReasons D file (D.raw wanted) (D.system wanted) (fun e =>
        (handle D sandboxed files ⟨wanted.request id, fd, micros, escapes⟩).1 = failed id e) ↔
      ¬ RawReasonLost D file.stored (D.raw wanted) := by
  simp only [handle_eq_failed_iff D hfile]
  rw [file.carriesReasons_decode_iff, hkept.rawReasonLost_iff]

/-- **A failure carries both reasons unless the raw decoder's is lost.**  In every
state a session reaches, a `Preview` or a `Sensor` of an open file that fails in
both decoders says both reasons, or the system's alone when the raw decoder was
not tried, exactly when it is not the case that the raw decoder failed with a
reason and the system could not open the file. -/
theorem failed_carries_reasons_iff (sandboxed : Bool) (requests : List (Received Fd)) (id : UInt64)
    (file : OpenFile Fd SystemFile)
    (hfile : (Machine.run (handle D sandboxed) ∅ requests).2[id]? = some file)
    (fd : Option Fd) (micros : UInt64) (escapes : List String) :
    (CarriesReasons D file D.preview D.systemPreview (fun e =>
        (handle D sandboxed (Machine.run (handle D sandboxed) ∅ requests).2
          ⟨.preview id, fd, micros, escapes⟩).1 = failed id e) ↔
      ¬ RawReasonLost D file.stored D.preview) ∧
    (CarriesReasons D file D.sensor D.systemDevelop (fun e =>
        (handle D sandboxed (Machine.run (handle D sandboxed) ∅ requests).2
          ⟨.sensor id, fd, micros, escapes⟩).1 = failed id e) ↔
      ¬ RawReasonLost D file.stored D.sensor) := by
  have hkept := kept_of_run D hfile
  exact ⟨carries_reasons_iff D hfile hkept .preview fd micros escapes,
    carries_reasons_iff D hfile hkept .sensor fd micros escapes⟩

/-! ## Without system decoders -/

/-- The decoders of a platform that has none of its own (`system/unsupported.rs`):
every file is refused. -/
def Decoders.unsupported : Decoders Fd Empty Pixels F32 where
  mapFile := D.mapFile
  info := D.info
  preview := D.preview
  sensor := D.sensor
  systemOpen _ _ := .err "format not supported on this platform"
  systemPreview := nofun
  systemDevelop := nofun

/-- **There every reason of the raw decoder is lost** that it gives for a file
whose headers it read. -/
theorem rawReasonLost_unsupported_iff (file : Stored) (raw : List UInt8 → Outcome α) :
    RawReasonLost D.unsupported file raw ↔ (guarded (D.info file.bytes)).isOk = true ∧
      ∃ rawError, guarded (raw file.bytes) = .error rawError ∧ rawError ≠ "" := by
  rw [RawReasonLost]
  constructor
  · rintro ⟨hinfo, hraw, -⟩
    exact ⟨hinfo, hraw⟩
  · rintro ⟨hinfo, hraw⟩
    exact ⟨hinfo, hraw, rfl⟩

end Reasons

def plain : FileInfo Unit := ⟨.raw, true, "", "", 0, ⟨none, none, none, none, none, none⟩⟩

/-- A raw decoder that reads the headers of a file without an embedded preview. -/
def noPreview : Decoders Unit Empty Unit Unit where
  mapFile _ := .ok []
  info _ := .ok plain
  preview _ := .err "no embedded preview"
  sensor _ := .panic
  systemOpen _ _ := .err "format not supported on this platform"
  systemPreview := nofun
  systemDevelop := nofun

def openOne : Received Unit := ⟨.open 1 none, some (), 0, []⟩

def openedOne : OpenFile Unit Empty := ⟨[], (), true, none, none⟩

theorem run_openOne :
    (Machine.run (handle noPreview false) ∅ [openOne]).2[(1 : UInt64)]? = some openedOne :=
  Std.HashMap.getElem?_insert_self

/-- The raw decoder's reason is lost for the preview of that file, and for its
samples. -/
theorem failed_carries_reasons_iff_noPreview :
    ¬ CarriesReasons noPreview openedOne noPreview.preview noPreview.systemPreview (fun e =>
      (handle noPreview false (Machine.run (handle noPreview false) ∅ [openOne]).2
        ⟨.preview 1, none, 0, []⟩).1 = failed 1 e) := by
  have h := failed_carries_reasons_iff noPreview false [openOne] 1 openedOne run_openOne none 0 []
  rw [h.1, not_not]
  exact ⟨rfl, ⟨"no embedded preview", rfl, by decide⟩, rfl⟩

/-- **The reply names the platform and not the preview that is missing.** -/
theorem preview_failure_drops_raw_reason :
    (handle noPreview false (Machine.run (handle noPreview false) ∅ [openOne]).2
      ⟨.preview 1, none, 0, []⟩).1 = failed 1 "format not supported on this platform" ∧
    ¬ ∀ (requests : List (Received Unit)) (id : UInt64) (file : OpenFile Unit Empty),
      (Machine.run (handle noPreview false) ∅ requests).2[id]? = some file →
      CarriesReasons noPreview file noPreview.preview noPreview.systemPreview (fun e =>
        (handle noPreview false (Machine.run (handle noPreview false) ∅ requests).2
          ⟨.preview id, none, 0, []⟩).1 = failed id e) := by
  have hreply : (handle noPreview false (Machine.run (handle noPreview false) ∅ [openOne]).2
      ⟨.preview 1, none, 0, []⟩).1 = failed 1 "format not supported on this platform" :=
    (handle_eq_failed_iff noPreview run_openOne false .preview none 0 [] _).mpr rfl
  refine ⟨hreply, ?_⟩
  intro h
  have hboth := (h [openOne] 1 openedOne run_openOne).both rfl "no embedded preview"
    "format not supported on this platform" rfl rfl
  rw [hreply, failed_inj] at hboth
  exact absurd hboth (by decide)

end RawHelper.Session
