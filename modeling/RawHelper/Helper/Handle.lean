import RawHelper.Lib.Query
import RawHelper.Protocol.Messages

/-!
# Answering a request

`helper/src/main.rs`: `handle` answers one request, with the files open so far.  It
keeps for each open file whether rawler recognised it, and its system decoder once one
was needed; a failed attempt is kept too.

What rawler and the system make of a file's bytes is not in this repository, so the
code is a computation that asks (`Query.Asks`), and each of its calls is answered with
a result, an error or a panic.  With decoders that are functions (`Decoders`) it comes
to the `handle` of `Session`, and `handled` says all that a request can then do.  A
decoder may also not return: the allocator's cap ends the process in the middle of a
call, and nothing keeps a decoder from looping.  `attempt` is the same computation when
some calls are like that.
-/

namespace RawHelper.Session

/-- Files kept open between requests. -/
def maxOpenFiles : Nat := 8

/-- What a decoding step comes to, if it returns. -/
inductive Outcome (α : Type) where
  | ok (a : α)
  | err (error : String)
  | panic

def Outcome.bind {α β : Type} : Outcome α → (α → Outcome β) → Outcome β
  | .ok a, f => f a
  | .err error, _ => .err error
  | .panic, _ => .panic

instance : Monad Outcome where
  pure := .ok
  bind := .bind

@[simp] theorem Outcome.ok_bind {α β : Type} (a : α) (f : α → Outcome β) :
    (Outcome.ok a >>= f) = f a := rfl

/-- A step that succeeds after another. -/
theorem Outcome.bind_eq_ok {α β : Type} {x : Outcome α} {f : α → Outcome β} {b : β}
    (h : (x >>= f) = .ok b) : ∃ a, x = .ok a ∧ f a = .ok b := by
  cases x with
  | ok a => exact ⟨a, rfl, h⟩
  | err error => cases h
  | panic => cases h

/-- Runs a decoding step, turning a panic inside the decoder into an error. -/
def guarded {α : Type} : Outcome α → Except String α
  | .ok a => .ok a
  | .err error => .error error
  | .panic => .error "decoder panicked"

theorem guarded_eq_ok {α : Type} {x : Outcome α} {a : α} (h : guarded x = .ok a) : x = .ok a := by
  cases x with
  | ok b => exact congrArg Outcome.ok (Except.ok.inj h)
  | err e => cases h
  | panic => cases h

/-- A request as `handle` finds it: the descriptor that came with it, the time it
takes, and what its sandbox lets through. -/
structure Received (Fd : Type) where
  request : Request
  fd : Option Fd
  micros : UInt64
  escapes : List String

/-- Both decoders' reasons, when both failed. -/
def join (rawError systemError : String) : String :=
  if rawError.isEmpty then systemError else rawError ++ "; system: " ++ systemError

/-- A reply and the buffer attached to it. -/
abbrev Answer (Pixels F32 : Type) := Reply F32 × Option Pixels

def failed {Pixels F32 : Type} (id : UInt64) (error : String) : Answer Pixels F32 :=
  (.failed id error, none)

structure OpenFile (Fd SystemFile : Type) where
  source : List UInt8
  fd : Fd
  /-- Whether rawler recognised the file. -/
  rawler : Bool
  /-- System decoder, created on first need. -/
  system : Option (Except String SystemFile)
  extension : Option String

abbrev Files (Fd SystemFile : Type) := Std.HashMap UInt64 (OpenFile Fd SystemFile)

end RawHelper.Session

namespace RawHelper.Calls

open Query Query.Asks Session

variable {Fd SystemFile Pixels F32 : Type}

/-! ## The calls -/

/-- What is decoded of an open file. -/
inductive Wanted where
  | preview
  | sensor

/-- The functions of rawler and of the system that are called.  `Pixels` is what a
shared buffer holds. -/
inductive Call (Fd SystemFile : Type) where
  | mapFile (fd : Fd)
  | info (source : List UInt8)
  | raw (wanted : Wanted) (source : List UInt8)
  | systemOpen (source : List UInt8) (extension : Option String)
  | system (wanted : Wanted) (file : SystemFile)

abbrev Decoded (Pixels F32 : Type) : Wanted → Type
  | .preview => ImageLayout × Pixels
  | .sensor => SensorLayout × SensorInfo F32 × Pixels

abbrev Response (Pixels F32 : Type) : Call Fd SystemFile → Type
  | .mapFile _ => Except String (List UInt8)
  | .info _ => Outcome (FileInfo F32)
  | .raw wanted _ | .system wanted _ => Outcome (Decoded Pixels F32 wanted)
  | .systemOpen _ _ => Outcome (SystemFile × FileInfo F32)

abbrev Asking (Fd SystemFile Pixels F32 α : Type) : Type :=
  Asks (Call Fd SystemFile) (Response Pixels F32) α

/-! ## The code -/

/-- The system decoder, kept in the file from then on. -/
def getSystem (file : OpenFile Fd SystemFile) :
    Asking Fd SystemFile Pixels F32 (Except String SystemFile × OpenFile Fd SystemFile) :=
  match file.system with
  | some system => return (system, file)
  | none => do
    let opened ← call (.systemOpen file.source file.extension)
    let system := (guarded opened).map Prod.fst
    return (system, { file with system := some system })

/-- What rawler makes of an open file, if it reads it. -/
def fromRawler (wanted : Wanted) (file : OpenFile Fd SystemFile) :
    Asking Fd SystemFile Pixels F32 (Except String (Decoded Pixels F32 wanted)) :=
  if file.rawler then do
    let image ← call (.raw wanted file.source)
    return guarded image
  else
    return .error ""

/-- What `Preview` and `Sensor` do with an open file. -/
def decode (wanted : Wanted) (file : OpenFile Fd SystemFile) :
    Asking Fd SystemFile Pixels F32
      (Except String (Decoded Pixels F32 wanted) × OpenFile Fd SystemFile) := do
  match ← fromRawler wanted file with
  | .ok image => return (.ok image, file)
  | .error rawError =>
    match ← getSystem file with
    -- `file.system()?`
    | (.error error, file) => return (.error error, file)
    | (.ok decoder, file) =>
      let image ← call (.system wanted decoder)
      return ((guarded image).mapError (join rawError), file)

/-- What `Open` makes of the descriptor: the headers and the file to keep, or the error
it fails with. -/
def openFile (extension : Option String) (fd : Option Fd) (openFiles : Nat) :
    Asking Fd SystemFile Pixels F32 (Except String (FileInfo F32 × OpenFile Fd SystemFile)) :=
  match fd with
  | none => return .error "no file descriptor attached"
  | some fd =>
    if maxOpenFiles ≤ openFiles then
      return .error "too many open files"
    else do
      let mapped : Except String (List UInt8) ← call (Call.mapFile fd)
      match mapped with
      | .error error => return .error ("cannot map file: " ++ error)
      | .ok source =>
        let info ← call (.info source)
        match guarded info with
        | .ok info =>
          return .ok (info, { source, fd, rawler := true, system := none, extension })
        | .error rawError =>
          let opened ← call (.systemOpen source extension)
          match guarded opened with
          | .ok (file, info) =>
            return .ok (info, { source, fd, rawler := false, system := some (.ok file), extension })
          | .error systemError => return .error (rawError ++ "; system: " ++ systemError)

/-- Answers one request. -/
def handle (sandboxed : Bool) (files : Files Fd SystemFile) (received : Received Fd) :
    Asking Fd SystemFile Pixels F32 (Answer Pixels F32 × Files Fd SystemFile) :=
  let micros := received.micros
  match received.request with
  | .hello _ => return ((.hello protocolVersion "rawler 0.8.0" sandboxed, none), files)
  | .open id extension => do
    match ← openFile extension received.fd files.size with
    | .ok (info, file) => return ((.opened id info micros, none), files.insert id file)
    | .error error => return (failed id error, files)
  | .preview id =>
    match files[id]? with
    | none => return (failed id "file not open", files)
    | some file => do
      match ← decode .preview file with
      | (.ok (image, buffer), file) =>
        return ((.preview id image micros, some buffer), files.insert id file)
      | (.error error, file) => return (failed id error, files.insert id file)
  | .sensor id =>
    match files[id]? with
    | none => return (failed id "file not open", files)
    | some file => do
      match ← decode .sensor file with
      | (.ok (sensor, info, buffer), file) =>
        return ((.sensor id sensor info micros, some buffer), files.insert id file)
      | (.error error, file) => return (failed id error, files.insert id file)
  | .sandboxCheck => return ((.sandboxCheck sandboxed received.escapes, none), files)
  | .close id => return ((.closed id, none), files.erase id)

/-! ### Previews and samples -/

def Wanted.request : Wanted → UInt64 → Request
  | .preview => .preview
  | .sensor => .sensor

/-- The reply to a request for it. -/
def Wanted.reply (id micros : UInt64) : ∀ wanted, Decoded Pixels F32 wanted → Answer Pixels F32
  | .preview, (image, buffer) => (.preview id image micros, some buffer)
  | .sensor, (layout, info, buffer) => (.sensor id layout info micros, some buffer)

def Wanted.answer (id micros : UInt64) (wanted : Wanted) :
    Except String (Decoded Pixels F32 wanted) → Answer Pixels F32
  | .ok image => wanted.reply id micros image
  | .error error => failed id error

theorem handle_absent {files : Files Fd SystemFile} {id : UInt64} (h : files[id]? = none)
    (sandboxed : Bool) (wanted : Wanted) (fd : Option Fd) (micros : UInt64)
    (escapes : List String) :
    (handle sandboxed files ⟨wanted.request id, fd, micros, escapes⟩ :
        Asking Fd SystemFile Pixels F32 _) = return (failed id "file not open", files) := by
  cases wanted with
  | preview => simp only [handle, Wanted.request, h]
  | sensor => simp only [handle, Wanted.request, h]

/-- Both go through `decode`. -/
theorem handle_decoded {files : Files Fd SystemFile} {id : UInt64} {file : OpenFile Fd SystemFile}
    (h : files[id]? = some file) (sandboxed : Bool) (wanted : Wanted) (fd : Option Fd)
    (micros : UInt64) (escapes : List String) :
    (handle sandboxed files ⟨wanted.request id, fd, micros, escapes⟩ :
        Asking Fd SystemFile Pixels F32 _) = do
      let (result, file) ← decode wanted file
      return (wanted.answer id micros result, files.insert id file) := by
  cases wanted with
  | preview =>
    simp only [handle, Wanted.request, h]
    refine congrArg (decode .preview file >>= ·) (funext ?_)
    rintro ⟨error | ⟨image, buffer⟩, file⟩ <;> rfl
  | sensor =>
    simp only [handle, Wanted.request, h]
    refine congrArg (decode .sensor file >>= ·) (funext ?_)
    rintro ⟨error | ⟨layout, info, buffer⟩, file⟩ <;> rfl

end RawHelper.Calls

namespace RawHelper.Session

open Query Query.Asks Calls

/-! ## Decoders that are functions -/

/-- Mapping a descriptor, and decoding: by rawler, by the system. -/
structure Decoders (Fd SystemFile Pixels F32 : Type) where
  mapFile : Fd → Except String (List UInt8)
  info : List UInt8 → Outcome (FileInfo F32)
  preview : List UInt8 → Outcome (ImageLayout × Pixels)
  sensor : List UInt8 → Outcome (SensorLayout × SensorInfo F32 × Pixels)
  systemOpen : List UInt8 → Option String → Outcome (SystemFile × FileInfo F32)
  systemPreview : SystemFile → Outcome (ImageLayout × Pixels)
  systemDevelop : SystemFile → Outcome (SensorLayout × SensorInfo F32 × Pixels)

section Functions

variable {Fd SystemFile Pixels F32 : Type} (D : Decoders Fd SystemFile Pixels F32)

namespace Decoders

def response : ∀ call : Call Fd SystemFile, Response Pixels F32 call
  | .mapFile fd => D.mapFile fd
  | .info source => D.info source
  | .raw .preview source => D.preview source
  | .raw .sensor source => D.sensor source
  | .systemOpen source extension => D.systemOpen source extension
  | .system .preview file => D.systemPreview file
  | .system .sensor file => D.systemDevelop file

def raw (wanted : Wanted) (source : List UInt8) : Outcome (Decoded Pixels F32 wanted) :=
  D.response (.raw wanted source)

def system (wanted : Wanted) (file : SystemFile) : Outcome (Decoded Pixels F32 wanted) :=
  D.response (.system wanted file)

end Decoders

/-- Answers one request. -/
def handle (sandboxed : Bool) (files : Files Fd SystemFile) (received : Received Fd) :
    Answer Pixels F32 × Files Fd SystemFile :=
  eval D.response (Calls.handle sandboxed files received)

/-- Answers one request, unless a call made for it is one that does not return. -/
def attempt (ends : Call Fd SystemFile → Bool) (sandboxed : Bool) (files : Files Fd SystemFile)
    (received : Received Fd) : Option (Answer Pixels F32 × Files Fd SystemFile) :=
  Asks.attempt D.response ends (Calls.handle sandboxed files received)

theorem handle_of_attempt {ends : Call Fd SystemFile → Bool} {sandboxed : Bool}
    (files : Files Fd SystemFile) (received : Received Fd)
    (out : Answer Pixels F32 × Files Fd SystemFile)
    (h : attempt D ends sandboxed files received = some out) :
    handle D sandboxed files received = out :=
  eval_of_attempt h

/-! ### An open file -/

def OpenFile.decode (file : OpenFile Fd SystemFile) (wanted : Wanted) :
    Except String (Decoded Pixels F32 wanted) × OpenFile Fd SystemFile :=
  eval D.response (Calls.decode wanted file)

/-- What rawler makes of it, if it reads it. -/
def OpenFile.tried (file : OpenFile Fd SystemFile) (wanted : Wanted) :
    Except String (Decoded Pixels F32 wanted) :=
  if file.rawler then guarded (D.raw wanted file.source) else .error ""

/-- The system's decoder for a file: the one kept, a failure included, or else
one opened now. -/
def OpenFile.systemDecoder (file : OpenFile Fd SystemFile) : Except String SystemFile :=
  match file.system with
  | some kept => kept
  | none => (guarded (D.systemOpen file.source file.extension)).map Prod.fst

theorem eval_getSystem (file : OpenFile Fd SystemFile) :
    eval D.response (getSystem file) =
      (file.systemDecoder D, { file with system := some (file.systemDecoder D) }) := by
  obtain ⟨source, fd, rawler, _ | system, extension⟩ := file <;> rfl

/-- **Decoding what is open**: rawler first, and the system when it is not tried or
fails.  Nothing changes of the file but the system decoder it keeps. -/
theorem OpenFile.decode_def (file : OpenFile Fd SystemFile) (wanted : Wanted) :
    file.decode D wanted =
      match file.tried D wanted with
      | .ok image => (.ok image, file)
      | .error rawError =>
        (file.systemDecoder D >>= fun decoder =>
            (guarded (D.system wanted decoder)).mapError (join rawError),
          { file with system := some (file.systemDecoder D) }) := by
  have htried : eval D.response (fromRawler wanted file) = file.tried D wanted := by
    rw [fromRawler, tried]
    split <;> rfl
  rw [decode, Calls.decode, eval_bind, htried]
  cases file.tried D wanted with
  | ok image => rfl
  | error rawError =>
    dsimp only
    rw [eval_bind, eval_getSystem]
    cases file.systemDecoder D <;> rfl

/-- The reply to a request for what is open. -/
theorem handle_fst_of_open {files : Files Fd SystemFile} {id : UInt64}
    {file : OpenFile Fd SystemFile} (h : files[id]? = some file) (sandboxed : Bool)
    (wanted : Wanted) (fd : Option Fd) (micros : UInt64) (escapes : List String) :
    (handle D sandboxed files ⟨wanted.request id, fd, micros, escapes⟩).1 =
      wanted.answer id micros (file.decode D wanted).1 := by
  rw [handle, handle_decoded h, eval_bind]
  rfl

/-! ### What a request can do -/

/-- What `Open` comes to: the three errors before anything is decoded, what rawler
reads, what only the system reads, and the error of both. -/
inductive Opens (extension : Option String) (openFiles : Nat) :
    Option Fd → Except String (FileInfo F32 × OpenFile Fd SystemFile) → Prop
  | unattached : Opens extension openFiles none (.error "no file descriptor attached")
  | full (fd : Fd) : maxOpenFiles ≤ openFiles →
      Opens extension openFiles (some fd) (.error "too many open files")
  | unmapped {fd : Fd} {error : String} : openFiles < maxOpenFiles → D.mapFile fd = .error error →
      Opens extension openFiles (some fd) (.error ("cannot map file: " ++ error))
  | raw {fd : Fd} {source : List UInt8} {info : FileInfo F32} : openFiles < maxOpenFiles →
      D.mapFile fd = .ok source → D.info source = .ok info →
      Opens extension openFiles (some fd) (.ok (info, ⟨source, fd, true, none, extension⟩))
  | system {fd : Fd} {source : List UInt8} {rawError : String} {file : SystemFile}
      {info : FileInfo F32} : openFiles < maxOpenFiles → D.mapFile fd = .ok source →
      guarded (D.info source) = .error rawError → D.systemOpen source extension = .ok (file, info) →
      Opens extension openFiles (some fd)
        (.ok (info, ⟨source, fd, false, some (.ok file), extension⟩))
  | unread {fd : Fd} {source : List UInt8} {rawError systemError : String} :
      openFiles < maxOpenFiles → D.mapFile fd = .ok source →
      guarded (D.info source) = .error rawError →
      guarded (D.systemOpen source extension) = .error systemError →
      Opens extension openFiles (some fd) (.error (rawError ++ "; system: " ++ systemError))

theorem opens_openFile (extension : Option String) (fd : Option Fd) (openFiles : Nat) :
    Opens D extension openFiles fd (eval D.response (openFile extension fd openFiles)) := by
  unfold openFile
  cases fd with
  | none => exact .unattached
  | some fd =>
    dsimp only
    split_ifs with hfull
    · exact .full fd hfull
    · rw [not_le] at hfull
      rw [eval_bind, eval_call, show D.response (.mapFile fd) = D.mapFile fd from rfl]
      cases hmap : D.mapFile fd with
      | error error => exact .unmapped hfull hmap
      | ok source =>
        dsimp only
        rw [eval_bind, eval_call, show D.response (.info source) = D.info source from rfl]
        cases hinfo : guarded (D.info source) with
        | ok info => exact .raw hfull hmap (guarded_eq_ok hinfo)
        | error rawError =>
          dsimp only
          rw [eval_bind, eval_call,
            show D.response (.systemOpen source extension) = D.systemOpen source extension from rfl]
          cases hopen : guarded (D.systemOpen source extension) with
          | ok opened => exact .system hfull hmap hinfo (guarded_eq_ok hopen)
          | error systemError => exact .unread hfull hmap hinfo hopen

/-- All that a request can do: its reply, and the files open after it. -/
inductive Handled (sandboxed : Bool) (files : Files Fd SystemFile) :
    Received Fd → Answer Pixels F32 × Files Fd SystemFile → Prop
  | hello (version fd micros escapes) : Handled sandboxed files
      ⟨.hello version, fd, micros, escapes⟩
      ((.hello protocolVersion "rawler 0.8.0" sandboxed, none), files)
  | refused {id extension fd error} (micros escapes) :
      Opens D extension files.size fd (.error error) →
      Handled sandboxed files ⟨.open id extension, fd, micros, escapes⟩ (failed id error, files)
  | opened {id extension fd info file} (micros escapes) :
      Opens D extension files.size fd (.ok (info, file)) →
      Handled sandboxed files ⟨.open id extension, fd, micros, escapes⟩
        ((.opened id info micros, none), files.insert id file)
  | absent {id : UInt64} (wanted : Wanted) (fd micros escapes) : files[id]? = none →
      Handled sandboxed files ⟨wanted.request id, fd, micros, escapes⟩
        (failed id "file not open", files)
  | decoded {id : UInt64} {file} (wanted : Wanted) (fd micros escapes) : files[id]? = some file →
      Handled sandboxed files ⟨wanted.request id, fd, micros, escapes⟩
        (wanted.answer id micros (file.decode D wanted).1,
          files.insert id (file.decode D wanted).2)
  | close (id fd micros escapes) : Handled sandboxed files ⟨.close id, fd, micros, escapes⟩
      ((.closed id, none), files.erase id)
  | sandboxCheck (fd micros escapes) : Handled sandboxed files
      ⟨.sandboxCheck, fd, micros, escapes⟩ ((.sandboxCheck sandboxed escapes, none), files)

theorem handled_wanted (sandboxed : Bool) (files : Files Fd SystemFile) (wanted : Wanted)
    (id : UInt64) (fd : Option Fd) (micros : UInt64) (escapes : List String) :
    Handled D sandboxed files ⟨wanted.request id, fd, micros, escapes⟩
      (handle D sandboxed files ⟨wanted.request id, fd, micros, escapes⟩) := by
  rw [handle]
  cases hfile : files[id]? with
  | none =>
    rw [handle_absent hfile]
    exact .absent wanted fd micros escapes hfile
  | some file =>
    rw [handle_decoded hfile, eval_bind]
    exact .decoded wanted fd micros escapes hfile

/-- **What a request does** is one of these. -/
theorem handled (sandboxed : Bool) (files : Files Fd SystemFile) (received : Received Fd) :
    Handled D sandboxed files received (handle D sandboxed files received) := by
  obtain ⟨request, fd, micros, escapes⟩ := received
  cases request with
  | hello version => exact .hello version fd micros escapes
  | «open» id extension =>
    have hopens := opens_openFile D extension fd files.size
    rw [handle, Calls.handle]
    dsimp only
    rw [eval_bind]
    generalize eval D.response (openFile extension fd files.size) = opened at hopens ⊢
    rcases opened with error | ⟨info, file⟩
    · exact .refused micros escapes hopens
    · exact .opened micros escapes hopens
  | preview id => exact handled_wanted D sandboxed files .preview id fd micros escapes
  | sensor id => exact handled_wanted D sandboxed files .sensor id fd micros escapes
  | close id => exact .close id fd micros escapes
  | sandboxCheck => exact .sandboxCheck fd micros escapes

/-- What is opened is the file its descriptor maps to. -/
theorem Opens.file_eq {extension : Option String} {openFiles : Nat} {fd : Option Fd}
    {info : FileInfo F32} {file : OpenFile Fd SystemFile}
    (h : Opens D extension openFiles fd (.ok (info, file))) :
    fd = some file.fd ∧ file.extension = extension ∧ D.mapFile file.fd = .ok file.source ∧
      openFiles < maxOpenFiles := by
  cases h with
  | raw hroom hmap _ => exact ⟨rfl, rfl, hmap, hroom⟩
  | system hroom hmap _ _ => exact ⟨rfl, rfl, hmap, hroom⟩

/-- Decoding may make a file keep its system decoder, and nothing else. -/
theorem OpenFile.decode_same (file : OpenFile Fd SystemFile) (wanted : Wanted) :
    ∃ kept, (file.decode D wanted).2 = { file with system := kept } := by
  rw [decode_def]
  cases file.tried D wanted with
  | ok image => exact ⟨file.system, rfl⟩
  | error rawError => exact ⟨_, rfl⟩

end Functions

/-! ## Tables of the open files -/

section Tables

variable {Fd SystemFile β : Type}

/-- A table has an entry for each id, of what is open under it. -/
def Tabled (P : Option (OpenFile Fd SystemFile) → β → Prop) (files : Files Fd SystemFile)
    (table : UInt64 → β) : Prop :=
  ∀ id : UInt64, P files[id]? (table id)

theorem getElem?_insert_eq_update {α : Type} (m : Std.HashMap UInt64 α) (id : UInt64) (a : α) :
    (fun id' : UInt64 => (m.insert id a)[id']?) =
      Function.update (fun id' : UInt64 => m[id']?) id (some a) := by
  funext id'
  rw [Std.HashMap.getElem?_insert]
  by_cases heq : id = id'
  · subst heq
    rw [if_pos (by simp), Function.update_self]
  · rw [if_neg (by simpa using heq), Function.update_of_ne (Ne.symm heq)]

theorem getElem?_erase_eq_update {α : Type} (m : Std.HashMap UInt64 α) (id : UInt64) :
    (fun id' : UInt64 => (m.erase id)[id']?) =
      Function.update (fun id' : UInt64 => m[id']?) id none := by
  funext id'
  rw [Std.HashMap.getElem?_erase]
  by_cases heq : id = id'
  · subst heq
    rw [if_pos (by simp), Function.update_self]
  · rw [if_neg (by simpa using heq), Function.update_of_ne (Ne.symm heq)]

namespace Tabled

variable {P : Option (OpenFile Fd SystemFile) → β → Prop} {files : Files Fd SystemFile}
  {table : UInt64 → β}

theorem empty (h : ∀ id, P none (table id)) : Tabled P (∅ : Files Fd SystemFile) table := by
  intro id
  rw [Std.HashMap.getElem?_empty]
  exact h id

theorem update {entry : Option (OpenFile Fd SystemFile)} {b : β} {files' : Files Fd SystemFile}
    (h : Tabled P files table) {id : UInt64} (hentry : P entry b)
    (hfiles : (fun id' : UInt64 => files'[id']?) =
      Function.update (fun id' : UInt64 => files[id']?) id entry) :
    Tabled P files' (Function.update table id b) := by
  intro id'
  rw [congrFun hfiles id']
  by_cases heq : id' = id
  · subst heq
    rw [Function.update_self, Function.update_self]
    exact hentry
  · rw [Function.update_of_ne heq, Function.update_of_ne heq]
    exact h id'

theorem insert (h : Tabled P files table) (id : UInt64) {file : OpenFile Fd SystemFile} {b : β}
    (hfile : P (some file) b) : Tabled P (files.insert id file) (Function.update table id b) :=
  h.update hfile (getElem?_insert_eq_update files id file)

theorem erase (h : Tabled P files table) (id : UInt64) {b : β} (hnone : P none b) :
    Tabled P (files.erase id) (Function.update table id b) :=
  h.update hnone (getElem?_erase_eq_update files id)

/-- A file may change under its entry. -/
theorem keep (h : Tabled P files table) {id : UInt64} {file : OpenFile Fd SystemFile}
    (hfile : P (some file) (table id)) : Tabled P (files.insert id file) table := by
  have hinsert := h.insert id hfile
  rwa [Function.update_eq_self] at hinsert

end Tabled

end Tables

end RawHelper.Session
