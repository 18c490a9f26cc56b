import RawHelper.Helper.Session

/-!
# What a session asks of the decoders

Rawler and the system's decoders may answer a call in any way, and the same call
differently each time.  A session of `handle` (`helper/src/main.rs`) is then one of the
`Runs` of the computation that asks them.

`Next` is how a file may be dealt with, call by call: it is mapped, its headers are
read, and from then on rawler's decoders are asked only if rawler read it, the
system's only once the system has opened it, which is asked for once.  `session_calls`
says that the calls of every session follow it, whatever the decoders do, and that
what they give is what is sent.
-/

namespace RawHelper.Calls

open Query Query.Asks Session

/-- **The session of `Session`**, when the answers are a function of the calls. -/
theorem runs_eq_run {Fd SystemFile Pixels F32 : Type} (D : Decoders Fd SystemFile Pixels F32)
    {sandboxed : Bool}
    {exchanges : List (Exchange (Response Pixels F32) (Received Fd) (Answer Pixels F32))}
    {files : Files Fd SystemFile} (h : Runs (handle sandboxed) ∅ exchanges files)
    (hD : ∀ exchange ∈ exchanges, ∀ e ∈ exchange.events, e.2 = D.response e.1) :
    Machine.run (Session.handle D sandboxed) ∅ (exchanges.map Exchange.input) =
      (exchanges.map Exchange.output, files) := h.eq_run hD

/-! ## How a file is dealt with -/

section Life

variable {Fd SystemFile Pixels F32 : Type}

/-- A call and its answer. -/
abbrev Called (Fd SystemFile Pixels F32 : Type) : Type :=
  Event (Q := Call Fd SystemFile) (Response Pixels F32)

/-- How far a descriptor has come. -/
inductive Stage (SystemFile : Type) where
  | unseen
  | mapped (source : List UInt8)
  /-- Its headers have been asked for.  Whether rawler reads it, and what the system
  made of it if it was asked. -/
  | read (source : List UInt8) (rawler : Bool) (system : Option (Except String SystemFile))

/-- What may be asked at a stage, and where its answer leads. -/
inductive Next (fd : Fd) (extension : Option String) :
    Stage SystemFile → Called Fd SystemFile Pixels F32 → Stage SystemFile → Prop
  | mapFile (source : List UInt8) :
      Next fd extension .unseen ⟨.mapFile fd, .ok source⟩ (.mapped source)
  | mapFails (error : String) :
      Next fd extension .unseen ⟨.mapFile fd, .error error⟩ .unseen
  | info (source : List UInt8) (info : Outcome (FileInfo F32)) :
      Next fd extension (.mapped source) ⟨.info source, info⟩
        (.read source (guarded info).isOk none)
  | raw (source : List UInt8) (system : Option (Except String SystemFile)) (wanted : Wanted)
      (image : Outcome (Decoded Pixels F32 wanted)) :
      Next fd extension (.read source true system) ⟨.raw wanted source, image⟩
        (.read source true system)
  | systemOpen (source : List UInt8) (rawler : Bool)
      (opened : Outcome (SystemFile × FileInfo F32)) :
      Next fd extension (.read source rawler none) ⟨.systemOpen source extension, opened⟩
        (.read source rawler (some ((guarded opened).map Prod.fst)))
  | system (source : List UInt8) (rawler : Bool) (file : SystemFile) (wanted : Wanted)
      (image : Outcome (Decoded Pixels F32 wanted)) :
      Next fd extension (.read source rawler (some (.ok file))) ⟨.system wanted file, image⟩
        (.read source rawler (some (.ok file)))

def isSystemOpen : Called Fd SystemFile Pixels F32 → Bool
  | ⟨.systemOpen _ _, _⟩ => true
  | _ => false

/-- How often the system may still be asked to open the file. -/
def Stage.openings : Stage SystemFile → Nat
  | .read _ _ (some _) => 0
  | _ => 1

theorem countP_isSystemOpen_le {fd : Fd} {extension : Option String}
    {stage stage' : Stage SystemFile}
    {calls : List (Called Fd SystemFile Pixels F32)}
    (h : Path (Next fd extension) stage calls stage') :
    calls.countP isSystemOpen ≤ stage.openings := by
  refine h.countP_le fun s e s' hnext => ?_
  cases hnext with
  | mapFile source => exact le_rfl
  | mapFails error => exact le_rfl
  | info source info => exact le_rfl
  | raw source system wanted image => exact le_rfl
  | systemOpen source rawler opened => exact le_rfl
  | system source rawler file wanted image => exact le_rfl

/-- Where an open file is. -/
def stageOf (file : OpenFile Fd SystemFile) : Stage SystemFile :=
  .read file.source file.rawler file.system

/-- The calls made for what is open under an id. -/
def Follows (file : Option (OpenFile Fd SystemFile))
    (calls : List (Called Fd SystemFile Pixels F32)) : Prop :=
  match file with
  | none => calls = []
  | some file => Path (Next file.fd file.extension) .unseen calls (stageOf file)

end Life

/-! ## What is given and what is sent -/

section Given

variable {Fd SystemFile Pixels F32 : Type}

/-- What a decoder gives. -/
abbrev Picture (Pixels F32 : Type) : Type := Σ wanted, Decoded Pixels F32 wanted

def Picture.buffer : Picture Pixels F32 → Pixels
  | ⟨.preview, _, buffer⟩ => buffer
  | ⟨.sensor, _, _, buffer⟩ => buffer

/-- The picture a call gives. -/
def picture : Called Fd SystemFile Pixels F32 → Option (Picture Pixels F32)
  | ⟨.raw wanted _, image⟩ => (guarded image).toOption.map (Sigma.mk wanted)
  | ⟨.system wanted _, image⟩ => (guarded image).toOption.map (Sigma.mk wanted)
  | _ => none

/-- The picture a reply sends. -/
def pictured : Answer Pixels F32 → Option (Picture Pixels F32)
  | (.preview _ image _, some buffer) => some ⟨.preview, image, buffer⟩
  | (.sensor _ sensor info _, some buffer) => some ⟨.sensor, sensor, info, buffer⟩
  | _ => none

/-- The headers a call gives. -/
def headersOf : Called Fd SystemFile Pixels F32 → Option (FileInfo F32)
  | ⟨.info _, info⟩ => (guarded info).toOption
  | ⟨.systemOpen _ _, opened⟩ => (guarded opened).toOption.map Prod.snd
  | _ => none

/-- The headers a reply tells. -/
def told : Answer Pixels F32 → Option (FileInfo F32)
  | (.opened _ info _, _) => some info
  | _ => none

end Given

/-! ## What a request can ask -/

section Step

variable {Fd SystemFile Pixels F32 : Type}
  {calls : List (Called Fd SystemFile Pixels F32)}

theorem run_getSystem {file file' : OpenFile Fd SystemFile} {system : Except String SystemFile}
    (h : Run (getSystem file) calls (system, file')) :
    file' = { file with system := some system } ∧ calls.length ≤ 1 ∧
      calls.filterMap picture = [] ∧
      Path (Next file.fd file.extension) (stageOf file) calls (stageOf file') := by
  rw [getSystem] at h
  cases hsystem : file.system with
  | some kept =>
    rw [hsystem] at h
    obtain ⟨rfl, heq⟩ := run_pure_iff.mp h
    obtain ⟨rfl, rfl⟩ := Prod.mk.inj heq
    refine ⟨?_, Nat.zero_le _, rfl, .nil _⟩
    rw [← hsystem]
  | none =>
    rw [hsystem] at h
    obtain ⟨opened, after, rfl, hafter⟩ := run_call_bind_iff.mp h
    obtain ⟨rfl, heq⟩ := run_pure_iff.mp hafter
    obtain ⟨rfl, rfl⟩ := Prod.mk.inj heq
    refine ⟨rfl, le_rfl, rfl, .single ?_⟩
    rw [stageOf, hsystem]
    exact .systemOpen file.source file.rawler opened

theorem run_fromRawler {wanted : Wanted} {file : OpenFile Fd SystemFile}
    {result : Except String (Decoded Pixels F32 wanted)}
    (h : Run (fromRawler wanted file) calls result) :
    calls.length ≤ 1 ∧
      calls.filterMap picture = (result.toOption.map (Sigma.mk wanted)).toList ∧
      Path (Next file.fd file.extension) (stageOf file) calls (stageOf file) := by
  rw [fromRawler] at h
  split at h
  · next hrawler =>
    obtain ⟨image, after, rfl, hafter⟩ := run_call_bind_iff.mp h
    obtain ⟨rfl, rfl⟩ := run_pure_iff.mp hafter
    refine ⟨le_rfl, ?_, .single ?_⟩
    · rw [List.filterMap_cons, picture]
      cases guarded image <;> rfl
    · rw [stageOf, hrawler]
      exact .raw file.source file.system wanted image
  · obtain ⟨rfl, rfl⟩ := run_pure_iff.mp h
    exact ⟨Nat.zero_le _, rfl, .nil _⟩

theorem run_decode {wanted : Wanted} {file file' : OpenFile Fd SystemFile}
    {result : Except String (Decoded Pixels F32 wanted)}
    (h : Run (decode wanted file) calls (result, file')) :
    (∃ system, file' = { file with system := system }) ∧ calls.length ≤ 3 ∧
      calls.filterMap picture = (result.toOption.map (Sigma.mk wanted)).toList ∧
      Path (Next file.fd file.extension) (stageOf file) calls (stageOf file') := by
  obtain ⟨raw, rest, tried, rfl, hraw, hrest⟩ := run_bind_iff.mp h
  obtain ⟨hrawLength, hrawPicture, hrawPath⟩ := run_fromRawler hraw
  cases tried with
  | ok image =>
    obtain ⟨rfl, heq⟩ := run_pure_iff.mp hrest
    obtain ⟨rfl, rfl⟩ := Prod.mk.inj heq
    rw [List.append_nil]
    exact ⟨⟨_, rfl⟩, hrawLength.trans (by decide), hrawPicture, hrawPath⟩
  | error rawError =>
    have hnone : raw.filterMap picture = [] := hrawPicture
    obtain ⟨opening, last, ⟨system, kept⟩, rfl, hopening, hlast⟩ := run_bind_iff.mp hrest
    obtain ⟨rfl, hopeningLength, hopeningPicture, hopeningPath⟩ := run_getSystem hopening
    cases system with
    | error error =>
      obtain ⟨rfl, heq⟩ := run_pure_iff.mp hlast
      obtain ⟨rfl, rfl⟩ := Prod.mk.inj heq
      rw [List.append_nil]
      refine ⟨⟨_, rfl⟩, ?_, ?_, hrawPath.append hopeningPath⟩
      · rw [List.length_append]
        omega
      · rw [List.filterMap_append, hnone, hopeningPicture]
        rfl
    | ok decoder =>
      obtain ⟨image, after, rfl, hafter⟩ := run_call_bind_iff.mp hlast
      obtain ⟨rfl, heq⟩ := run_pure_iff.mp hafter
      obtain ⟨rfl, rfl⟩ := Prod.mk.inj heq
      refine ⟨⟨_, rfl⟩, ?_, ?_, hrawPath.append (hopeningPath.append (.single ?_))⟩
      · rw [List.length_append, List.length_append, List.length_singleton]
        omega
      · rw [List.filterMap_append, List.filterMap_append, hnone, hopeningPicture]
        rw [List.nil_append, List.nil_append, List.filterMap_cons, picture]
        cases guarded image <;> rfl
      · exact .system file.source file.rawler decoder wanted image

theorem path_headers (fd : Fd) (extension : Option String) (source : List UInt8)
    (info : Outcome (FileInfo F32)) :
    Path (Next fd extension) .unseen
      ([⟨.mapFile fd, .ok source⟩, ⟨.info source, info⟩] : List (Called Fd SystemFile Pixels F32))
      (.read source (guarded info).isOk none) :=
  .cons (.mapFile source) (.single (.info source info))

/-- An open fails, or leads to the file it is to bind. -/
theorem run_openFile {extension : Option String} {fd : Option Fd} {openFiles : Nat}
    {opened : Except String (FileInfo F32 × OpenFile Fd SystemFile)}
    (h : Run (openFile extension fd openFiles) calls opened) :
    (calls.length ≤ 3 ∧ calls.filterMap picture = [] ∧
      calls.filterMap headersOf = (opened.toOption.map Prod.fst).toList) ∧
    ((∃ error, opened = .error error ∧
        ((fd = none ∧ calls = []) ∨
          ∃ d stage, fd = some d ∧ Path (Next d extension) .unseen calls stage)) ∨
      ∃ info file, opened = .ok (info, file) ∧ fd = some file.fd ∧ file.extension = extension ∧
        Path (Next file.fd extension) .unseen calls (stageOf file)) := by
  unfold openFile at h
  cases fd with
  | none =>
    obtain ⟨rfl, rfl⟩ := run_pure_iff.mp h
    exact ⟨⟨Nat.zero_le _, rfl, rfl⟩, .inl ⟨_, rfl, .inl ⟨rfl, rfl⟩⟩⟩
  | some d =>
    dsimp only at h
    split_ifs at h with hfull
    · obtain ⟨rfl, rfl⟩ := run_pure_iff.mp h
      exact ⟨⟨Nat.zero_le _, rfl, rfl⟩, .inl ⟨_, rfl, .inr ⟨d, _, rfl, .nil _⟩⟩⟩
    · obtain ⟨mapped, afterMap, rfl, hmapped⟩ := run_call_bind_iff.mp h
      cases mapped with
      | error error =>
        obtain ⟨rfl, rfl⟩ := run_pure_iff.mp hmapped
        exact ⟨⟨by simp, rfl, rfl⟩, .inl ⟨_, rfl, .inr ⟨d, _, rfl, .single (.mapFails error)⟩⟩⟩
      | ok source =>
        obtain ⟨headers, afterInfo, rfl, hheaders⟩ := run_call_bind_iff.mp hmapped
        have hpath := @path_headers Fd SystemFile Pixels F32 d extension source headers
        cases hread : guarded headers with
        | ok info =>
          rw [hread] at hheaders hpath
          obtain ⟨rfl, rfl⟩ := run_pure_iff.mp hheaders
          refine ⟨⟨by simp, rfl, ?_⟩, .inr ⟨info, _, rfl, rfl, rfl, hpath⟩⟩
          simp only [List.filterMap_cons, headersOf, hread]
          rfl
        | error rawError =>
          rw [hread] at hheaders hpath
          obtain ⟨opened, afterOpen, rfl, hopened⟩ := run_call_bind_iff.mp hheaders
          have hpath' := hpath.append (.single (.systemOpen source false opened))
          cases hsystem : guarded opened with
          | ok opened =>
            rw [hsystem] at hopened hpath'
            obtain ⟨rfl, rfl⟩ := run_pure_iff.mp hopened
            refine ⟨⟨by simp, rfl, ?_⟩, .inr ⟨_, _, rfl, rfl, rfl, hpath'⟩⟩
            simp only [List.filterMap_cons, headersOf, hread, hsystem]
            rfl
          | error systemError =>
            rw [hsystem] at hopened
            obtain ⟨rfl, rfl⟩ := run_pure_iff.mp hopened
            refine ⟨⟨by simp, rfl, ?_⟩, .inl ⟨_, rfl, .inr ⟨d, _, rfl, hpath'⟩⟩⟩
            simp only [List.filterMap_cons, headersOf, hread, hsystem]
            rfl

end Step

/-! ## Whole sessions -/

section Session

variable {Fd SystemFile Pixels F32 : Type}

/-- A request, the calls made to answer it, and the reply. -/
abbrev Answered (Fd SystemFile Pixels F32 : Type) : Type :=
  Exchange (Q := Call Fd SystemFile) (Response Pixels F32) (Received Fd) (Answer Pixels F32)

/-- The calls a request may take. -/
def mostCalls : Request → Nat
  | .open _ _ | .preview _ | .sensor _ => 3
  | _ => 0

/-- What one request asks for and what it is answered. -/
structure Sent (e : Answered Fd SystemFile Pixels F32) : Prop where
  length : e.events.length ≤ mostCalls e.input.request
  /-- The picture that is sent is the one picture that was given. -/
  pictures : e.events.filterMap picture = (pictured e.output).toList
  buffer : e.output.2 = (pictured e.output).map Picture.buffer
  /-- The headers that are told are those that were given. -/
  headers : ∀ id extension, e.input.request = .open id extension →
    e.events.filterMap headersOf = (told e.output).toList
  opening : ∀ id extension, e.input.request = .open id extension →
    (e.input.fd = none ∧ e.events = []) ∨
      ∃ fd stage, e.input.fd = some fd ∧ Path (Next fd extension) .unseen e.events stage

/-- The calls made for what is open under each id: those of the open, and those of the
previews and of the samples since. -/
def noteCalls (made : UInt64 → List (Called Fd SystemFile Pixels F32))
    (e : Answered Fd SystemFile Pixels F32) : UInt64 → List (Called Fd SystemFile Pixels F32) :=
  match e.input.request, e.output.1 with
  | .open id _, .opened _ _ _ => Function.update made id e.events
  | .close id, .closed _ => Function.update made id []
  | .preview id, _ | .sensor id, _ => Function.update made id (made id ++ e.events)
  | _, _ => made

def callsOf (exchanges : List (Answered Fd SystemFile Pixels F32)) :
    UInt64 → List (Called Fd SystemFile Pixels F32) :=
  exchanges.foldl noteCalls fun _ => []

variable {files files' : Files Fd SystemFile}
  {made : UInt64 → List (Called Fd SystemFile Pixels F32)}

/-- The calls made for each id are those of what is open under it. -/
abbrev Followed (files : Files Fd SystemFile)
    (made : UInt64 → List (Called Fd SystemFile Pixels F32)) : Prop := Tabled Follows files made

/-- **A preview or samples**: the calls go on where those for the file left off. -/
theorem handle_calls_wanted (wanted : Wanted) {sandboxed : Bool} {id : UInt64} {fd : Option Fd}
    {micros : UInt64} {escapes : List String}
    {calls : List (Called Fd SystemFile Pixels F32)} {answer : Answer Pixels F32}
    (h : Followed files made)
    (hrun : Run (handle sandboxed files ⟨wanted.request id, fd, micros, escapes⟩) calls
      (answer, files')) :
    Sent ⟨⟨wanted.request id, fd, micros, escapes⟩, calls, answer⟩ ∧
      Followed files' (Function.update made id (made id ++ calls)) := by
  have hmost : mostCalls (wanted.request id) = 3 := by cases wanted <;> rfl
  have hother : ∀ id' extension, wanted.request id ≠ .open id' extension := by
    intro id' extension
    cases wanted <;> exact Request.noConfusion
  cases hfile : files[id]? with
  | none =>
    rw [handle_absent hfile] at hrun
    obtain ⟨rfl, heq⟩ := run_pure_iff.mp hrun
    obtain ⟨rfl, rfl⟩ := Prod.mk.inj heq
    refine ⟨⟨Nat.zero_le _, rfl, rfl, fun _ _ heq => absurd heq (hother _ _),
      fun _ _ heq => absurd heq (hother _ _)⟩, ?_⟩
    rwa [List.append_nil, Function.update_eq_self]
  | some file =>
    rw [handle_decoded hfile] at hrun
    obtain ⟨before, after, ⟨result, file'⟩, rfl, hdecode, hafter⟩ := run_bind_iff.mp hrun
    obtain ⟨⟨system, rfl⟩, hlength, hpictures, hpath⟩ := run_decode hdecode
    obtain ⟨rfl, heq⟩ := run_pure_iff.mp hafter
    obtain ⟨rfl, rfl⟩ := Prod.mk.inj heq
    rw [List.append_nil]
    refine ⟨⟨hlength.trans_eq hmost.symm, ?_, ?_, fun _ _ heq => absurd heq (hother _ _),
      fun _ _ heq => absurd heq (hother _ _)⟩, ?_⟩
    · rw [hpictures]
      cases wanted <;> cases result <;> rfl
    · cases wanted <;> cases result <;> rfl
    · have hmade := h id
      rw [hfile] at hmade
      exact h.insert id (Path.append hmade hpath)

theorem handle_calls {sandboxed : Bool} {received : Received Fd}
    {calls : List (Called Fd SystemFile Pixels F32)} {answer : Answer Pixels F32}
    (h : Followed files made)
    (hrun : Run (handle sandboxed files received) calls (answer, files')) :
    Sent ⟨received, calls, answer⟩ ∧
      Followed files' (noteCalls made ⟨received, calls, answer⟩) := by
  obtain ⟨request, fd, micros, escapes⟩ := received
  cases request with
  | hello version =>
    obtain ⟨rfl, heq⟩ := run_pure_iff.mp hrun
    obtain ⟨rfl, rfl⟩ := Prod.mk.inj heq
    exact ⟨⟨le_rfl, rfl, rfl, nofun, nofun⟩, h⟩
  | «open» id extension =>
    obtain ⟨before, after, opened, rfl, hopen, hafter⟩ := run_bind_iff.mp hrun
    obtain ⟨⟨hlength, hpictures, hheaders⟩, hcases⟩ := run_openFile hopen
    rcases hcases with ⟨error, rfl, hopening⟩ | ⟨info, file, rfl, hfd, rfl, hpath⟩
    · obtain ⟨rfl, heq⟩ := run_pure_iff.mp hafter
      obtain ⟨rfl, rfl⟩ := Prod.mk.inj heq
      rw [List.append_nil]
      refine ⟨⟨hlength, hpictures, rfl, fun _ _ _ => hheaders, ?_⟩, h⟩
      rintro id' extension' ⟨⟩
      exact hopening
    · obtain ⟨rfl, heq⟩ := run_pure_iff.mp hafter
      obtain ⟨rfl, rfl⟩ := Prod.mk.inj heq
      rw [List.append_nil]
      refine ⟨⟨hlength, hpictures, rfl, fun _ _ _ => hheaders, ?_⟩, h.insert id hpath⟩
      rintro id' extension' ⟨⟩
      exact .inr ⟨file.fd, _, hfd, hpath⟩
  | preview id => exact handle_calls_wanted .preview h hrun
  | sensor id => exact handle_calls_wanted .sensor h hrun
  | close id =>
    obtain ⟨rfl, heq⟩ := run_pure_iff.mp hrun
    obtain ⟨rfl, rfl⟩ := Prod.mk.inj heq
    exact ⟨⟨le_rfl, rfl, rfl, nofun, nofun⟩, h.erase id rfl⟩
  | sandboxCheck =>
    obtain ⟨rfl, heq⟩ := run_pure_iff.mp hrun
    obtain ⟨rfl, rfl⟩ := Prod.mk.inj heq
    exact ⟨⟨le_rfl, rfl, rfl, nofun, nofun⟩, h⟩

/-- **What a session asks of the decoders**, whatever they answer, be it the same call
differently each time.  A request takes three calls at most; of the pictures given to
it none is lost or kept for later, and the reply sends the one there is, or none; an
`Opened` tells the headers given to it.  The calls made for what is open under an id,
from the open on, go the way of `Next`: rawler is asked only for what it has read, the
system only for what it has opened, and it is asked to open a file once, though it
refuses. -/
theorem session_calls {sandboxed : Bool}
    {exchanges : List (Answered Fd SystemFile Pixels F32)} {files : Files Fd SystemFile}
    (h : Runs (handle sandboxed) ∅ exchanges files) :
    (∀ e ∈ exchanges, Sent e) ∧
    ∀ id : UInt64, Follows files[id]? (callsOf exchanges id) ∧
      (callsOf exchanges id).countP isSystemOpen ≤ 1 := by
  have hinv : (∀ e ∈ exchanges, Sent e) ∧
      ∀ id : UInt64, Follows files[id]? (callsOf exchanges id) := by
    refine h.invariant (I := fun exchanges files => (∀ e ∈ exchanges, Sent e) ∧
      ∀ id : UInt64, Follows files[id]? (callsOf exchanges id)) ?_ ?_
    · refine ⟨by simp, fun id => ?_⟩
      rw [Std.HashMap.getElem?_empty]
      rfl
    · rintro exchanges files received calls answer files' ⟨hsent, hfollows⟩ hrun
      obtain ⟨hlast, hnext⟩ := handle_calls hfollows hrun
      refine ⟨?_, fun id => ?_⟩
      · rw [List.forall_mem_append]
        exact ⟨hsent, by simpa using hlast⟩
      · rw [callsOf, List.foldl_append]
        exact hnext id
  refine ⟨hinv.1, fun id => ⟨hinv.2 id, ?_⟩⟩
  have hfollows := hinv.2 id
  cases hfile : files[id]? with
  | none =>
    rw [hfile] at hfollows
    rw [show callsOf exchanges id = [] from hfollows]
    exact Nat.zero_le _
  | some file =>
    rw [hfile] at hfollows
    exact countP_isSystemOpen_le hfollows

end Session

/-! ### A system that refuses once -/

def header : FileInfo Unit :=
  ⟨.raw, true, "maker", "camera", 1, ⟨none, none, none, none, none, none⟩⟩

def opened : OpenFile Unit Unit := ⟨[1], (), true, none, none⟩

def refused : OpenFile Unit Unit := { opened with system := some (.error "not a format") }

/-- Its first preview is refused by both decoders, and its second by rawler, which
panics. -/
def refusals : List (Answered Unit Unit Unit Unit) :=
  [⟨⟨.open 1 none, some (), 0, []⟩, [⟨.mapFile (), .ok [1]⟩, ⟨.info [1], .ok header⟩],
      (.opened 1 header 0, none)⟩,
    ⟨⟨.preview 1, none, 0, []⟩,
      [⟨.raw .preview [1], .err "no preview"⟩, ⟨.systemOpen [1] none, .err "not a format"⟩],
      failed 1 "not a format"⟩,
    ⟨⟨.preview 1, none, 0, []⟩, [⟨.raw .preview [1], .panic⟩], failed 1 "not a format"⟩]

theorem run_preview_error {Fd SystemFile Pixels F32 : Type} {files : Files Fd SystemFile}
    {id : UInt64} {file file' : OpenFile Fd SystemFile} {error : String}
    {calls : List (Called Fd SystemFile Pixels F32)} (hfile : files[id]? = some file)
    (h : Run (decode .preview file) calls (.error error, file')) :
    Run (handle false files ⟨.preview id, none, 0, []⟩) calls
      (failed id error, files.insert id file') := by
  rw [handle]
  dsimp only
  rw [hfile]
  exact run_bind_iff.mpr ⟨calls, [], _, (List.append_nil _).symm, h, .ret _⟩

/-- A file that rawler reads and the system does not. -/
def refusing (preview : Outcome (ImageLayout × Unit)) : Decoders Unit Unit Unit Unit where
  mapFile _ := .ok [1]
  info _ := .ok header
  preview _ := preview
  sensor _ := .panic
  systemOpen _ _ := .err "not a format"
  systemPreview _ := .panic
  systemDevelop _ := .panic

theorem runs_refusals : ∃ files, Runs (handle false) ∅ refusals files := by
  have hopen : Run (handle false ∅ ⟨.open 1 none, some (), 0, []⟩)
      [⟨.mapFile (), .ok [1]⟩, ⟨.info [1], .ok header⟩]
      (((.opened 1 header 0, none) : Answer Unit Unit), (∅ : Files Unit Unit).insert 1 opened) :=
    run_eval (refusing .panic).response _
  have hfirst : Run (decode .preview opened)
      [⟨.raw .preview [1], .err "no preview"⟩, ⟨.systemOpen [1] none, .err "not a format"⟩]
      ((.error "not a format" : Except String (Decoded Unit Unit .preview)), refused) :=
    run_eval (refusing (.err "no preview")).response _
  have hsecond : Run (decode .preview refused) [⟨.raw .preview [1], .panic⟩]
      ((.error "not a format" : Except String (Decoded Unit Unit .preview)), refused) :=
    run_eval (refusing .panic).response _
  exact ⟨_, ((Runs.nil.snoc hopen).snoc
    (run_preview_error Std.HashMap.getElem?_insert_self hfirst)).snoc
    (run_preview_error Std.HashMap.getElem?_insert_self hsecond)⟩

/-- The system is asked once, though rawler fails twice. -/
theorem session_calls_refusals :
    callsOf refusals 1 = [⟨.mapFile (), .ok [1]⟩, ⟨.info [1], .ok header⟩,
      ⟨.raw .preview [1], .err "no preview"⟩, ⟨.systemOpen [1] none, .err "not a format"⟩,
      ⟨.raw .preview [1], .panic⟩] ∧
    (∀ e ∈ refusals, Sent e) ∧ (callsOf refusals 1).countP isSystemOpen ≤ 1 := by
  obtain ⟨files, hruns⟩ := runs_refusals
  obtain ⟨hsent, hcalls⟩ := session_calls hruns
  exact ⟨rfl, hsent, (hcalls 1).2⟩

end RawHelper.Calls
