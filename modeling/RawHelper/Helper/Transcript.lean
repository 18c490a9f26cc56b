import RawHelper.Helper.Reasons

/-!
# What a transcript of a session tells

Of `handle` (`helper/src/main.rs`) the application sees its own requests and the
replies.

`transcript_tells` says that this is enough to know the helper's state: every reply
is of the request's kind and about its file, and an application that notes a file
when it is told that it was opened and strikes it out when it is told that it was
closed has the table of the helper.

`files_are_isolated` says that files do not know of each other: what is asked about
others, and what is in them, can keep the session from getting to a request about one
file, and eight open files leave it no room, but no reply about it is another than it
would get alone.
-/

namespace RawHelper.Session

open Query Query.Asks Calls

variable {Fd SystemFile Pixels F32 α : Type} {D : Decoders Fd SystemFile Pixels F32}

/-- The file a request is about. -/
def about : Request → Option UInt64
  | .open id _ | .preview id | .sensor id | .close id => some id
  | .hello _ | .sandboxCheck => none

/-! ## What the replies tell -/

/-- The reply is of the request's kind and about its file, and comes with pixels
exactly when it announces some. -/
inductive Answers (sandboxed : Bool) : Request → Answer Pixels F32 → Prop
  | hello (version) : Answers sandboxed (.hello version)
      (.hello protocolVersion "rawler 0.8.0" sandboxed, none)
  | opened (id extension info micros) : Answers sandboxed (.open id extension)
      (.opened id info micros, none)
  | preview (id image micros pixels) : Answers sandboxed (.preview id)
      (.preview id image micros, some pixels)
  | sensor (id layout info micros pixels) : Answers sandboxed (.sensor id)
      (.sensor id layout info micros, some pixels)
  | closed (id) : Answers sandboxed (.close id) (.closed id, none)
  | sandboxCheck (escapes) : Answers sandboxed .sandboxCheck (.sandboxCheck sandboxed escapes, none)
  | failed (request id error) : about request = some id → request ≠ .close id →
      Answers sandboxed request (failed id error)

theorem answers_wanted {sandboxed : Bool} (id micros : UInt64) (wanted : Wanted)
    (result : Except String (Decoded Pixels F32 wanted)) :
    Answers sandboxed (wanted.request id) (wanted.answer id micros result) := by
  cases wanted with
  | preview =>
    rcases result with error | ⟨image, pixels⟩
    · exact .failed _ id error rfl Request.noConfusion
    · exact .preview id image micros pixels
  | sensor =>
    rcases result with error | ⟨layout, info, pixels⟩
    · exact .failed _ id error rfl Request.noConfusion
    · exact .sensor id layout info micros pixels

theorem Handled.answers {sandboxed : Bool} {files : Files Fd SystemFile} {received : Received Fd}
    {out : Answer Pixels F32 × Files Fd SystemFile} (h : Handled D sandboxed files received out) :
    Answers sandboxed received.request out.1 := by
  cases h with
  | hello version fd micros escapes => exact .hello version
  | refused micros escapes _ => exact .failed _ _ _ rfl Request.noConfusion
  | opened micros escapes _ => exact .opened _ _ _ micros
  | absent wanted fd micros escapes _ => exact answers_wanted _ micros wanted (.error _)
  | decoded wanted fd micros escapes _ => exact answers_wanted _ micros wanted _
  | close id fd micros escapes => exact .closed id
  | sandboxCheck fd micros escapes => exact .sandboxCheck escapes

/-! ### What an application notes -/

section Notes

variable {τ : Type} (entry : Fd → Option String → FileInfo F32 → τ)

/-- What an application notes of one exchange: an entry for each file it is told was
opened, until it is told that it was closed. -/
def noteWith (noted : UInt64 → Option τ) (received : Received Fd) (reply : Answer Pixels F32) :
    UInt64 → Option τ :=
  match received.request, reply.1 with
  | .open id extension, .opened _ info _ =>
    Function.update noted id (received.fd.map fun fd => entry fd extension info)
  | .close id, .closed _ => Function.update noted id none
  | _, _ => noted

theorem noteWith_wanted (noted : UInt64 → Option τ) (wanted : Wanted) (id : UInt64)
    (fd : Option Fd) (micros : UInt64) (escapes : List String) (reply : Answer Pixels F32) :
    noteWith entry noted ⟨wanted.request id, fd, micros, escapes⟩ reply = noted := by
  cases wanted <;> rfl

variable {entry} {P : Option (OpenFile Fd SystemFile) → Option τ → Prop}

/-- **One exchange keeps a table true** if its entry for an opened file is, and stays so
when the file comes to keep its system decoder. -/
theorem Handled.noted (hnone : P none none)
    (hopened : ∀ {extension openFiles fd info file},
      Opens D extension openFiles fd (.ok (info, file)) →
      P (some file) (fd.map fun fd => entry fd extension info))
    (hdecoded : ∀ {file noted}, P (some file) noted → ∀ wanted,
      P (some (file.decode D wanted).2) noted)
    {sandboxed : Bool} {files : Files Fd SystemFile} {noted : UInt64 → Option τ}
    (h : Tabled P files noted) {received : Received Fd}
    {out : Answer Pixels F32 × Files Fd SystemFile}
    (hhandled : Handled D sandboxed files received out) :
    Tabled P out.2 (noteWith entry noted received out.1) := by
  cases hhandled with
  | hello version fd micros escapes => exact h
  | refused micros escapes _ => exact h
  | opened micros escapes hopens => exact h.insert _ (hopened hopens)
  | absent wanted fd micros escapes _ =>
    rw [noteWith_wanted]
    exact h
  | @decoded id file wanted fd micros escapes hfile =>
    rw [noteWith_wanted]
    have hentry := h id
    rw [hfile] at hentry
    exact h.keep (hdecoded hentry wanted)
  | close id fd micros escapes => exact h.erase id hnone
  | sandboxCheck fd micros escapes => exact h

end Notes

/-- The open files as an application knows them, each with the descriptor and the
extension it gave. -/
abbrev Noted (Fd : Type) := UInt64 → Option (Fd × Option String)

def note (noted : Noted Fd) (received : Received Fd) (reply : Answer Pixels F32) : Noted Fd :=
  noteWith (fun fd extension _ => (fd, extension)) noted received reply

/-- The application's entry for what is open under an id. -/
structure Mirrored (D : Decoders Fd SystemFile Pixels F32) (file : Option (OpenFile Fd SystemFile))
    (noted : Option (Fd × Option String)) : Prop where
  noted : file.map (fun file => (file.fd, file.extension)) = noted
  source : ∀ f, file = some f → D.mapFile f.fd = .ok f.source

/-- The application's table is the helper's. -/
def Mirrors (D : Decoders Fd SystemFile Pixels F32) (files : Files Fd SystemFile)
    (noted : Noted Fd) : Prop := Tabled (Mirrored D) files noted

theorem mirrors_empty : Mirrors D (∅ : Files Fd SystemFile) fun _ => none :=
  .empty fun _ => ⟨rfl, nofun⟩

/-- What is noted of an exchange is what became of the table. -/
theorem handle_mirrors (sandboxed : Bool) {files : Files Fd SystemFile} {noted : Noted Fd}
    (h : Mirrors D files noted) (received : Received Fd) :
    Mirrors D (handle D sandboxed files received).2
      (note noted received (handle D sandboxed files received).1) := by
  refine (handled D sandboxed files received).noted ⟨rfl, nofun⟩ ?_ ?_ h
  · intro extension openFiles fd info file hopens
    obtain ⟨rfl, rfl, hsource, -⟩ := hopens.file_eq
    refine ⟨rfl, ?_⟩
    rintro f ⟨⟩
    exact hsource
  · intro file noted hentry wanted
    obtain ⟨kept, hkept⟩ := file.decode_same D wanted
    rw [hkept]
    refine ⟨hentry.noted, ?_⟩
    rintro f ⟨⟩
    exact hentry.source file rfl

/-- **A transcript tells the state.**  In every session, from no open file, each
reply is of its request's kind and about its file, with pixels exactly when it
announces some.  And an application that notes what the replies tell has at every
moment the helper's table: the ids that are open, with the descriptor and the
extension it opened each with; what the helper holds of a file is what that
descriptor maps to. -/
theorem transcript_tells (D : Decoders Fd SystemFile Pixels F32) (sandboxed : Bool)
    (requests : List (Received Fd)) :
    List.Forall₂ (fun received reply => Answers sandboxed received.request reply) requests
      (Machine.run (handle D sandboxed) ∅ requests).1 ∧
    Mirrors D (Machine.run (handle D sandboxed) ∅ requests).2
      ((requests.zip (Machine.run (handle D sandboxed) ∅ requests).1).foldl
        (fun noted x => note noted x.1 x.2) fun _ => none) := by
  refine ⟨?_, ?_⟩
  · exact Machine.forall₂_run (I := fun _ => True)
      (fun files received _ => ⟨(handled D sandboxed files received).answers, trivial⟩) requests ∅
      trivial
  · exact Machine.run_observed note (R := Mirrors D)
      (fun files noted received h => handle_mirrors sandboxed h received) requests ∅ _
      mirrors_empty

/-! ## Files do not know of each other -/

/-- The request is about this file. -/
def isAbout (id : UInt64) (received : Received Fd) : Bool := about received.request == some id

theorem isAbout_iff {id : UInt64} {received : Received Fd} :
    isAbout id received = true ↔ about received.request = some id := by
  rw [isAbout, beq_iff_eq]

/-- A request leaves alone what it is not about. -/
theorem Handled.getElem?_other {sandboxed : Bool} {files : Files Fd SystemFile}
    {received : Received Fd} {out : Answer Pixels F32 × Files Fd SystemFile}
    (h : Handled D sandboxed files received out) {id : UInt64}
    (habout : about received.request ≠ some id) : out.2[id]? = files[id]? := by
  have hinsert : ∀ {id' : UInt64} (file), id' ≠ id →
      (files.insert id' file)[id]? = files[id]? := by
    intro id' file hne
    rw [Std.HashMap.getElem?_insert, if_neg (by simpa using hne)]
  cases h with
  | hello version fd micros escapes => rfl
  | refused micros escapes _ => rfl
  | opened micros escapes _ => exact hinsert _ fun heq => habout (congrArg some heq)
  | absent wanted fd micros escapes _ => rfl
  | decoded wanted fd micros escapes _ =>
    refine hinsert _ fun heq => habout ?_
    rw [← heq]
    cases wanted <;> rfl
  | close id' fd micros escapes =>
    have hne : id' ≠ id := fun heq => habout (congrArg some heq)
    show (files.erase id')[id]? = files[id]?
    rw [Std.HashMap.getElem?_erase, if_neg (by simpa using hne)]
  | sandboxCheck fd micros escapes => rfl

/-- As far as one file goes, the first holds what the second does, which holds no
other. -/
structure Restricts (id : UInt64) (files only : Files Fd SystemFile) : Prop where
  here : files[id]? = only[id]?
  alone : ∀ id' ∈ only, id' = id

namespace Restricts

variable {id : UInt64} {files only : Files Fd SystemFile}

/-- One file leaves room for another. -/
theorem size_lt (h : Restricts id files only) : only.size < maxOpenFiles := by
  have hdistinct : only.keys.Pairwise (· ≠ ·) := by
    simpa using only.distinct_keys
  have hkeys : ∀ id' ∈ only.keys, id' = id := fun id' hmem =>
    h.alone id' (Std.HashMap.mem_keys.mp hmem)
  rw [← Std.HashMap.length_keys]
  cases hk : only.keys with
  | nil => decide
  | cons a l =>
    cases l with
    | nil => exact (by decide : 1 < maxOpenFiles)
    | cons b l =>
      rw [hk] at hdistinct hkeys
      have hab : a ≠ b := (List.pairwise_cons.mp hdistinct).1 b (by simp)
      exact absurd ((hkeys a (by simp)).trans (hkeys b (by simp)).symm) hab

theorem insert (h : Restricts id files only) (file : OpenFile Fd SystemFile) :
    Restricts id (files.insert id file) (only.insert id file) where
  here := by simp
  alone id' hmem := by
    rcases Std.HashMap.mem_insert.mp hmem with heq | hmem
    · exact (by simpa using heq : id = id').symm
    · exact h.alone id' hmem

theorem erase (h : Restricts id files only) : Restricts id (files.erase id) (only.erase id) where
  here := by simp
  alone id' hmem := h.alone id' (Std.HashMap.mem_of_mem_erase hmem)

theorem attempt_wanted (h : Restricts id files only) (D : Decoders Fd SystemFile Pixels F32)
    (ends : Call Fd SystemFile → Bool) (sandboxed : Bool) (wanted : Wanted) (fd : Option Fd)
    (micros : UInt64) (escapes : List String) :
    Session.attempt D ends sandboxed files ⟨wanted.request id, fd, micros, escapes⟩ = none ∧
        Session.attempt D ends sandboxed only ⟨wanted.request id, fd, micros, escapes⟩ = none ∨
      ∃ out files' only',
        Session.attempt D ends sandboxed files ⟨wanted.request id, fd, micros, escapes⟩ =
            some (out, files') ∧
          Session.attempt D ends sandboxed only ⟨wanted.request id, fd, micros, escapes⟩ =
            some (out, only') ∧ Restricts id files' only' := by
  rw [Session.attempt, Session.attempt]
  cases hfile : only[id]? with
  | none =>
    rw [handle_absent hfile, handle_absent (h.here.trans hfile)]
    exact .inr ⟨_, _, _, rfl, rfl, h⟩
  | some file =>
    rw [handle_decoded hfile, handle_decoded (h.here.trans hfile), Asks.attempt_bind,
      Asks.attempt_bind]
    rcases Asks.attempt D.response ends (decode wanted file) with _ | ⟨result, file'⟩
    · exact .inl ⟨rfl, rfl⟩
    · exact .inr ⟨_, _, _, rfl, rfl, h.insert file'⟩

theorem openFile_eq (h : Restricts id files only) (extension : Option String) {fd : Option Fd}
    (hroom : fd.isSome → files.size < maxOpenFiles) :
    (openFile extension fd files.size : Asking Fd SystemFile Pixels F32 _) =
      openFile extension fd only.size := by
  cases fd with
  | none => rfl
  | some fd =>
    simp only [openFile, if_neg (Nat.not_le.mpr (hroom rfl)), if_neg (Nat.not_le.mpr h.size_lt)]

/-- **A request about the file** comes to the same as if there were no other, when
there is room. -/
theorem attempt (h : Restricts id files only) (D : Decoders Fd SystemFile Pixels F32)
    (ends : Call Fd SystemFile → Bool) (sandboxed : Bool) {received : Received Fd}
    (habout : about received.request = some id)
    (hroom : ∀ out files', Session.attempt D ends sandboxed files received = some (out, files') →
      out ≠ failed id "too many open files") :
    Session.attempt D ends sandboxed files received = none ∧
        Session.attempt D ends sandboxed only received = none ∨
      ∃ out files' only', Session.attempt D ends sandboxed files received = some (out, files') ∧
        Session.attempt D ends sandboxed only received = some (out, only') ∧
        Restricts id files' only' := by
  obtain ⟨request, fd, micros, escapes⟩ := received
  cases request with
  | hello version => cases habout
  | sandboxCheck => cases habout
  | «open» id' extension =>
    obtain rfl : id' = id := Option.some.inj habout
    have hspace : fd.isSome → files.size < maxOpenFiles := by
      intro hsome
      obtain ⟨fd, rfl⟩ := Option.isSome_iff_exists.mp hsome
      by_contra hfull
      refine hroom _ files ?_ rfl
      simp only [Session.attempt, Calls.handle, openFile, if_pos (not_lt.mp hfull)]
      rfl
    simp only [Session.attempt, Calls.handle, Asks.attempt_bind, h.openFile_eq extension hspace]
    rcases Asks.attempt D.response ends (openFile extension fd only.size) with
      _ | error | ⟨info, file⟩
    · exact .inl ⟨rfl, rfl⟩
    · exact .inr ⟨_, _, _, rfl, rfl, h⟩
    · exact .inr ⟨_, _, _, rfl, rfl, h.insert file⟩
  | preview id' =>
    obtain rfl : id' = id := Option.some.inj habout
    exact h.attempt_wanted D ends sandboxed .preview fd micros escapes
  | sensor id' =>
    obtain rfl : id' = id := Option.some.inj habout
    exact h.attempt_wanted D ends sandboxed .sensor fd micros escapes
  | close id' =>
    obtain rfl : id' = id := Option.some.inj habout
    exact .inr ⟨_, _, _, rfl, rfl, h.erase⟩

end Restricts

/-- **Files do not know of each other.**  Take any session, as far as it goes: a call that
does not return ends it.  If no open of this file was refused for want of room, the
replies to the requests about it are, in this order, the first of those of a session in
which nothing else is asked; and they are all of them, unless it is a request about
something else that ends the session. -/
theorem files_are_isolated (D : Decoders Fd SystemFile Pixels F32)
    (ends : Call Fd SystemFile → Bool) (sandboxed : Bool) (requests : List (Received Fd))
    (id : UInt64)
    (hroom : ∀ x ∈ requests.zip (Machine.runUntil (attempt D ends sandboxed) ∅ requests).1,
      isAbout id x.1 = true → x.2 ≠ failed id "too many open files") :
    let replies := (Machine.runUntil (attempt D ends sandboxed) ∅ requests).1
    let told := ((requests.zip replies).filter fun x => isAbout id x.1).map Prod.snd
    let alone := (Machine.runUntil (attempt D ends sandboxed) ∅ (requests.filter (isAbout id))).1
    told <+: alone ∧
      ((∀ received, requests[replies.length]? = some received → isAbout id received = true) →
        told = alone) := by
  refine Machine.runUntil_filter (· ≠ failed id "too many open files") (R := Restricts id) ?_ ?_
    requests ∅ ∅ ⟨rfl, by simp⟩ hroom
  · intro files only received h habout hgood
    exact h.attempt D ends sandboxed (isAbout_iff.mp habout) hgood
  · intro files only received reply files' h habout hstep
    have hne : about received.request ≠ some id := fun heq => by
      rw [isAbout_iff.mpr heq] at habout
      cases habout
    have hother := (handled D sandboxed files received).getElem?_other hne
    rw [handle_of_attempt D files received _ hstep] at hother
    exact ⟨hother.trans h.here, h.alone⟩

/-! ### A file whose samples are never decoded -/

/-- Rawler does not return with the samples. -/
def samplesLost : Call Unit Empty → Bool
  | .raw .sensor _ => true
  | _ => false

/-- Two files are opened, the samples of the second are asked for, and the first is to be
closed. -/
def twoFiles : List (Received Unit) :=
  [openOne, ⟨.open 2 none, some (), 0, []⟩, ⟨.sensor 2, none, 0, []⟩, ⟨.close 1, none, 0, []⟩]

theorem runUntil_twoFiles :
    Machine.runUntil (attempt noPreview samplesLost false) ∅ twoFiles =
      ([(.opened 1 plain 0, none), (.opened 2 plain 0, none)], none) := by
  have hfirst : attempt noPreview samplesLost false ∅ openOne =
      some ((.opened 1 plain 0, none), (∅ : Files Unit Empty).insert 1 openedOne) := rfl
  have hsecond : attempt noPreview samplesLost false ((∅ : Files Unit Empty).insert 1 openedOne)
      ⟨.open 2 none, some (), 0, []⟩ = some ((.opened 2 plain 0, none),
        ((∅ : Files Unit Empty).insert 1 openedOne).insert 2 openedOne) := by
    rw [attempt, Calls.handle]
    dsimp only
    rw [Std.HashMap.size_insert, if_neg Std.HashMap.not_mem_empty]
    rfl
  have hthird : attempt noPreview samplesLost false
      (((∅ : Files Unit Empty).insert 1 openedOne).insert 2 openedOne)
      ⟨.sensor 2, none, 0, []⟩ = none := by
    rw [attempt, show (.sensor 2 : Request) = Wanted.sensor.request 2 from rfl,
      handle_decoded Std.HashMap.getElem?_insert_self]
    rfl
  rw [twoFiles, Machine.runUntil_cons_some hfirst, Machine.runUntil_cons_some hsecond,
    Machine.runUntil_cons_none hthird]

/-- The second file takes the reply to the close with it, and not the one to the open. -/
theorem files_are_isolated_twoFiles :
    [(.opened 1 plain 0, none)] <+: (Machine.runUntil (attempt noPreview samplesLost false) ∅
      [openOne, ⟨.close 1, none, 0, []⟩]).1 := by
  have h := files_are_isolated noPreview samplesLost false twoFiles 1 ?_
  · rw [runUntil_twoFiles] at h
    exact h.1
  · rw [runUntil_twoFiles]
    intro x hx _
    have hopened : ∃ id, x.2 = (.opened id plain 0, none) := by
      simp only [twoFiles, List.zip_cons_cons, List.zip_nil_right, List.mem_cons, List.not_mem_nil,
        or_false] at hx
      rcases hx with rfl | rfl <;> exact ⟨_, rfl⟩
    obtain ⟨id, hopened⟩ := hopened
    rw [hopened, failed]
    simp

end RawHelper.Session
