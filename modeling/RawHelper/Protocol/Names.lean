import RawHelper.Lib.Directory
import RawHelper.Protocol.Shm

/-!
# The names of shared objects

`SharedBuffer::create` (`protocol/src/shm.rs`) needs a name for a moment: it draws
a number from its process's counter, makes an object under `/lfr{pid}.{number}`
unless that name is taken, removes the name, sizes the object and maps it.  Every
process of the machine that uses this code, and every thread of it, does so at the
same time, in one space of names.

`Step` is one call of any of them.  A call may fail, a process may end anywhere and
its identifier be given to another, and other programs use other names.  What the
names are for is `create_exclusive`: what a call unlinks is its own object, no two
buffers are one object, a buffer that is in use has no name, and a call finds its
name taken only if a call that failed or a process that ended left it behind, or
its process has drawn more than `2 ^ 32` numbers.

The argument about names is the one of `Directory`; `Step.directory` says that each
call is a step of it.
-/

namespace RawHelper.Shm

/-! ## The name -/

/-- `{:x}`. -/
def hex (n : UInt32) : String := String.ofList (Nat.toDigits 16 n.toNat)

/-- `format!("/lfr{:x}.{:x}", …)`. -/
def name (pid counter : UInt32) : String := "/lfr" ++ hex pid ++ "." ++ hex counter

theorem exists_digit (n : ℕ) : ∀ c ∈ Nat.toDigits 16 n, ∃ d : Fin 16, c = Nat.digitChar d := by
  induction n using Nat.strong_induction_on with
  | _ n ih =>
    intro c hc
    rw [Nat.toDigits_eq_if (by decide)] at hc
    split at hc
    · next h => exact ⟨⟨n, h⟩, by simpa using hc⟩
    · next h =>
      rcases List.mem_append.mp hc with hc | hc
      · exact ih (n / 16) (by omega) c hc
      · exact ⟨⟨n % 16, Nat.mod_lt n (by decide)⟩, by simpa using hc⟩

theorem digitChar_inj : ∀ d e : Fin 16, Nat.digitChar d = Nat.digitChar e → d = e := by decide

theorem digitChar_ne : ∀ d : Fin 16, Nat.digitChar d ≠ '.' ∧ (Nat.digitChar d).utf8Size = 1 := by
  decide

theorem toDigits_inj : ∀ {n m : ℕ}, Nat.toDigits 16 n = Nat.toDigits 16 m → n = m := by
  intro n
  induction n using Nat.strong_induction_on with
  | _ n ih =>
    intro m h
    have hdigit : ∀ {a b : ℕ} (ha : a < 16) (hb : b < 16),
        [Nat.digitChar a] = [Nat.digitChar b] → a = b := by
      intro a b ha hb hab
      exact congrArg Fin.val (digitChar_inj ⟨a, ha⟩ ⟨b, hb⟩ (List.singleton_inj.mp hab))
    have hlong : ∀ {k : ℕ} {c d : Char}, [c] ≠ Nat.toDigits 16 k ++ [d] := by
      intro k c d hcd
      have hlen := congrArg List.length hcd
      have hpos := @Nat.length_toDigits_pos 16 k
      simp only [List.length_append, List.length_singleton] at hlen
      omega
    rw [Nat.toDigits_eq_if (by decide), Nat.toDigits_eq_if (by decide) (n := m)] at h
    by_cases hn : n < 16
    · rw [if_pos hn] at h
      by_cases hm : m < 16
      · rw [if_pos hm] at h
        exact hdigit hn hm h
      · rw [if_neg hm] at h
        exact absurd h hlong
    · rw [if_neg hn] at h
      by_cases hm : m < 16
      · rw [if_pos hm] at h
        exact absurd h.symm hlong
      · rw [if_neg hm] at h
        obtain ⟨hhigh, hlow⟩ := List.append_inj' h rfl
        have h1 := ih (n / 16) (by omega) hhigh
        have h2 := hdigit (Nat.mod_lt n (by decide)) (Nat.mod_lt m (by decide)) hlow
        omega

/-- **A name tells the process and the number.** -/
theorem name_inj {p q c d : UInt32} (h : name p c = name q d) : p = q ∧ c = d := by
  have hdot : ∀ n : UInt32, '.' ∉ Nat.toDigits 16 n.toNat := by
    intro n hn
    obtain ⟨e, he⟩ := exists_digit n.toNat '.' hn
    exact (digitChar_ne e).1 he.symm
  have hlist := congrArg String.toList h
  have hsep : ".".toList = ['.'] := by decide
  simp only [name, hex, String.toList_append, String.toList_ofList, List.append_assoc, hsep,
    List.singleton_append] at hlist
  obtain ⟨hp, -, hc⟩ := (List.append_cons_inj_of_notMem (hdot p) (hdot c)).mp
    (List.append_cancel_left hlist)
  exact ⟨UInt32.toNat_inj.mp (toDigits_inj hp), UInt32.toNat_inj.mp (toDigits_inj hc)⟩

theorem utf8ByteSize_ofList : ∀ {l : List Char}, (∀ c ∈ l, c.utf8Size = 1) →
    (String.ofList l).utf8ByteSize = l.length := by
  intro l
  induction l with
  | nil => intro _; rfl
  | cons c l ih =>
    intro h
    rw [String.ofList_cons, String.utf8ByteSize_append, String.utf8ByteSize_singleton,
      h c (List.mem_cons_self ..), ih fun c hc => h c (List.mem_cons_of_mem _ hc),
      List.length_cons, Nat.add_comm]

theorem utf8ByteSize_hex_le (n : UInt32) : (hex n).utf8ByteSize ≤ 8 := by
  have hchars : ∀ c ∈ Nat.toDigits 16 n.toNat, c.utf8Size = 1 := by
    intro c hc
    obtain ⟨d, rfl⟩ := exists_digit n.toNat c hc
    exact (digitChar_ne d).2
  rw [hex, utf8ByteSize_ofList hchars, Nat.length_toDigits_le_iff (by decide) (by decide)]
  exact n.toNat_lt

theorem utf8ByteSize_name_le (p c : UInt32) : (name p c).utf8ByteSize ≤ 21 := by
  have hp := utf8ByteSize_hex_le p
  have hc := utf8ByteSize_hex_le c
  have hlfr : "/lfr".utf8ByteSize = 4 := by decide
  have hdot : ".".utf8ByteSize = 1 := by decide
  rw [name, String.utf8ByteSize_append, String.utf8ByteSize_append, String.utf8ByteSize_append,
    hlfr, hdot]
  omega

/-! ## Processes and their calls -/

/-- A thread: its process's identifier and its own. -/
abbrev Thread := UInt32 × ℕ

/-- Where a call of `create` for `len` bytes stands.  Its number is `number` draws
after the first of its process, and `object` tells the object it made from all
others. -/
inductive Call where
  | idle
  | named (number : ℕ) (len : UInt64)
  | opened (number object : ℕ) (len : UInt64)
  | unlinked (object : ℕ) (len : UInt64)
  | sized (object : ℕ) (fd : Object) (len : UInt64) (size_fd : fd.size = (wholePages len).toNat)

namespace Call

/-- The bytes asked for. -/
def len : Call → Option UInt64
  | idle => none
  | named _ len | opened _ _ len | unlinked _ len | sized _ _ len _ => some len

/-- The number whose name is in use. -/
def number : Call → Option ℕ
  | named k _ | opened k _ _ => some k
  | idle | unlinked _ _ | sized _ _ _ _ => none

/-- The object the call has. -/
def object : Call → Option ℕ
  | idle | named _ _ => none
  | opened _ o _ | unlinked o _ | sized o _ _ _ => some o

/-- What the call has of the names, in a process with this identifier. -/
def agent (pid : UInt32) : Call → Directory.Agent String
  | idle | named _ _ => .idle
  | opened k o _ => .made (name pid (UInt32.ofNat k)) o
  | unlinked o _ | sized o _ _ _ => .owns o

theorem object_agent (pid : UInt32) (c : Call) : (c.agent pid).object = c.object := by
  cases c <;> rfl

theorem agent_eq_made_iff {pid : UInt32} {c : Call} {n : String} {o : ℕ} :
    c.agent pid = .made n o ↔ ∃ k len, c = .opened k o len ∧ n = name pid (UInt32.ofNat k) := by
  constructor
  · intro h
    cases c with
    | opened k o' len =>
      obtain ⟨rfl, rfl⟩ := Directory.Agent.made.inj h
      exact ⟨k, len, rfl, rfl⟩
    | idle => cases h
    | named k len => cases h
    | unlinked o' len => cases h
    | sized o' fd len hfd => cases h
  · rintro ⟨k, len, rfl, rfl⟩
    rfl

end Call

/-- All processes of a machine, and the names. -/
structure World where
  /-- How often each process has drawn. -/
  drawn : UInt32 → ℕ
  calls : Thread → Call
  objects : List (Option Thread × String)
  entries : String → Option ℕ
  /-- What the calls were asked for and have returned: a buffer with its object, or an
  error. -/
  results : List (UInt64 × Except CreateError (ℕ × SharedBuffer))
  /-- The names that calls which failed, or processes which ended, left behind. -/
  left : Set String

/-- The name belongs to some process's counter. -/
def Own (n : String) : Prop := ∃ pid counter, n = name pid counter

namespace World

/-- The object of a result. -/
def made (r : UInt64 × Except CreateError (ℕ × SharedBuffer)) : Option ℕ :=
  match r.2 with
  | .ok b => some b.1
  | .error _ => none

/-- The names alone. -/
def directory (w : World) : Directory.State Thread String where
  objects := w.objects
  entries := w.entries
  agents t := (w.calls t).agent t.1
  kept := w.results.filterMap made
  left := w.left

/-- Before any call: the objects there are have other names. -/
def start (others : List String) (entries : String → Option ℕ) : World where
  drawn _ := 0
  calls _ := .idle
  objects := others.map fun n => (none, n)
  entries := entries
  results := []
  left := ∅

end World

/-- One call of some thread, the end of a process, or a call of another program. -/
inductive Step (w : World) : World → Prop
  | empty (t : Thread) : w.calls t = .idle →
      Step w { w with results := (0, .error .empty) :: w.results }
  -- `COUNTER.fetch_add(1)`
  | draw (t : Thread) (len : UInt64) : len ≠ 0 → w.calls t = .idle →
      Step w { w with
        drawn := Function.update w.drawn t.1 (w.drawn t.1 + 1)
        calls := Function.update w.calls t (.named (w.drawn t.1) len) }
  -- `shm::open` with `CREATE | EXCL`
  | «open» (t : Thread) (k : ℕ) (len : UInt64) : w.calls t = .named k len →
      w.entries (name t.1 (UInt32.ofNat k)) = none →
      Step w { w with
        objects := w.objects ++ [(some t, name t.1 (UInt32.ofNat k))]
        entries := Function.update w.entries (name t.1 (UInt32.ofNat k)) (some w.objects.length)
        calls := Function.update w.calls t (.opened k w.objects.length len) }
  | unlink (t : Thread) (k o : ℕ) (len : UInt64) : w.calls t = .opened k o len →
      Step w { w with
        entries := Function.update w.entries (name t.1 (UInt32.ofNat k)) none
        calls := Function.update w.calls t (.unlinked o len) }
  | ftruncate (t : Thread) (o : ℕ) (len : UInt64) (fd : Object)
      (hfd : fd.size = (wholePages len).toNat) : w.calls t = .unlinked o len →
      Step w { w with calls := Function.update w.calls t (.sized o fd len hfd) }
  | mapMut (t : Thread) (o : ℕ) (fd : Object) (len : UInt64)
      (hfd : fd.size = (wholePages len).toNat) (hlen : len.toNat < 2 ^ 63) :
      w.calls t = .sized o fd len hfd →
      Step w { w with
        calls := Function.update w.calls t .idle
        results := (len, .ok (o, ⟨fd, len, hfd ▸ le_wholePages len hlen⟩)) :: w.results }
  -- any of the four calls may fail, which is what the call returns
  | fails (t : Thread) (len : UInt64) (error : String) : (w.calls t).len = some len →
      Step w { w with
        calls := fun t' => if t' = t then .idle else w.calls t'
        results := (len, .error (.system error)) :: w.results
        left := w.left ∪ {n | ∃ t' o, decide (t' = t) = true ∧ (w.calls t').agent t'.1 = .made n o} }
  | exit (pid : UInt32) :
      Step w { w with
        drawn := Function.update w.drawn pid 0
        calls := fun t => if t.1 = pid then .idle else w.calls t
        left := w.left ∪
          {n | ∃ t o, decide (t.1 = pid) = true ∧ (w.calls t).agent t.1 = .made n o} }
  | foreign (n : String) (here : Bool) : ¬ Own n →
      Step w { w with
        objects := w.objects ++ [(none, n)]
        entries := Function.update w.entries n (if here then some w.objects.length else none) }

/-- What the calls of all processes can come to. -/
def Reachable (w : World) : Prop :=
  ∃ others entries, (∀ n ∈ others, ¬ Own n) ∧ (∀ n o, entries n = some o → others[o]? = some n) ∧
    Relation.ReflTransGen Step (World.start others entries) w

/-! ### The names -/

theorem agents_update (calls : Thread → Call) (t : Thread) (c : Call) :
    (fun t' => (Function.update calls t c t').agent t'.1) =
      Function.update (fun t' => (calls t').agent t'.1) t (c.agent t.1) := by
  funext t'
  by_cases ht : t' = t
  · subst ht
    simp
  · simp [ht]

/-- A call that gets as far without touching a name. -/
theorem agents_update_eq {calls : Thread → Call} {t : Thread} {c : Call}
    (h : c.agent t.1 = (calls t).agent t.1) :
    (fun t' => (Function.update calls t c t').agent t'.1) = fun t' => (calls t').agent t'.1 := by
  rw [agents_update, h]
  exact Function.update_eq_self ..

theorem agents_ite (calls : Thread → Call) (p : Thread → Prop) [DecidablePred p] :
    (fun t => (if p t then Call.idle else calls t).agent t.1) =
      fun t => if decide (p t) then .idle else (calls t).agent t.1 := by
  funext t
  by_cases h : p t
  · simp [h, Call.agent]
  · simp [h]

/-- **Each call is a step among the names, or none.** -/
theorem Step.directory {w w' : World} (h : Step w w') :
    w'.directory = w.directory ∨ Directory.Step Own w.directory w'.directory := by
  cases h with
  | empty t ht => exact Or.inl rfl
  | draw t len h0 ht =>
    refine Or.inl ?_
    have hagent : (Call.named (w.drawn t.1) len).agent t.1 = (w.calls t).agent t.1 := by
      rw [ht]
      rfl
    simp only [World.directory, agents_update_eq hagent]
  | «open» t k len ht hn =>
    refine Or.inr ?_
    have hidle : w.directory.agents t = .idle := by
      show (w.calls t).agent t.1 = .idle
      rw [ht]
      rfl
    have hstep : Directory.Step Own w.directory _ :=
      .make t _ hidle hn ⟨t.1, UInt32.ofNat k, rfl⟩
    convert hstep using 1
    simp only [World.directory, agents_update]
    rfl
  | unlink t k o len ht =>
    refine Or.inr ?_
    have hmade : w.directory.agents t = .made (name t.1 (UInt32.ofNat k)) o := by
      show (w.calls t).agent t.1 = .made (name t.1 (UInt32.ofNat k)) o
      rw [ht]
      rfl
    have hstep : Directory.Step Own w.directory _ := .remove t _ o hmade
    convert hstep using 1
    simp only [World.directory, agents_update]
    rfl
  | ftruncate t o len fd hfd ht =>
    refine Or.inl ?_
    have hagent : (Call.sized o fd len hfd).agent t.1 = (w.calls t).agent t.1 := by
      rw [ht]
      rfl
    simp only [World.directory, agents_update_eq hagent]
  | mapMut t o fd len hfd hlen ht =>
    refine Or.inr ?_
    have howns : w.directory.agents t = .owns o := by
      show (w.calls t).agent t.1 = .owns o
      rw [ht]
      rfl
    have hstep : Directory.Step Own w.directory _ := .keep t o howns
    convert hstep using 1
    simp only [World.directory, agents_update]
    rfl
  | fails t len error ht =>
    refine Or.inr ?_
    have hstep : Directory.Step Own w.directory _ := .abandon fun t' => decide (t' = t)
    convert hstep using 1
    simp only [World.directory, agents_ite]
    rfl
  | exit pid =>
    refine Or.inr ?_
    have hstep : Directory.Step Own w.directory _ := .abandon fun t => decide (t.1 = pid)
    convert hstep using 1
    simp only [World.directory, agents_ite]
  | foreign n here hn => exact Or.inr (.foreign n here hn)

theorem Step.inv {w w' : World} (h : Step w w') (hw : Directory.Inv Own w.directory) :
    Directory.Inv Own w'.directory := by
  rcases h.directory with heq | hstep
  · rw [heq]
    exact hw
  · exact hstep.inv hw

/-! ### The numbers -/

/-- The numbers whose names are in use have been drawn, each by one call. -/
structure Numbers (w : World) : Prop where
  lt : ∀ t k, (w.calls t).number = some k → k < w.drawn t.1
  inj : ∀ t t' k, t.1 = t'.1 → (w.calls t).number = some k → (w.calls t').number = some k → t = t'

/-- No number comes into use. -/
theorem Numbers.mono {w w' : World} (hw : Numbers w)
    (h : ∀ t k, (w'.calls t).number = some k →
      (w.calls t).number = some k ∧ w'.drawn t.1 = w.drawn t.1) : Numbers w' where
  lt := by
    intro t k hk
    obtain ⟨hk', hdrawn⟩ := h t k hk
    rw [hdrawn]
    exact hw.lt t k hk'
  inj := by
    intro t t' k hpid hk hk'
    exact hw.inj t t' k hpid (h t k hk).1 (h t' k hk').1

theorem number_update {calls : Thread → Call} {t t' : Thread} {c : Call} {k : ℕ}
    (hc : ∀ k, c.number = some k → (calls t).number = some k)
    (h : (Function.update calls t c t').number = some k) : (calls t').number = some k := by
  by_cases ht : t' = t
  · subst ht
    rw [Function.update_self] at h
    exact hc k h
  · rwa [Function.update_of_ne ht] at h

theorem Numbers.draw {w : World} (hw : Numbers w) (t : Thread) (len : UInt64) :
    Numbers { w with
      drawn := Function.update w.drawn t.1 (w.drawn t.1 + 1)
      calls := Function.update w.calls t (.named (w.drawn t.1) len) } := by
  have hcases : ∀ t' k, (Function.update w.calls t (.named (w.drawn t.1) len) t').number = some k →
      (t' = t ∧ k = w.drawn t.1) ∨ (t' ≠ t ∧ (w.calls t').number = some k) := by
    intro t' k hk
    by_cases ht : t' = t
    · subst ht
      rw [Function.update_self] at hk
      exact Or.inl ⟨rfl, (Option.some.inj hk).symm⟩
    · rw [Function.update_of_ne ht] at hk
      exact Or.inr ⟨ht, hk⟩
  constructor
  · intro t' k hk
    show k < Function.update w.drawn t.1 (w.drawn t.1 + 1) t'.1
    rcases hcases t' k hk with ⟨rfl, rfl⟩ | ⟨-, hk⟩
    · rw [Function.update_self]
      omega
    · have hlt := hw.lt t' k hk
      by_cases hpid : t'.1 = t.1
      · rw [hpid] at hlt ⊢
        rw [Function.update_self]
        omega
      · rwa [Function.update_of_ne hpid]
  · intro t₁ t₂ k hpid hk₁ hk₂
    rcases hcases t₁ k hk₁ with ⟨rfl, rfl⟩ | ⟨-, hold₁⟩
    · rcases hcases t₂ _ hk₂ with ⟨rfl, -⟩ | ⟨-, hold₂⟩
      · rfl
      · have hlt := hw.lt t₂ _ hold₂
        rw [← hpid] at hlt
        omega
    · rcases hcases t₂ k hk₂ with ⟨rfl, rfl⟩ | ⟨-, hold₂⟩
      · have hlt := hw.lt t₁ _ hold₁
        rw [hpid] at hlt
        omega
      · exact hw.inj t₁ t₂ k hpid hold₁ hold₂

theorem Step.numbers {w w' : World} (h : Step w w') (hw : Numbers w) : Numbers w' := by
  cases h with
  | empty t ht => exact hw.mono fun _ _ hk => ⟨hk, rfl⟩
  | draw t len h0 ht => exact hw.draw t len
  | «open» t k len ht hn =>
    refine hw.mono fun t' k' hk => ⟨number_update ?_ hk, rfl⟩
    rw [ht]
    exact fun _ h => h
  | unlink t k o len ht =>
    exact hw.mono fun t' k' hk => ⟨number_update (fun _ h => by cases h) hk, rfl⟩
  | ftruncate t o len fd hfd ht =>
    exact hw.mono fun t' k' hk => ⟨number_update (fun _ h => by cases h) hk, rfl⟩
  | mapMut t o fd len hfd hlen ht =>
    exact hw.mono fun t' k' hk => ⟨number_update (fun _ h => by cases h) hk, rfl⟩
  | fails t len error ht =>
    refine hw.mono fun t' k' hk => ⟨?_, rfl⟩
    by_cases h : t' = t
    · simp [h, Call.number] at hk
    · simpa [h] using hk
  | exit pid =>
    refine hw.mono fun t' k' hk => ?_
    by_cases h : t'.1 = pid
    · simp [h, Call.number] at hk
    · exact ⟨by simpa [h] using hk, Function.update_of_ne h ..⟩
  | foreign n here hn => exact hw.mono fun _ _ hk => ⟨hk, rfl⟩

/-! ### The results -/

/-- What a call returns, `create` returns for some answers of the system. -/
structure Answers (w : World) : Prop where
  asked : ∀ t len, (w.calls t).len = some len → len ≠ 0
  results : ∀ r ∈ w.results, ∃ os, SharedBuffer.create os r.1 = r.2.map Prod.snd

theorem create_fails {len : UInt64} (h0 : len ≠ 0) (error : String) :
    ∃ os, SharedBuffer.create os len = .error (.system error) := by
  refine ⟨{ Creator.reliable with shmOpen := .error error }, ?_⟩
  rw [SharedBuffer.create, if_neg h0]

theorem create_makes {len : UInt64} (h0 : len ≠ 0) (hlen : len.toNat < 2 ^ 63) {fd : Object}
    (hfd : fd.size = (wholePages len).toNat) (hle : len.toNat ≤ fd.size) :
    ∃ os, SharedBuffer.create os len = .ok ⟨fd, len, hle⟩ := by
  let os : Creator :=
    { shmOpen := .ok ()
      shmUnlink := .ok ()
      ftruncate := fun n => if n = wholePages len then .ok fd else .error ""
      mapMut := fun _ n => if n.toNat < 2 ^ 63 then .ok () else .error ""
      size_ftruncate := by
        intro n fd' h
        split at h
        · next hn =>
          obtain rfl := Except.ok.inj h
          rw [hn, hfd]
        · cases h
      len_mapMut := by
        intro fd' n h
        split at h
        · assumption
        · cases h }
  have hsize : os.ftruncate (wholePages len) = .ok fd := if_pos rfl
  have hmap : os.mapMut fd len = .ok () := if_pos hlen
  refine ⟨os, ?_⟩
  unfold SharedBuffer.create
  rw [if_neg h0]
  split
  · next hopen => cases hopen
  · next hunlink => cases hunlink
  · split
    · next e he =>
      rw [hsize] at he
      cases he
    · next fd' hfd' =>
      obtain rfl := Except.ok.inj (hsize.symm.trans hfd')
      split
      · next e he =>
        rw [hmap] at he
        cases he
      · rfl

theorem asked_update {calls : Thread → Call} {t t' : Thread} {c : Call} {len : UInt64}
    (hcalls : ∀ t len, (calls t).len = some len → len ≠ 0) (hc : ∀ len, c.len = some len → len ≠ 0)
    (h : (Function.update calls t c t').len = some len) : len ≠ 0 := by
  by_cases ht : t' = t
  · subst ht
    rw [Function.update_self] at h
    exact hc len h
  · rw [Function.update_of_ne ht] at h
    exact hcalls t' len h

theorem Step.answers {w w' : World} (h : Step w w') (hw : Answers w) : Answers w' := by
  have hcons : ∀ {r}, (∃ os, SharedBuffer.create os r.1 = r.2.map Prod.snd) →
      ∀ r' ∈ r :: w.results, ∃ os, SharedBuffer.create os r'.1 = r'.2.map Prod.snd := by
    intro r hr r' hr'
    rcases List.mem_cons.mp hr' with rfl | hr'
    · exact hr
    · exact hw.results r' hr'
  cases h with
  | empty t ht => exact ⟨hw.asked, hcons ⟨.reliable, rfl⟩⟩
  | draw t len h0 ht =>
    refine ⟨fun t' n hn => asked_update hw.asked ?_ hn, hw.results⟩
    intro n hn
    obtain rfl := Option.some.inj hn
    exact h0
  | «open» t k len ht hn =>
    exact ⟨fun t' n => asked_update hw.asked fun n hn => hw.asked t n (by rw [ht]; exact hn),
      hw.results⟩
  | unlink t k o len ht =>
    exact ⟨fun t' n => asked_update hw.asked fun n hn => hw.asked t n (by rw [ht]; exact hn),
      hw.results⟩
  | ftruncate t o len fd hfd ht =>
    exact ⟨fun t' n => asked_update hw.asked fun n hn => hw.asked t n (by rw [ht]; exact hn),
      hw.results⟩
  | mapMut t o fd len hfd hlen ht =>
    refine ⟨fun t' n => asked_update hw.asked (fun n hn => by cases hn), hcons ?_⟩
    exact create_makes (hw.asked t len (by rw [ht]; rfl)) hlen hfd _
  | fails t len error ht =>
    refine ⟨?_, hcons (create_fails (hw.asked t len ht) error)⟩
    intro t' n hn
    by_cases h : t' = t
    · simp [h, Call.len] at hn
    · exact hw.asked t' n (by simpa [h] using hn)
  | exit pid =>
    refine ⟨?_, hw.results⟩
    intro t' n hn
    by_cases h : t'.1 = pid
    · simp [h, Call.len] at hn
    · exact hw.asked t' n (by simpa [h] using hn)
  | foreign n here hn => exact ⟨hw.asked, hw.results⟩

/-! ### Every run -/

theorem Reachable.inv {w : World} (h : Reachable w) :
    Directory.Inv Own w.directory ∧ Numbers w ∧ Answers w := by
  obtain ⟨others, entries, hothers, hentries, hsteps⟩ := h
  induction hsteps with
  | refl =>
    refine ⟨Directory.inv_start hothers hentries, ⟨?_, ?_⟩, ⟨?_, ?_⟩⟩
    · intro t k hk
      cases hk
    · intro t t' k _ hk
      cases hk
    · intro t len hlen
      cases hlen
    · intro r hr
      cases hr
  | tail _ hstep ih =>
    obtain ⟨hdir, hnumbers, hanswers⟩ := ih
    exact ⟨hstep.inv hdir, hstep.numbers hnumbers, hstep.answers hanswers⟩

/-- Two numbers with one name are `2 ^ 32` draws apart. -/
theorem le_of_ofNat_eq {k k' : ℕ} (hne : k ≠ k') (h : UInt32.ofNat k = UInt32.ofNat k') :
    2 ^ 32 ≤ max k k' := by
  have hmod : k % 2 ^ 32 = k' % 2 ^ 32 := by
    have := congrArg UInt32.toNat h
    simpa only [UInt32.toNat_ofNat'] using this
  omega

/-- **Concurrent calls do not meet.**  Whatever all processes of a machine have done,
and whichever calls have failed:

* a name fits the 31 bytes macOS allows;
* what a call is about to unlink is the object it made;
* no two calls have one object, and no two buffers, and no call has a buffer's;
* the object of a buffer has no name;
* a name is that of a call between making and unlinking it, or was left behind by one
  that failed or whose process ended;
* a call finds its name taken only if it was left behind, or its process has drawn more
  than `2 ^ 32` numbers;
* what a call returned is what `create` returns for some answers of the system. -/
theorem create_exclusive {w : World} (h : Reachable w) :
    (∀ pid counter, (name pid counter).utf8ByteSize ≤ 31) ∧
    (∀ t k o len, w.calls t = .opened k o len →
      w.entries (name t.1 (UInt32.ofNat k)) = some o) ∧
    (∀ t t' o, (w.calls t).object = some o → (w.calls t').object = some o → t = t') ∧
    (w.results.filterMap World.made).Nodup ∧
    (∀ o ∈ w.results.filterMap World.made,
      (∀ n, w.entries n ≠ some o) ∧ ∀ t, (w.calls t).object ≠ some o) ∧
    (∀ pid counter o, w.entries (name pid counter) = some o →
      (∃ i k len, w.calls (pid, i) = .opened k o len ∧ counter = UInt32.ofNat k) ∨
        name pid counter ∈ w.left) ∧
    (∀ t k len, w.calls t = .named k len → w.entries (name t.1 (UInt32.ofNat k)) ≠ none →
      name t.1 (UInt32.ofNat k) ∈ w.left ∨ 2 ^ 32 < w.drawn t.1) ∧
    (∀ r ∈ w.results, ∃ os, SharedBuffer.create os r.1 = r.2.map Prod.snd) := by
  obtain ⟨hdir, hnumbers, hanswers⟩ := h.inv
  have hobject : ∀ t, (w.directory.agents t).object = (w.calls t).object :=
    fun t => Call.object_agent t.1 (w.calls t)
  have hentry : ∀ pid counter o, w.entries (name pid counter) = some o →
      (∃ i k len, w.calls (pid, i) = .opened k o len ∧ counter = UInt32.ofNat k) ∨
        name pid counter ∈ w.left := by
    intro pid counter o ho
    rcases hdir.accounted _ o ⟨pid, counter, rfl⟩ ho with ⟨t, ht⟩ | hleft
    · obtain ⟨k, len, hcall, hname⟩ := Call.agent_eq_made_iff.mp ht
      obtain ⟨rfl, rfl⟩ := name_inj hname
      exact Or.inl ⟨t.2, k, len, hcall, rfl⟩
    · exact Or.inr hleft
  refine ⟨fun pid counter => (utf8ByteSize_name_le pid counter).trans (by decide), ?_, ?_,
    hdir.nodup, ?_, hentry, ?_, hanswers.results⟩
  · intro t k o len ht
    exact (hdir.entry t _ o (Call.agent_eq_made_iff.mpr ⟨k, len, ht, rfl⟩)).2.2
  · intro t t' o ht ht'
    exact hdir.eq_of_object (by rw [hobject, ht]) (by rw [hobject, ht'])
  · intro o ho
    refine ⟨hdir.entries_ne_of_kept ho, fun t => ?_⟩
    rw [← hobject]
    exact hdir.object_ne_of_kept ho t
  · intro t k len ht htaken
    obtain ⟨o, ho⟩ := Option.ne_none_iff_exists'.mp htaken
    rcases hentry t.1 _ o ho with ⟨i, k', len', hcall, hcounter⟩ | hleft
    · have hlt := hnumbers.lt t k (by rw [ht]; rfl)
      have hlt' : k' < w.drawn t.1 := hnumbers.lt (t.1, i) k' (by rw [hcall]; rfl)
      -- the two calls are not one, so their numbers are not
      have hne : k ≠ k' := by
        rintro rfl
        have heq := hnumbers.inj t (t.1, i) k rfl (by rw [ht]; rfl) (by rw [hcall]; rfl)
        rw [← heq, ht] at hcall
        cases hcall
      have hmax := le_of_ofNat_eq hne hcounter
      exact Or.inr (by omega)
    · exact Or.inl hleft

/-- The first call of process 7, when it has made its object. -/
theorem create_exclusive_first : ∃ w : World, w.calls (7, 0) = .opened 0 0 5 ∧
    w.entries (name 7 0) = some 0 := by
  let w₀ : World := .start [] fun _ => none
  let w₁ : World :=
    { w₀ with
      drawn := Function.update w₀.drawn 7 (w₀.drawn 7 + 1)
      calls := Function.update w₀.calls (7, 0) (.named 0 5) }
  let w₂ : World :=
    { w₁ with
      objects := w₁.objects ++ [(some (7, 0), name 7 (UInt32.ofNat 0))]
      entries := Function.update w₁.entries (name 7 (UInt32.ofNat 0)) (some w₁.objects.length)
      calls := Function.update w₁.calls (7, 0) (.opened 0 w₁.objects.length 5) }
  have hdraw : Step w₀ w₁ := .draw (7, 0) 5 (by decide) rfl
  have hnamed : w₁.calls (7, 0) = .named 0 5 := by
    show Function.update w₀.calls (7, 0) (.named 0 5) (7, 0) = .named 0 5
    exact Function.update_self ..
  have hopen : Step w₁ w₂ := .open (7, 0) 0 5 hnamed rfl
  have hreach : Reachable w₂ :=
    ⟨[], fun _ => none, by simp, by simp, (Relation.ReflTransGen.single hdraw).tail hopen⟩
  have hcall : w₂.calls (7, 0) = .opened 0 0 5 := by
    show Function.update w₁.calls (7, 0) (.opened 0 0 5) (7, 0) = .opened 0 0 5
    exact Function.update_self ..
  exact ⟨w₂, hcall, (create_exclusive hreach).2.1 (7, 0) 0 0 5 hcall⟩

end RawHelper.Shm
