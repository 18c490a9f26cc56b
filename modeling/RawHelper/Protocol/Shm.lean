import RawHelper.Protocol.Messages

/-!
# Shared memory

`protocol/src/shm.rs`.  `SharedBuffer.create` makes an object of whole pages and
maps the first `len` bytes of it for writing.  `mapReceived`, on the other side,
takes the object that came with a reply and the size the reply's layout
announces, compares that size with the object's real one, and maps the object
read-only.

What the operating system may answer is a parameter (`Os` and `Creator`): each
call can fail, and a mapping that is made has the length asked for.

Both sides round up to pages, which wraps near `2 ^ 64`.  Below `2 ^ 63` it gives
the least multiple of a page (`isLeast_wholePages`), and nothing larger is ever
mapped: `mapReceived_whole_pages` says what the receiver maps of any object, and
of one made by `create`.

The announced size is a product of untrusted factors computed in 64 bits, so a
layout whose exact size is `2 ^ 64` or more is compared by what is left of it.
`mapReceived_holds_image_iff` says exactly when the check still keeps its
promise, and `mapReceived_accepts_too_small` is a layout for which it does not.
-/

namespace RawHelper.Shm

/-- Granularity of shared objects. -/
def page : UInt64 := 16 * 1024

/-- `len` rounded up to whole pages, in wrapping arithmetic. -/
def wholePages (len : UInt64) : UInt64 :=
  (len / page + if len % page = 0 then 0 else 1) * page

/-- A shared memory object: no file size passes `i64::MAX`. -/
structure Object where
  content : List UInt8
  size_lt : content.length < 2 ^ 63

/-- The real size of the object. -/
def Object.size (fd : Object) : Nat := fd.content.length

/-- An object as its size is set, before anything is written. -/
def Object.zeros (n : Nat) (h : n < 2 ^ 63) : Object where
  content := List.replicate n 0
  size_lt := by rwa [List.length_replicate]

@[simp] theorem Object.size_zeros (n : Nat) (h : n < 2 ^ 63) : (zeros n h).size = n :=
  List.length_replicate

inductive Error where
  | fstat
  | smallerThanAnnounced
  | mmap
deriving DecidableEq, Repr

/-- A read-only mapping of an object's first `len` bytes. -/
structure Mmap where
  object : Object
  len : UInt64

def Mmap.bytes (m : Mmap) : List UInt8 := m.object.content.take m.len.toNat

/-- What the operating system answers. -/
structure Os where
  fstatFails : Object → Bool
  mmapFails : Object → UInt64 → Bool

/-- `st_size`, a signed number. -/
def fstat (os : Os) (fd : Object) : Except Error Int64 :=
  if os.fstatFails fd then .error .fstat else .ok (Int64.ofNat fd.size)

def mmap (os : Os) (fd : Object) (len : UInt64) : Except Error Mmap :=
  if os.mmapFails fd len then .error .mmap else .ok ⟨fd, len⟩

/-- Maps a received buffer read-only, after checking that it really holds `len`
bytes. -/
def mapReceived (os : Os) (fd : Object) (len : UInt64) : Except Error Mmap := do
  let size ← fstat os fd
  if len = 0 ∨ size.toUInt64 < len then
    throw .smallerThanAnnounced
  let mapped := if wholePages len ≤ size.toUInt64 then wholePages len else len
  mmap os fd mapped

/-! ### Rounding to pages -/

theorem toNat_page : page.toNat = 16384 := rfl

/-- Below `2 ^ 63` rounding up does not wrap. -/
theorem toNat_wholePages {len : UInt64} (h : len.toNat < 2 ^ 63) :
    (wholePages len).toNat = (len.toNat + 16383) / 16384 * 16384 := by
  have hmod : len % page = 0 ↔ len.toNat % 16384 = 0 := by
    rw [← UInt64.toNat_inj, UInt64.toNat_mod, toNat_page]; rfl
  rw [wholePages, UInt64.toNat_mul, UInt64.toNat_add, UInt64.toNat_div, toNat_page]
  by_cases h0 : len.toNat % 16384 = 0
  · rw [if_pos (hmod.mpr h0), UInt64.toNat_zero]
    omega
  · rw [if_neg (fun h => h0 (hmod.mp h)), UInt64.toNat_one]
    omega

theorem le_wholePages (len : UInt64) (h : len.toNat < 2 ^ 63) :
    len.toNat ≤ (wholePages len).toNat := by
  rw [toNat_wholePages h]
  omega

/-- **Below `2 ^ 63` the result is the least multiple of a page that is not
below.** -/
theorem isLeast_wholePages {len : UInt64} (h : len.toNat < 2 ^ 63) :
    IsLeast {n : ℕ | page.toNat ∣ n ∧ len.toNat ≤ n} (wholePages len).toNat := by
  refine ⟨⟨?_, le_wholePages len h⟩, ?_⟩
  · rw [toNat_wholePages h, toNat_page]
    exact Nat.dvd_mul_left _ _
  · rintro n ⟨⟨k, rfl⟩, hn⟩
    rw [toNat_page] at hn ⊢
    rw [toNat_wholePages h]
    omega

/-! ## Creation -/

/-- What the operating system answers to the creator.  Setting a size sets it
exactly or fails, and no mapping is longer than a signed number can say. -/
structure Creator where
  shmOpen : Except String Unit
  shmUnlink : Except String Unit
  ftruncate : UInt64 → Except String Object
  mapMut : Object → UInt64 → Except String Unit
  size_ftruncate : ∀ {n : UInt64} {fd : Object}, ftruncate n = .ok fd → fd.size = n.toNat
  len_mapMut : ∀ {fd : Object} {len : UInt64}, mapMut fd len = .ok () → len.toNat < 2 ^ 63

inductive CreateError where
  | empty
  | system (error : String)
deriving DecidableEq, Repr

def CreateError.toString : CreateError → String
  | .empty => "empty shared buffer"
  | .system error => error

/-- A writable shared buffer and its descriptor: the object's first `len` bytes
are mapped. -/
structure SharedBuffer where
  fd : Object
  len : UInt64
  len_le : len.toNat ≤ fd.size

namespace SharedBuffer

def create (os : Creator) (len : UInt64) : Except CreateError SharedBuffer :=
  if len = 0 then
    .error .empty
  else
    match os.shmOpen, os.shmUnlink with
    | .error e, _ => .error (.system e)
    | .ok (), .error e => .error (.system e)
    | .ok (), .ok () =>
      match hfd : os.ftruncate (wholePages len) with
      | .error e => .error (.system e)
      | .ok fd =>
        match hmap : os.mapMut fd len with
        | .error e => .error (.system e)
        | .ok () =>
          .ok ⟨fd, len, by
            rw [os.size_ftruncate hfd]
            exact le_wholePages len (os.len_mapMut hmap)⟩

/-- The bytes that are mapped. -/
def map (b : SharedBuffer) : List UInt8 := b.fd.content.take b.len.toNat

/-- The buffer once other bytes are written through the mapping. -/
def write (b : SharedBuffer) (bytes : List UInt8) (h : bytes.length = b.len.toNat) :
    SharedBuffer where
  fd :=
    { content := bytes ++ b.fd.content.drop b.len.toNat
      size_lt := by
        have h₁ := b.fd.size_lt
        have h₂ : b.len.toNat ≤ b.fd.content.length := b.len_le
        rw [List.length_append, List.length_drop]
        omega }
  len := b.len
  len_le := by
    rw [Object.size, List.length_append]
    omega

/-- `buffer.map.copy_from_slice(bytes)`; `none` is the panic when the lengths
differ. -/
def copyFromSlice (b : SharedBuffer) (bytes : List UInt8) : Option SharedBuffer :=
  if h : bytes.length = b.len.toNat then some (b.write bytes h) else none

theorem map_write (b : SharedBuffer) {bytes : List UInt8} (h : bytes.length = b.len.toNat) :
    (b.write bytes h).map = bytes := by
  rw [map, write]
  exact List.take_left' h

theorem size_write (b : SharedBuffer) {bytes : List UInt8} (h : bytes.length = b.len.toNat) :
    (b.write bytes h).fd.size = b.fd.size := by
  have hle : b.len.toNat ≤ b.fd.content.length := b.len_le
  rw [Object.size, Object.size, write, List.length_append, List.length_drop]
  omega

theorem create_eq_empty_iff {os : Creator} {len : UInt64} :
    create os len = .error .empty ↔ len = 0 := by
  rw [create]
  constructor
  · intro h
    by_contra h0
    rw [if_neg h0] at h
    repeat' split at h
    all_goals cases h
  · intro h
    rw [if_pos h]

/-- **What is created has whole pages**, and its length did not wrap. -/
theorem create_ok {os : Creator} {len : UInt64} {b : SharedBuffer} (h : create os len = .ok b) :
    b.len = len ∧ len ≠ 0 ∧ len.toNat < 2 ^ 63 ∧ b.fd.size = (wholePages len).toNat := by
  rw [create] at h
  split at h
  · cases h
  · next h0 =>
    split at h
    · cases h
    · cases h
    · split at h
      · cases h
      · next fd hfd =>
        split at h
        · cases h
        · next hmap =>
          obtain rfl := Except.ok.inj h
          exact ⟨rfl, h0, os.len_mapMut hmap, os.size_ftruncate hfd⟩

end SharedBuffer

/-! ### What is mapped -/

theorem toNat_size (fd : Object) : (Int64.ofNat fd.size).toUInt64.toNat = fd.size := by
  have h : fd.size < 2 ^ 63 := fd.size_lt
  show (UInt64.ofNat fd.size).toNat = fd.size
  rw [UInt64.toNat_ofNat']
  omega

theorem eq_of_mmap_ok {os : Os} {fd : Object} {len : UInt64} {m : Mmap}
    (h : mmap os fd len = .ok m) : ⟨fd, len⟩ = m := by
  rw [mmap] at h
  split at h
  · cases h
  · exact Except.ok.inj h

theorem mapReceived_eq_mmap {os : Os} {fd : Object} {len : UInt64}
    (hstat : os.fstatFails fd = false) (h0 : len ≠ 0) (hlen : len.toNat ≤ fd.size) :
    mapReceived os fd len =
      mmap os fd (if (wholePages len).toNat ≤ fd.size then wholePages len else len) := by
  have hnot : ¬ (len = 0 ∨ (Int64.ofNat fd.size).toUInt64 < len) := by
    rw [UInt64.lt_iff_toNat_lt, toNat_size, not_or]
    exact ⟨h0, by omega⟩
  rw [mapReceived, fstat, hstat]
  simp only [Bool.false_eq_true, if_false, bind, Except.bind, hnot, UInt64.le_iff_toNat_le,
    toNat_size]

/-- **A mapping holds the announced bytes and stays inside the object.** -/
theorem mapReceived_ok {os : Os} {fd : Object} {len : UInt64} {m : Mmap}
    (h : mapReceived os fd len = .ok m) :
    len ≠ 0 ∧ len.toNat ≤ fd.size ∧ len.toNat ≤ m.len.toNat ∧ m.len.toNat ≤ fd.size := by
  have hstat : os.fstatFails fd = false := by
    cases hs : os.fstatFails fd with
    | false => rfl
    | true => rw [mapReceived, fstat, hs] at h; cases h
  have hacc : len ≠ 0 ∧ len.toNat ≤ fd.size := by
    by_contra hcon
    have hrej : len = 0 ∨ (Int64.ofNat fd.size).toUInt64 < len := by
      rw [UInt64.lt_iff_toNat_lt, toNat_size]
      by_contra hn
      exact hcon ⟨fun h0 => hn (Or.inl h0), by omega⟩
    rw [mapReceived, fstat, hstat] at h
    simp only [Bool.false_eq_true, if_false, bind, Except.bind, hrej, if_true] at h
    cases h
  obtain ⟨h0, hlen⟩ := hacc
  have hfd := fd.size_lt
  have hle := le_wholePages len (by rw [Object.size] at hlen; omega)
  rw [mapReceived_eq_mmap hstat h0 hlen] at h
  obtain rfl := eq_of_mmap_ok h
  refine ⟨h0, hlen, ?_⟩
  split <;> simp only <;> omega

/-- A system on which nothing fails. -/
def Os.reliable : Os := ⟨fun _ => false, fun _ _ => false⟩

/-- An announced size that is not zero and fits is mapped. -/
theorem mapReceived_reliable (fd : Object) {len : UInt64} (h0 : len ≠ 0)
    (hlen : len.toNat ≤ fd.size) : ∃ m, mapReceived .reliable fd len = .ok m :=
  ⟨_, mapReceived_eq_mmap rfl h0 hlen⟩

/-! ## The announced size and the image -/

/-- No mapping the receiver accepts for a layout is smaller than the image the
layout announces. -/
def HoldsImage (l : Layout) (fd : Object) : Prop :=
  ∀ (os : Os) (m : Mmap), mapReceived os fd l.bytes = .ok m →
    l.exactBytes ≤ m.len.toNat ∧ l.exactBytes ≤ fd.size

/-- **When the check keeps its promise**: the exact size fits in 64 bits, or what
is left of it modulo `2 ^ 64` is zero or larger than the object. -/
theorem mapReceived_holds_image_iff (l : Layout) (fd : Object) :
    HoldsImage l fd ↔
      l.exactBytes < 2 ^ 64 ∨ l.exactBytes % 2 ^ 64 = 0 ∨ fd.size < l.exactBytes % 2 ^ 64 := by
  have hbytes := l.toNat_bytes
  have hfd : fd.size < 2 ^ 63 := fd.size_lt
  constructor
  · intro h
    by_contra hcon
    -- the remainder passes the check, so a mapping is accepted that is too small
    have h0 : l.bytes ≠ 0 := by
      rw [Ne, ← UInt64.toNat_inj, hbytes, UInt64.toNat_zero]
      omega
    obtain ⟨m, hm⟩ := mapReceived_reliable fd h0 (by omega)
    have := (h .reliable m hm).2
    omega
  · intro h os m hm
    obtain ⟨h0, hlen, hle, -⟩ := mapReceived_ok hm
    rw [Ne, ← UInt64.toNat_inj, UInt64.toNat_zero] at h0
    rw [hbytes] at h0 hlen hle
    rcases h with h | h | h
    · rw [Nat.mod_eq_of_lt h] at hlen hle
      exact ⟨hle, hlen⟩
    · exact absurd h h0
    · omega

/-- **A layout whose size wraps to four bytes**: its exact size is `2 ^ 64 + 4`,
and the receiver maps an object of four bytes for it. -/
theorem mapReceived_accepts_too_small :
    ¬ ∀ (l : Layout) (fd : Object), HoldsImage l fd := by
  intro h
  have hl := h (.image ⟨2147418113, 2147549185, .srgb⟩) ⟨[0, 0, 0, 0], by decide⟩ .reliable
    ⟨⟨[0, 0, 0, 0], by decide⟩, 4⟩ (by rfl)
  exact absurd hl.2 (by decide)

/-! ## Whole pages -/

/-- The receiver asks for a mapping of `m` bytes, whatever the answer is. -/
def Asks (fd : Object) (len m : UInt64) : Prop :=
  ∀ os : Os, os.fstatFails fd = false → mapReceived os fd len = mmap os fd m

theorem asks_of_le {fd : Object} {len : UInt64} (h0 : len ≠ 0) (hlen : len.toNat ≤ fd.size) :
    Asks fd len (if (wholePages len).toNat ≤ fd.size then wholePages len else len) :=
  fun _ hstat => mapReceived_eq_mmap hstat h0 hlen

theorem Asks.reliable {fd : Object} {len m : UInt64} (h : Asks fd len m) :
    mapReceived .reliable fd len = .ok ⟨fd, m⟩ := h .reliable rfl

theorem Asks.unique {fd : Object} {len m m' : UInt64} (h : Asks fd len m) (h' : Asks fd len m') :
    m = m' := congrArg Mmap.len (Except.ok.inj (h.reliable.symm.trans h'.reliable))

theorem exists_asks_iff {fd : Object} {len : UInt64} :
    (∃ m, Asks fd len m) ↔ 1 ≤ len.toNat ∧ len.toNat ≤ fd.size := by
  have h0 : len ≠ 0 ↔ 1 ≤ len.toNat := by
    rw [Ne, ← UInt64.toNat_inj, UInt64.toNat_zero]
    omega
  constructor
  · rintro ⟨m, hm⟩
    obtain ⟨hne, hlen, -⟩ := mapReceived_ok hm.reliable
    exact ⟨h0.mp hne, hlen⟩
  · rintro ⟨h1, hlen⟩
    exact ⟨_, asks_of_le (h0.mpr h1) hlen⟩

/-- **The least multiple of a page that fits is what is mapped.** -/
theorem Asks.eq_of_isLeast {fd : Object} {len m : UInt64} (h : Asks fd len m) {n : ℕ}
    (hn : IsLeast {n : ℕ | page.toNat ∣ n ∧ len.toNat ≤ n} n) (hfit : n ≤ fd.size) :
    m.toNat = n := by
  obtain ⟨h0, hlen, -⟩ := mapReceived_ok h.reliable
  have hfd : fd.size < 2 ^ 63 := fd.size_lt
  have hpages := (isLeast_wholePages (by omega : len.toNat < 2 ^ 63)).unique hn
  have hm := h.unique (asks_of_le h0 hlen)
  rw [hpages, if_pos hfit] at hm
  rw [hm, hpages]

theorem asks_of_create {os : Creator} {len : UInt64} {b : SharedBuffer}
    (h : SharedBuffer.create os len = .ok b) {bytes : List UInt8}
    (hbytes : bytes.length = b.len.toNat) : Asks (b.write bytes hbytes).fd len (wholePages len) := by
  obtain ⟨-, h0, hlen, hsize⟩ := SharedBuffer.create_ok h
  have hfd : (b.write bytes hbytes).fd.size = (wholePages len).toNat :=
    (b.size_write hbytes).trans hsize
  have hle : len.toNat ≤ (b.write bytes hbytes).fd.size := by
    rw [hfd]
    exact le_wholePages len hlen
  have hasks := asks_of_le h0 hle
  rwa [if_pos hfd.ge] at hasks

theorem mapReceived_eq_error {os : Os} {fd : Object} {len : UInt64}
    (hstat : os.fstatFails fd = false) (h : ¬ (1 ≤ len.toNat ∧ len.toNat ≤ fd.size)) :
    mapReceived os fd len = .error .smallerThanAnnounced := by
  have hrej : len = 0 ∨ (Int64.ofNat fd.size).toUInt64 < len := by
    rw [← UInt64.toNat_inj, UInt64.toNat_zero, UInt64.lt_iff_toNat_lt, toNat_size]
    omega
  rw [mapReceived, fstat, hstat]
  simp only [Bool.false_eq_true, if_false, bind, Except.bind, hrej, if_true]
  rfl

/-- The bytes written are the first ones of any mapping that holds them. -/
theorem take_bytes_write (b : SharedBuffer) {bytes : List UInt8}
    (hbytes : bytes.length = b.len.toNat) {m : Mmap} (hobject : m.object = (b.write bytes hbytes).fd)
    (hlen : b.len.toNat ≤ m.len.toNat) : m.bytes.take b.len.toNat = bytes := by
  rw [Mmap.bytes, hobject, List.take_take, Nat.min_eq_left hlen]
  exact b.map_write hbytes

/-- **The receiver maps whole pages, and never past the end.**  It asks for a
mapping exactly when the announced length is not zero and fits, and rounding up
does not wrap then; what it maps holds the announced bytes, stays inside the
object, and is the least multiple of a page whenever that fits.  An object made
by `create` for that length is mapped as a whole, which is whole pages, and its
first bytes are what the creator wrote. -/
theorem mapReceived_whole_pages :
    (∀ (fd : Object) (len : UInt64),
      ((∃ m, Asks fd len m) ↔ 1 ≤ len.toNat ∧ len.toNat ≤ fd.size) ∧
      (∀ os : Os, os.fstatFails fd = false → ¬ (1 ≤ len.toNat ∧ len.toNat ≤ fd.size) →
        mapReceived os fd len = .error .smallerThanAnnounced) ∧
      ∀ m, Asks fd len m →
        IsLeast {n : ℕ | page.toNat ∣ n ∧ len.toNat ≤ n} (wholePages len).toNat ∧
        len.toNat ≤ m.toNat ∧ m.toNat ≤ fd.size ∧
        ∀ n, IsLeast {n : ℕ | page.toNat ∣ n ∧ len.toNat ≤ n} n → n ≤ fd.size → m.toNat = n) ∧
    (∀ (os : Creator) (len : UInt64) (b : SharedBuffer), SharedBuffer.create os len = .ok b →
      page.toNat ∣ b.fd.size ∧
      ∀ (bytes : List UInt8) (hbytes : bytes.length = b.len.toNat),
        Asks (b.write bytes hbytes).fd len (wholePages len) ∧
        ∀ os' : Os, os'.fstatFails (b.write bytes hbytes).fd = false →
          os'.mmapFails (b.write bytes hbytes).fd (wholePages len) = false →
          ∃ m, mapReceived os' (b.write bytes hbytes).fd len = .ok m ∧
            m.bytes.length = b.fd.size ∧ m.len.toNat = b.fd.size ∧
            m.bytes.take len.toNat = bytes) := by
  refine ⟨?_, ?_⟩
  · intro fd len
    refine ⟨exists_asks_iff, fun os => mapReceived_eq_error, ?_⟩
    intro m hm
    obtain ⟨-, hlen, hle, hfit⟩ := mapReceived_ok hm.reliable
    have hfd : fd.size < 2 ^ 63 := fd.size_lt
    exact ⟨isLeast_wholePages (by omega), hle, hfit, fun n => hm.eq_of_isLeast⟩
  · intro os len b hb
    obtain ⟨hblen, -, hlt, hsize⟩ := SharedBuffer.create_ok hb
    refine ⟨by rw [hsize]; exact (isLeast_wholePages hlt).1.1, ?_⟩
    intro bytes hbytes
    have hasks := asks_of_create hb hbytes
    refine ⟨hasks, ?_⟩
    intro os' hstat hmmap
    have hmapped : mapReceived os' (b.write bytes hbytes).fd len =
        .ok ⟨(b.write bytes hbytes).fd, wholePages len⟩ := by
      rw [hasks os' hstat, mmap, hmmap]
      rfl
    refine ⟨_, hmapped, ?_, hsize.symm, ?_⟩
    · have hfd : (b.write bytes hbytes).fd.content.length = b.fd.size := b.size_write hbytes
      rw [Mmap.bytes, List.length_take, hfd, hsize, Nat.min_self]
    · subst hblen
      exact take_bytes_write b (m := ⟨_, wholePages b.len⟩) hbytes rfl (le_wholePages b.len hlt)

/-- A system on which creating fails only past the longest mapping. -/
def Creator.reliable : Creator where
  shmOpen := .ok ()
  shmUnlink := .ok ()
  ftruncate n := if h : n.toNat < 2 ^ 63 then .ok (.zeros n.toNat h) else .error "invalid argument"
  mapMut _ len := if len.toNat < 2 ^ 63 then .ok () else .error "out of memory"
  size_ftruncate h := by
    split at h
    · obtain rfl := Except.ok.inj h
      exact Object.size_zeros _ _
    · cases h
  len_mapMut h := by
    split at h
    · assumption
    · cases h

theorem create_reliable (len : UInt64) (h0 : len ≠ 0) (h : (wholePages len).toNat < 2 ^ 63)
    (hlen : len.toNat < 2 ^ 63) : ∃ b, SharedBuffer.create .reliable len = .ok b := by
  have hfd : Creator.reliable.ftruncate (wholePages len) =
      .ok (.zeros (wholePages len).toNat h) := dif_pos h
  have hmap : ∀ fd, Creator.reliable.mapMut fd len = .ok () := fun fd => if_pos hlen
  cases hc : SharedBuffer.create .reliable len with
  | ok b => exact ⟨b, rfl⟩
  | error e =>
    rw [SharedBuffer.create, if_neg h0] at hc
    split at hc
    · next hopen => cases hopen
    · next hunlink => cases hunlink
    · split at hc
      · next hfd' => rw [hfd] at hfd'; cases hfd'
      · split at hc
        · next hmap' => rw [hmap] at hmap'; cases hmap'
        · cases hc

/-- An object of 20000 bytes, and one made for as many. -/
theorem mapReceived_whole_pages_twenty_thousand :
    (∃ m, mapReceived .reliable (.zeros 20000 (by decide)) 20000 = .ok m ∧
      20000 ≤ m.len.toNat ∧ m.len.toNat ≤ 20000) ∧
    ∃ (b : SharedBuffer) (h : (List.replicate 20000 7).length = b.len.toNat) (m : Mmap),
      mapReceived .reliable (b.write (List.replicate 20000 7) h).fd 20000 = .ok m ∧
      m.len.toNat = 32768 ∧ m.bytes.take 20000 = List.replicate 20000 7 := by
  refine ⟨?_, ?_⟩
  · obtain ⟨hasks, -, hm⟩ := mapReceived_whole_pages.1 (.zeros 20000 (by decide)) 20000
    rw [Object.size_zeros] at hasks hm
    obtain ⟨m, hmap⟩ := hasks.mpr ⟨by decide, by decide⟩
    obtain ⟨-, hle, hfit, -⟩ := hm m hmap
    exact ⟨_, hmap.reliable, hle, hfit⟩
  · obtain ⟨b, hb⟩ := create_reliable 20000 (by decide) (by decide) (by decide)
    obtain ⟨hlen, -, -, hsize⟩ := SharedBuffer.create_ok hb
    have hbytes : (List.replicate 20000 (7 : UInt8)).length = b.len.toNat := by
      rw [List.length_replicate, hlen]
      rfl
    obtain ⟨-, hmap⟩ := mapReceived_whole_pages.2 .reliable 20000 b hb
    obtain ⟨m, hm, -, hmlen, htake⟩ := (hmap _ hbytes).2 .reliable rfl rfl
    exact ⟨b, hbytes, m, hm, by rw [hmlen, hsize]; rfl, htake⟩

end RawHelper.Shm
