import RawHelper.Lib.Cursor
import RawHelper.Lib.Ieee

/-!
# The opcode list walk

The first half of `helper/src/opcodes.rs`: the big-endian `Reader` and `each`,
the walk over a DNG's opcode list that the lens corrections use.

A list is a count, then for each opcode its identifier, version, flags, size and
body.  `each` takes as many opcodes as the count announces and stops at the first
whose header or body is cut short.  `walk_encode` says that it gives back the
opcodes a list was written from, and `walk_longest` that on any bytes at all it
reads the longest prefix that is a sequence of whole opcodes.

Both follow from what one turn of the walk does: `walk_cons` when a whole opcode
stands at the reader, and `walk_of_incomplete` when none does.
-/

namespace RawHelper.Opcodes

open ByteField Ieee Cursor

/-! ## The reader -/

/-- Big-endian reader over the list: `bytes` and the position `at`, which never
passes their end. -/
structure Reader where
  bytes : List UInt8
  pos : Nat
  pos_le : pos ≤ bytes.length

namespace Reader

/-- `Reader { bytes, at: 0 }`. -/
def start (bytes : List UInt8) : Reader := ⟨bytes, 0, Nat.zero_le _⟩

/-- What is left to read. -/
def rest (r : Reader) : List UInt8 := r.bytes.drop r.pos

-- `checked_add` fails only past the end of the address space, where `get` fails too
def take (n : Nat) (r : Reader) : Option (List UInt8) × Reader :=
  if h : r.pos + n ≤ r.bytes.length then
    (some ((r.bytes.drop r.pos).take n), ⟨r.bytes, r.pos + n, h⟩)
  else (none, r)

/-- `T::from_be_bytes(self.take(width)?.try_into().ok()?)`. -/
def field {α : Type} (f : Codec α) (r : Reader) : Option α × Reader :=
  match r.take f.width with
  | (some bytes, r) => (some (f.decode bytes), r)
  | (none, r) => (none, r)

def u16 : Reader → Option UInt16 × Reader := field u16be

def u32 : Reader → Option UInt32 × Reader := field u32be

def f32 : Reader → Option Single × Reader := field f32be

def f64 : Reader → Option Double × Reader := field f64be

@[simp] theorem rest_start (bytes : List UInt8) : (start bytes).rest = bytes := rfl

theorem length_rest (r : Reader) : r.rest.length = r.bytes.length - r.pos := List.length_drop

theorem take_of_le {n : Nat} {r : Reader} (h : n ≤ r.rest.length) :
    ∃ r', r.take n = (some (r.rest.take n), r') ∧ r'.rest = r.rest.drop n := by
  have hpos : r.pos + n ≤ r.bytes.length := by
    have := r.pos_le
    rw [length_rest] at h
    omega
  refine ⟨⟨r.bytes, r.pos + n, hpos⟩, by rw [take, dif_pos hpos, rest], ?_⟩
  rw [rest, rest, List.drop_drop]

/-- A read that fails leaves the reader where it was. -/
theorem take_of_lt {n : Nat} {r : Reader} (h : r.rest.length < n) : r.take n = (none, r) := by
  have := r.pos_le
  rw [length_rest] at h
  rw [take, dif_neg (by omega)]

theorem take_decodes (n : Nat) :
    Decodes rest (take n) (fun bytes => bytes.length = n) id where
  sound {r r'} bytes h := by
    by_cases hn : n ≤ r.rest.length
    · obtain ⟨r₁, hr, hrest⟩ := take_of_le hn
      rw [hr] at h
      obtain ⟨hb, rfl⟩ := Prod.mk.inj h
      obtain rfl := Option.some.inj hb
      exact ⟨by rw [List.length_take, Nat.min_eq_left hn],
        by rw [hrest, id, List.take_append_drop]⟩
    · rw [take_of_lt (by omega)] at h
      simp at h
  complete {r bytes t} hlen h := by
    subst hlen
    obtain ⟨r', hr, hrest⟩ := take_of_le (n := bytes.length) (r := r) (by simp [h])
    rw [h] at hr hrest
    exact ⟨r', by simpa using hr, by simpa using hrest⟩

theorem field_decodes {α : Type} (f : Codec α) :
    Decodes rest (field f) (fun _ => True) f.encode where
  sound {r r' a} h := by
    rw [field] at h
    rcases ht : r.take f.width with ⟨_ | bytes, r₁⟩
    · rw [ht] at h; simp at h
    · rw [ht] at h
      obtain ⟨ha, rfl⟩ := Prod.mk.inj h
      obtain rfl := Option.some.inj ha
      obtain ⟨hlen, hrest⟩ := (take_decodes f.width).sound ht
      exact ⟨trivial, by rw [f.encode_decode bytes hlen]; exact hrest⟩
  complete {r a t} _ h := by
    obtain ⟨r', hr, hrest⟩ := (take_decodes f.width).complete (f.length_encode a) h
    exact ⟨r', by rw [field, hr]; simp, hrest⟩

theorem u16_decodes : Decodes rest u16 (fun _ => True) u16be.encode := field_decodes u16be

theorem u32_decodes : Decodes rest u32 (fun _ => True) u32be.encode := field_decodes u32be

theorem f32_decodes : Decodes rest f32 (fun _ => True) f32be.encode := field_decodes f32be

theorem f64_decodes : Decodes rest f64 (fun _ => True) f64be.encode := field_decodes f64be

theorem field_of_lt {α : Type} (f : Codec α) {r : Reader} (h : r.rest.length < f.width) :
    r.field f = (none, r) := by
  rw [field, take_of_lt h]

end Reader

/-! ## Opcodes -/

/-- An opcode as a list holds it; its size is the length of its body. -/
structure Opcode where
  id : UInt32
  version : UInt32
  flags : UInt32
  body : List UInt8
  length_lt : body.length < 2 ^ 32

namespace Opcode

def size (op : Opcode) : UInt32 := UInt32.ofNat op.body.length

def encode (op : Opcode) : List UInt8 :=
  u32be.encodeAll [op.id, op.version, op.flags, op.size] ++ op.body

/-- What `each` reports of it. -/
def entry (op : Opcode) : UInt32 × List UInt8 := (op.id, op.body)

@[simp] theorem toNat_size (op : Opcode) : op.size.toNat = op.body.length :=
  UInt32.toNat_ofNat_of_lt' op.length_lt

theorem length_encode (op : Opcode) : op.encode.length = 16 + op.body.length := by
  simp [encode]
  omega

end Opcode

/-- `(r.u32(), r.u32(), r.u32(), r.u32())`, with all four there or none reported. -/
def opcodeHeader (r : Reader) : Option (UInt32 × UInt32 × UInt32 × UInt32) × Reader :=
  let (id, r) := r.u32
  let (version, r) := r.u32
  let (flags, r) := r.u32
  let (size, r) := r.u32
  match id, version, flags, size with
  | some id, some version, some flags, some size => (some (id, version, flags, size), r)
  | _, _, _, _ => (none, r)

/-- The loop of `each`, with `count` turns left. -/
def walk : Nat → Reader → List (UInt32 × List UInt8)
  | 0, _ => []
  | count + 1, r =>
    match opcodeHeader r with
    | (none, _) => []
    | (some (id, _version, _flags, size), r) =>
      match r.take size.toNat with
      | (none, _) => []
      | (some body, r) => (id, body) :: walk count r

/-- The opcodes of a list, as (identifier, body), up to the first one whose size
runs past it. -/
def each (list : List UInt8) : List (UInt32 × List UInt8) :=
  match (Reader.start list).u32 with
  | (none, _) => []
  | (some count, r) => walk count.toNat r

/-! ### One step of the walk -/

theorem opcodeHeader_eq (r : Reader) :
    opcodeHeader r =
      match reads Reader.u32 4 r with
      | ([some id, some version, some flags, some size], r) =>
        (some (id, version, flags, size), r)
      | (_, r) => (none, r) := by
  simp only [opcodeHeader, reads]
  rcases r.u32 with ⟨_ | id, r⟩ <;> rcases r.u32 with ⟨_ | version, r⟩ <;>
    rcases r.u32 with ⟨_ | flags, r⟩ <;> rcases r.u32 with ⟨_ | size, r⟩ <;> rfl

theorem opcodeHeader_decodes :
    Decodes Reader.rest opcodeHeader (fun _ => True)
      (fun h => u32be.encodeAll [h.1, h.2.1, h.2.2.1, h.2.2.2]) where
  sound {r r' h} hr := by
    rw [opcodeHeader_eq] at hr
    split at hr
    · next id version flags size r₁ heq =>
      obtain ⟨hh, rfl⟩ := Prod.mk.inj hr
      obtain rfl := Option.some.inj hh
      have := Reader.u32_decodes.reads_sound [id, version, flags, size] heq
      exact ⟨trivial, this.2.2⟩
    · simp at hr
  complete {r h t} _ hr := by
    obtain ⟨r', heq, hrest⟩ :=
      Reader.u32_decodes.reads_complete [h.1, h.2.1, h.2.2.1, h.2.2.2] (by simp) hr
    have hreads : reads Reader.u32 4 r =
        ([some h.1, some h.2.1, some h.2.2.1, some h.2.2.2], r') := heq
    exact ⟨r', by rw [opcodeHeader_eq, hreads], hrest⟩

/-- **A whole opcode at the reader is taken.** -/
theorem walk_cons (count : Nat) {r : Reader} {op : Opcode} {t : List UInt8}
    (h : r.rest = op.encode ++ t) :
    ∃ r', r'.rest = t ∧ walk (count + 1) r = op.entry :: walk count r' := by
  rw [Opcode.encode, List.append_assoc] at h
  obtain ⟨r₁, hh, hr₁⟩ := opcodeHeader_decodes.complete
    (a := (op.id, op.version, op.flags, op.size)) trivial h
  obtain ⟨r₂, ht, hr₂⟩ := (Reader.take_decodes op.size.toNat).complete
    (by rw [op.toNat_size]) hr₁
  exact ⟨r₂, hr₂, by rw [walk, hh]; simp only [ht]; rfl⟩

/-- No whole opcode stands at the front of `tail`: the header is cut short, or
its size runs past the end. -/
def Incomplete (tail : List UInt8) : Prop :=
  tail.length < 16 ∨ tail.length < 16 + (u32be.decode ((tail.drop 12).take 4)).toNat

instance (tail : List UInt8) : Decidable (Incomplete tail) := by
  unfold Incomplete; infer_instance

/-- The size is the fourth field of a header. -/
theorem drop_header_take (id version flags size : UInt32) (t : List UInt8) :
    ((u32be.encodeAll [id, version, flags, size] ++ t).drop 12).take 4 = u32be.encode size := by
  have hsplit : u32be.encodeAll [id, version, flags, size] ++ t =
      u32be.encodeAll [id, version, flags] ++ (u32be.encode size ++ t) := by simp
  have h12 : (u32be.encodeAll [id, version, flags]).length = 12 := by simp
  rw [hsplit, ← h12, List.drop_left]
  exact u32be.take_encode_append size t

theorem incomplete_header_iff (id version flags size : UInt32) (t : List UInt8) :
    Incomplete (u32be.encodeAll [id, version, flags, size] ++ t) ↔ t.length < size.toNat := by
  have h16 : (u32be.encodeAll [id, version, flags, size]).length = 16 := by simp
  rw [Incomplete, drop_header_take, u32be.decode_encode, List.length_append, h16]
  omega

theorem exists_header {tail : List UInt8} (h : 16 ≤ tail.length) :
    ∃ (id version flags size : UInt32) (t : List UInt8),
      tail = u32be.encodeAll [id, version, flags, size] ++ t := by
  have hword : ∀ i, i + 4 ≤ 16 →
      ∃ w : UInt32, tail.drop i = u32be.encode w ++ tail.drop (i + 4) := by
    intro i hi
    have := u32be.encode_decode_take (l := tail.drop i) (by simp; omega)
    rw [List.drop_drop] at this
    exact ⟨_, this.symm⟩
  obtain ⟨id, h0⟩ := hword 0 (by omega)
  obtain ⟨version, h4⟩ := hword 4 (by omega)
  obtain ⟨flags, h8⟩ := hword 8 (by omega)
  obtain ⟨size, h12⟩ := hword 12 (by omega)
  rw [List.drop_zero, h4, h8, h12] at h0
  exact ⟨id, version, flags, size, tail.drop 16, by simpa using h0⟩

/-- What is not incomplete starts with an opcode. -/
theorem exists_opcode {tail : List UInt8} (h : ¬ Incomplete tail) :
    ∃ (op : Opcode) (t : List UInt8), tail = op.encode ++ t := by
  have h16 : 16 ≤ tail.length := by
    rw [Incomplete] at h
    omega
  obtain ⟨id, version, flags, size, t, rfl⟩ := exists_header h16
  rw [incomplete_header_iff, Nat.not_lt] at h
  have hbody : (t.take size.toNat).length = size.toNat := by
    rw [List.length_take, Nat.min_eq_left h]
  let op : Opcode := ⟨id, version, flags, t.take size.toNat, by rw [hbody]; exact size.toNat_lt⟩
  have hsize : op.size = size := UInt32.toNat_inj.mp (by rw [op.toNat_size]; exact hbody)
  refine ⟨op, t.drop size.toNat, ?_⟩
  rw [Opcode.encode, hsize, List.append_assoc, List.take_append_drop]

/-- **The walk stops where no whole opcode stands.** -/
theorem walk_of_incomplete {count : Nat} {r : Reader} (h : Incomplete r.rest) :
    walk count r = [] := by
  cases count with
  | zero => rfl
  | succ count =>
    rw [walk]
    rcases hh : opcodeHeader r with ⟨_ | ⟨id, version, flags, size⟩, r₁⟩
    · rfl
    · obtain ⟨-, hrest⟩ := opcodeHeader_decodes.sound hh
      rw [hrest, incomplete_header_iff] at h
      simp only [Reader.take_of_lt h]

/-! ## The whole walk -/

/-- The opcodes the walk was given are the ones it reports, as far as it counts. -/
theorem walk_encode : ∀ (ops : List Opcode) (count : Nat) {r : Reader} {t : List UInt8},
    count ≤ ops.length → r.rest = ops.flatMap Opcode.encode ++ t →
      walk count r = (ops.take count).map Opcode.entry := by
  intro ops
  induction ops with
  | nil => intro count r t hc _; obtain rfl : count = 0 := by simpa using hc
           rfl
  | cons op ops ih =>
    intro count r t hc hr
    cases count with
    | zero => rfl
    | succ count =>
      rw [List.flatMap_cons, List.append_assoc] at hr
      obtain ⟨r', hr', hwalk⟩ := walk_cons count hr
      rw [hwalk, ih count (by simpa using hc) hr', List.take_succ_cons, List.map_cons]

/-- **On any bytes the walk reads the longest run of whole opcodes**, up to its
count: what follows the last one is not a whole opcode, unless the count is
reached. -/
theorem walk_longest : ∀ (count : Nat) (r : Reader), ∃ (ops : List Opcode) (tail : List UInt8),
    walk count r = ops.map Opcode.entry ∧ r.rest = ops.flatMap Opcode.encode ++ tail ∧
      ops.length ≤ count ∧ (ops.length = count ∨ Incomplete tail) := by
  intro count
  induction count with
  | zero => intro r; exact ⟨[], r.rest, rfl, rfl, le_rfl, Or.inl rfl⟩
  | succ count ih =>
    intro r
    by_cases hinc : Incomplete r.rest
    · exact ⟨[], r.rest, walk_of_incomplete hinc, rfl, Nat.zero_le _, Or.inr hinc⟩
    · obtain ⟨op, t, ht⟩ := exists_opcode hinc
      obtain ⟨r', hr', hwalk⟩ := walk_cons count ht
      obtain ⟨ops, tail, hops, hrest, hlen, hend⟩ := ih r'
      refine ⟨op :: ops, tail, by rw [hwalk, hops, List.map_cons], ?_, ?_, ?_⟩
      · rw [ht, ← hr', hrest, List.flatMap_cons, List.append_assoc]
      · simpa using hlen
      · simpa using hend

theorem length_flatMap_encode (ops : List Opcode) :
    16 * ops.length ≤ (ops.flatMap Opcode.encode).length := by
  induction ops with
  | nil => simp
  | cons op ops ih =>
    rw [List.flatMap_cons, List.length_append, op.length_encode, List.length_cons]
    omega

theorem each_of_short {list : List UInt8} (h : list.length < 4) : each list = [] := by
  have : (Reader.start list).u32 = (none, .start list) :=
    Reader.field_of_lt u32be (by simpa using h)
  rw [each, this]

theorem each_encode_append (count : UInt32) (body : List UInt8) :
    ∃ r : Reader, r.rest = body ∧ each (u32be.encode count ++ body) = walk count.toNat r := by
  obtain ⟨r, hr, hrest⟩ := Reader.u32_decodes.complete
    (s := .start (u32be.encode count ++ body)) (a := count) trivial rfl
  exact ⟨r, hrest, by rw [each, hr]⟩

/-- A list that has a count. -/
theorem exists_count {list : List UInt8} (h : 4 ≤ list.length) :
    ∃ (count : UInt32) (body : List UInt8), list = u32be.encode count ++ body :=
  ⟨_, _, (u32be.encode_decode_take h).symm⟩

/-- **`each` parses exactly the longest well-formed prefix of a list.**  It gives
back the opcodes a list was written from, as many as the count announces; and on
any list what it reports lies right after the count, opcode after opcode, until
the count is reached or what follows is not a whole opcode. -/
theorem each_longest_run :
    (∀ (ops : List Opcode) (count : UInt32) (t : List UInt8), count.toNat ≤ ops.length →
      each (u32be.encode count ++ ops.flatMap Opcode.encode ++ t) =
        (ops.take count.toNat).map Opcode.entry) ∧
    (∀ list : List UInt8, list.length < 4 → each list = []) ∧
    (∀ list : List UInt8, 4 ≤ list.length →
      ∃ (count : UInt32) (ops : List Opcode) (tail : List UInt8),
        list = u32be.encode count ++ (ops.flatMap Opcode.encode ++ tail) ∧
        each list = ops.map Opcode.entry ∧
        ops.length ≤ count.toNat ∧
        ops.length ≤ (list.length - 4) / 16 ∧
        (ops.length = count.toNat ∨ Incomplete tail)) := by
  refine ⟨?_, fun list => each_of_short, ?_⟩
  · intro ops count t hc
    rw [List.append_assoc]
    obtain ⟨r, hrest, heach⟩ := each_encode_append count (ops.flatMap Opcode.encode ++ t)
    rw [heach, walk_encode ops count.toNat hc hrest]
  · intro list h4
    obtain ⟨count, body, rfl⟩ := exists_count h4
    obtain ⟨r, hrest, heach⟩ := each_encode_append count body
    obtain ⟨ops, tail, hops, hsplit, hlen, hend⟩ := walk_longest count.toNat r
    rw [hrest] at hsplit
    refine ⟨count, ops, tail, by rw [hsplit], heach.trans hops, hlen, ?_, hend⟩
    have h16 := length_flatMap_encode ops
    have hbody := congrArg List.length hsplit
    rw [List.length_append] at hbody
    rw [List.length_append, u32be.length_encode, u32be_width]
    omega

/-- A list of one opcode with a byte after it, one too short for its count, and
one whose opcode is cut short. -/
theorem each_longest_run_one_opcode :
    each (u32be.encode 1 ++ [Opcode.mk 8 0x01030000 0 [1, 2] (by decide)].flatMap Opcode.encode
      ++ [9]) = [(8, [1, 2])] ∧ each [0, 0] = [] ∧
    ∃ ops : List Opcode, each [0, 0, 0, 2, 7, 7] = ops.map Opcode.entry ∧ ops.length ≤ 0 := by
  refine ⟨each_longest_run.1 [⟨8, 0x01030000, 0, [1, 2], by decide⟩] 1 [9] (by decide),
    each_longest_run.2.1 [0, 0] (by decide), ?_⟩
  obtain ⟨count, ops, tail, -, heach, -, hlen, -⟩ :=
    each_longest_run.2.2 [0, 0, 0, 2, 7, 7] (by decide)
  exact ⟨ops, heach, hlen⟩

/-! ## The opcodes a reader accepts -/

open Classical in
/-- Filtering by what a partial function accepts, and mapping it, go together. -/
theorem forall₂_filterMap {α β : Type} {R : α → β → Prop} {f : α → Option β}
    (hf : ∀ a b, f a = some b ↔ R a b) (l : List α) :
    List.Forall₂ R (l.filter (fun a => ∃ b, R a b)) (l.filterMap f) := by
  induction l with
  | nil => exact .nil
  | cons a l ih =>
    cases ha : f a with
    | some b =>
      have hR := (hf a b).mp ha
      rw [List.filter_cons_of_pos (by simpa using ⟨b, hR⟩), List.filterMap_cons_some ha]
      exact .cons hR ih
    | none =>
      have hR : ¬ ∃ b, R a b := fun ⟨b, hb⟩ => by simp [(hf a b).mpr hb] at ha
      rw [List.filter_cons_of_neg (by simpa using hR), List.filterMap_cons_none ha]
      exact ih

end RawHelper.Opcodes
