import Mathlib.Tactic

/-!
# Fixed-width fields of bytes

A natural number as `w` bytes, most significant first (`beBytes`), and back
(`beValue`).  The two are inverse on the numbers below `256 ^ w`
(`beValue_beBytes_of_lt`) and on the lists of `w` bytes (`beBytes_beValue`).

A `Codec` is a value that always takes the same number of bytes and is
recovered from them, with both round trips as fields of the structure, so that
no later proof shows them again.  `Codec.be` builds one from a type that is a
range of naturals, `Codec.reverse` turns the byte order, and `Codec.map` carries
a field along an equivalence.

`Codec.take_encode_append` and `Codec.drop_encode_append` take a written value off
the front of whatever follows it, and `Codec.encode_decode_take` says that a list
that is long enough starts with one.  `Codec.encodeAll` writes several values of
one field one after another.
-/

namespace ByteField

/-! ## Numbers -/

/-- The `w` bytes of `n`, most significant first; what does not fit is dropped. -/
def beBytes : Nat → Nat → List UInt8
  | 0, _ => []
  | w + 1, n => UInt8.ofNat (n / 256 ^ w) :: beBytes w n

/-- The number a list of bytes stands for, most significant first. -/
def beValue : List UInt8 → Nat
  | [] => 0
  | b :: l => b.toNat * 256 ^ l.length + beValue l

@[simp] theorem beBytes_zero (n : Nat) : beBytes 0 n = [] := rfl

theorem beBytes_succ (w n : Nat) :
    beBytes (w + 1) n = UInt8.ofNat (n / 256 ^ w) :: beBytes w n := rfl

@[simp] theorem beValue_nil : beValue [] = 0 := rfl

theorem beValue_cons (b : UInt8) (l : List UInt8) :
    beValue (b :: l) = b.toNat * 256 ^ l.length + beValue l := rfl

@[simp] theorem length_beBytes (w n : Nat) : (beBytes w n).length = w := by
  induction w with
  | zero => rfl
  | succ w ih => rw [beBytes_succ, List.length_cons, ih]

theorem beValue_lt (l : List UInt8) : beValue l < 256 ^ l.length := by
  induction l with
  | nil => simp
  | cons b l ih =>
    have hb : b.toNat + 1 ≤ 256 := b.toNat_lt
    rw [beValue_cons, List.length_cons, pow_succ']
    have := Nat.mul_le_mul_right (256 ^ l.length) hb
    rw [Nat.add_mul, one_mul] at this
    omega

/-- The bytes of a number depend on it modulo `256 ^ w` only. -/
theorem beBytes_add_mul (w n k : Nat) : beBytes w (n + k * 256 ^ w) = beBytes w n := by
  induction w generalizing k with
  | zero => rfl
  | succ w ih =>
    have hshift : n + k * 256 ^ (w + 1) = n + (k * 256) * 256 ^ w := by rw [pow_succ]; ring
    have hpos : 0 < 256 ^ w := by positivity
    rw [beBytes_succ, beBytes_succ, hshift, ih, Nat.add_mul_div_right _ _ hpos]
    congr 1
    rw [← UInt8.toNat_inj, UInt8.toNat_ofNat', UInt8.toNat_ofNat']
    omega

theorem beValue_beBytes (w n : Nat) : beValue (beBytes w n) = n % 256 ^ w := by
  induction w with
  | zero => simp [Nat.mod_one]
  | succ w ih =>
    have hsplit : n % 256 ^ (w + 1) = n % 256 ^ w + 256 ^ w * (n / 256 ^ w % 256) := by
      rw [pow_succ, Nat.mod_mul]
    rw [beBytes_succ, beValue_cons, length_beBytes, ih, UInt8.toNat_ofNat', hsplit]
    norm_num
    ring

theorem beValue_beBytes_of_lt {w n : Nat} (h : n < 256 ^ w) : beValue (beBytes w n) = n := by
  rw [beValue_beBytes, Nat.mod_eq_of_lt h]

theorem beBytes_beValue (l : List UInt8) : beBytes l.length (beValue l) = l := by
  induction l with
  | nil => rfl
  | cons b l ih =>
    have hpos : 0 < 256 ^ l.length := by positivity
    have hdiv : (beValue l + b.toNat * 256 ^ l.length) / 256 ^ l.length = b.toNat := by
      rw [Nat.add_mul_div_right _ _ hpos, Nat.div_eq_of_lt (beValue_lt l), zero_add]
    rw [List.length_cons, beBytes_succ, beValue_cons, Nat.add_comm, hdiv, beBytes_add_mul, ih,
      UInt8.ofNat_toNat]

/-! ## Fields -/

/-- A value that takes exactly `width` bytes and is recovered from them. -/
structure Codec (α : Type) where
  width : Nat
  encode : α → List UInt8
  decode : List UInt8 → α
  length_encode : ∀ a, (encode a).length = width
  decode_encode : ∀ a, decode (encode a) = a
  encode_decode : ∀ l, l.length = width → encode (decode l) = l

namespace Codec

variable {α β : Type}

/-- The big-endian field of a type that is the range of naturals below `256 ^ w`. -/
def be (w : Nat) (toNat : α → Nat) (ofNat : Nat → α) (hlt : ∀ a, toNat a < 256 ^ w)
    (hof : ∀ a, ofNat (toNat a) = a) (hto : ∀ n, n < 256 ^ w → toNat (ofNat n) = n) :
    Codec α where
  width := w
  encode a := beBytes w (toNat a)
  decode l := ofNat (beValue l)
  length_encode a := length_beBytes w (toNat a)
  decode_encode a := by rw [beValue_beBytes_of_lt (hlt a), hof]
  encode_decode l hl := by
    rw [hto _ (hl ▸ beValue_lt l), ← hl, beBytes_beValue]

/-- The same field with its bytes in the other order. -/
def reverse (f : Codec α) : Codec α where
  width := f.width
  encode a := (f.encode a).reverse
  decode l := f.decode l.reverse
  length_encode a := by rw [List.length_reverse, f.length_encode]
  decode_encode a := by rw [List.reverse_reverse, f.decode_encode]
  encode_decode l hl := by
    rw [f.encode_decode _ (by rw [List.length_reverse, hl]), List.reverse_reverse]

/-- The same bytes read as a value of an equivalent type. -/
def map (f : Codec α) (e : α ≃ β) : Codec β where
  width := f.width
  encode b := f.encode (e.symm b)
  decode l := e (f.decode l)
  length_encode b := f.length_encode (e.symm b)
  decode_encode b := by rw [f.decode_encode, e.apply_symm_apply]
  encode_decode l hl := by rw [e.symm_apply_apply, f.encode_decode l hl]

@[simp] theorem reverse_width (f : Codec α) : f.reverse.width = f.width := rfl

@[simp] theorem map_width (f : Codec α) (e : α ≃ β) : (f.map e).width = f.width := rfl

attribute [simp] length_encode decode_encode

theorem take_encode_append (f : Codec α) (a : α) (t : List UInt8) :
    (f.encode a ++ t).take f.width = f.encode a := by
  rw [List.take_append_of_le_length (by rw [f.length_encode]),
    List.take_of_length_le (by rw [f.length_encode])]

theorem drop_encode_append (f : Codec α) (a : α) (t : List UInt8) :
    (f.encode a ++ t).drop f.width = t := by
  rw [← f.length_encode a, List.drop_left]

/-- A list that is long enough starts with the bytes of what its front decodes to. -/
theorem encode_decode_take (f : Codec α) {l : List UInt8} (h : f.width ≤ l.length) :
    f.encode (f.decode (l.take f.width)) ++ l.drop f.width = l := by
  rw [f.encode_decode _ (by rw [List.length_take, Nat.min_eq_left h]), List.take_append_drop]

/-- Several values of one field, one after another. -/
def encodeAll (f : Codec α) (as : List α) : List UInt8 := as.flatMap f.encode

@[simp] theorem encodeAll_nil (f : Codec α) : f.encodeAll [] = [] := rfl

@[simp] theorem encodeAll_cons (f : Codec α) (a : α) (as : List α) :
    f.encodeAll (a :: as) = f.encode a ++ f.encodeAll as := rfl

theorem encodeAll_append (f : Codec α) (as bs : List α) :
    f.encodeAll (as ++ bs) = f.encodeAll as ++ f.encodeAll bs := List.flatMap_append

@[simp] theorem length_encodeAll (f : Codec α) (as : List α) :
    (f.encodeAll as).length = as.length * f.width := by
  induction as with
  | nil => simp
  | cons a as ih =>
    rw [encodeAll_cons, List.length_append, f.length_encode, ih, List.length_cons]
    ring

end Codec

/-! ## The unsigned integers -/

/-- A `u16`, big-endian. -/
def u16be : Codec UInt16 :=
  .be 2 UInt16.toNat UInt16.ofNat (fun a => a.toNat_lt) (fun _ => UInt16.ofNat_toNat)
    (fun _ h => UInt16.toNat_ofNat_of_lt' h)

/-- A `u32`, big-endian. -/
def u32be : Codec UInt32 :=
  .be 4 UInt32.toNat UInt32.ofNat (fun a => a.toNat_lt) (fun _ => UInt32.ofNat_toNat)
    (fun _ h => UInt32.toNat_ofNat_of_lt' h)

/-- A `u64`, big-endian. -/
def u64be : Codec UInt64 :=
  .be 8 UInt64.toNat UInt64.ofNat (fun a => a.toNat_lt) (fun _ => UInt64.ofNat_toNat)
    (fun _ h => UInt64.toNat_ofNat_of_lt' h)

/-- A `u16`, little-endian. -/
def u16le : Codec UInt16 := u16be.reverse

/-- A `u32`, little-endian. -/
def u32le : Codec UInt32 := u32be.reverse

@[simp] theorem u16be_width : u16be.width = 2 := rfl
@[simp] theorem u32be_width : u32be.width = 4 := rfl
@[simp] theorem u64be_width : u64be.width = 8 := rfl
@[simp] theorem u16le_width : u16le.width = 2 := rfl
@[simp] theorem u32le_width : u32le.width = 4 := rfl

example : u32be.encode 0x01020304 = [1, 2, 3, 4] ∧ u32le.decode [4, 3, 2, 1] = 0x01020304 := by
  decide

end ByteField
