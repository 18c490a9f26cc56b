import RawHelper.Protocol.Shm
import RawHelper.Helper.Linearization

/-!
# The samples of a raw image

`helper/src/decode.rs`: what `sensor` does with the image rawler decoded.
`describe` takes the record of a reply from it, `samples` copies its samples into
a shared buffer, after one check: that the layout, whose sides are cut to 32 bits
and whose components to 8, has as many bytes as there are.

`samples_exact` says that this one check is enough.  A side that is cut becomes
smaller, the product of the cut sides is at most that of the real ones, which is
the number of samples, and where there are samples it is equal only when nothing
was cut (`cut_eq_iff`).
-/

namespace RawHelper.Samples

open ByteField Ieee Linearization Shm

/-! ## An image -/

structure Rational where
  n : UInt32
  d : UInt32

structure Rect where
  x : UInt64
  y : UInt64
  w : UInt64
  h : UInt64

inductive RawPhotometricInterpretation where
  | cfa (name : String)
  | other

inductive RawImageData where
  | integer (data : List UInt16)
  | float (data : List Single)

namespace RawImageData

/-- How many samples there are. -/
def length : RawImageData → Nat
  | .integer data => data.length
  | .float data => data.length

def sample : RawImageData → Sample
  | .integer _ => .u16
  | .float _ => .f32

/-- The samples as they lie in memory, little-endian. -/
def bytes : RawImageData → List UInt8
  | .integer data => u16le.encodeAll data
  | .float data => f32le.encodeAll data

theorem length_bytes (data : RawImageData) :
    data.bytes.length = data.length * data.sample.size.toNat := by
  cases data with
  | integer data =>
    rw [bytes, Codec.length_encodeAll, u16le_width]
    rfl
  | float data =>
    rw [bytes, Codec.length_encodeAll, f32le_width]
    rfl

end RawImageData

/-- What rawler decodes.  Its samples are a slice, so they have less than
`2 ^ 63` bytes. -/
structure RawImage where
  width : UInt64
  height : UInt64
  /-- Components of a pixel. -/
  cpp : UInt64
  /-- Bits of a sample. -/
  bps : UInt64
  photometric : RawPhotometricInterpretation
  wbCoeffs : Vector Single 4
  blacklevel : List Rational
  whitelevel : List UInt32
  /-- By illuminant. -/
  colorMatrix : List (UInt16 × List Single)
  activeArea : Option Rect
  cropArea : Option Rect
  orientation : UInt16
  data : RawImageData
  bytes_lt : data.bytes.length < 2 ^ 63

/-- The matrices as the protocol has them. -/
def RawImage.matrices (image : RawImage) : List (ColorMatrix Single) :=
  image.colorMatrix.map fun (illuminant, values) => ⟨illuminant, values⟩

/-! ## The code -/

section Describe

variable {D : Type} (A : Arithmetic Single D)

def ratio (value : Rational) : Single :=
  if value.d = 0 then A.singleOfNat 0
  else A.singleDiv (A.singleOfNat value.n.toNat) (A.singleOfNat value.d.toNat)

def area (r : Rect) : Vector UInt32 4 :=
  #v[r.x.toUInt32, r.y.toUInt32, r.w.toUInt32, r.h.toUInt32]

/-- The record of a reply, without what the file's tags add to it. -/
def describe (image : RawImage) : SensorInfo Single :=
  { SensorInfo.default (A.singleOfNat 0) with
    origin := .sensor
    scale := A.singleOfNat 1
    bitsPerSample := image.bps.toUInt8
    cfa := match image.photometric with
      | .cfa name => name
      | .other => ""
    whiteBalance := image.wbCoeffs
    blackLevels := image.blacklevel.map (ratio A)
    whiteLevels := image.whitelevel.map fun w => A.singleOfNat w.toNat
    colorMatrices := image.matrices
    activeArea := image.activeArea.map area
    cropArea := image.cropArea.map area
    orientation := image.orientation }

end Describe

inductive SampleError where
  | countMismatch
  | create (error : CreateError)
deriving DecidableEq

def SampleError.toString : SampleError → String
  | .countMismatch => "sample count does not match the image size"
  | .create error => error.toString

/-- The layout announced, in the widths of the protocol. -/
def RawImage.layout (image : RawImage) : SensorLayout where
  width := image.width.toUInt32
  height := image.height.toUInt32
  components := image.cpp.toUInt8
  sample := image.data.sample

/-- Copies the samples into a shared buffer; `none` is a panic of the copy. -/
def samples (os : Creator) (image : RawImage) :
    Except SampleError (Option (SensorLayout × SharedBuffer)) :=
  let bytes := image.data.bytes
  let len := UInt64.ofNat bytes.length
  if image.layout.bytes ≠ len then
    .error .countMismatch
  else
    match SharedBuffer.create os len with
    | .error e => .error (.create e)
    | .ok buffer => .ok ((buffer.copyFromSlice bytes).map (image.layout, ·))

/-! ## Cutting the sides -/

theorem size_pos (s : Sample) : 0 < s.size.toNat := by
  cases s <;> decide

/-- **A product of cut factors is the product of the factors only when none was
cut**, where that is not zero. -/
theorem cut_eq_iff {a b c a' b' c' : ℕ} (ha : a' ≤ a) (hb : b' ≤ b) (hc : c' ≤ c)
    (hpos : 0 < a * b * c) : a' * b' * c' = a * b * c ↔ a' = a ∧ b' = b ∧ c' = c := by
  constructor
  · intro h
    have hpos' : 0 < a' * b' * c' := h ▸ hpos
    have hab' : 0 < a' * b' := Nat.pos_of_mul_pos_right hpos'
    have ha' : 0 < a' := Nat.pos_of_mul_pos_right hab'
    have hc0 : 0 < c := Nat.pos_of_mul_pos_left hpos
    have hb0 : 0 < b := Nat.pos_of_mul_pos_left (Nat.pos_of_mul_pos_right hpos)
    have hab : a' * b' ≤ a * b := Nat.mul_le_mul ha hb
    obtain ⟨hprod, hc'⟩ := (mul_eq_mul_iff_eq_and_eq_of_pos hab hc hab' hc0).mp h
    obtain ⟨ha', hb'⟩ := (mul_eq_mul_iff_eq_and_eq_of_pos ha hb ha' hb0).mp hprod
    exact ⟨ha', hb', hc'⟩
  · rintro ⟨rfl, rfl, rfl⟩
    rfl

/-- The data holds as many samples as the size of the image says. -/
def RawImage.Complete (image : RawImage) : Prop :=
  image.data.length = image.width.toNat * image.height.toNat * image.cpp.toNat

/-- There are samples, and the protocol can express the size. -/
structure RawImage.Representable (image : RawImage) : Prop where
  nonempty : image.data.bytes ≠ []
  width_lt : image.width.toNat < 2 ^ 32
  height_lt : image.height.toNat < 2 ^ 32
  cpp_lt : image.cpp.toNat < 2 ^ 8

variable {image : RawImage}

theorem exactBytes_layout (image : RawImage) :
    (Layout.sensor image.layout).exactBytes =
      image.width.toNat % 2 ^ 32 * (image.height.toNat % 2 ^ 32) * (image.cpp.toNat % 2 ^ 8) *
        image.data.sample.size.toNat := by
  simp [Layout.exactBytes, RawImage.layout]

/-- The layout never announces more bytes than a complete image has, so nothing
wraps. -/
theorem toNat_bytes_layout (h : image.Complete) :
    (Layout.sensor image.layout).exactBytes ≤ image.data.bytes.length ∧
      image.layout.bytes.toNat = (Layout.sensor image.layout).exactBytes := by
  have hle : (Layout.sensor image.layout).exactBytes ≤ image.data.bytes.length := by
    rw [exactBytes_layout, image.data.length_bytes, h]
    gcongr <;> exact Nat.mod_le _ _
  refine ⟨hle, ?_⟩
  have hlt := image.bytes_lt
  exact ((Layout.sensor image.layout).toNat_bytes).trans (Nat.mod_eq_of_lt (by omega))

/-- **The check passes on samples exactly for a size the protocol expresses.** -/
theorem bytes_layout_eq_iff (h : image.Complete) (hne : image.data.bytes ≠ []) :
    image.layout.bytes.toNat = image.data.bytes.length ↔
      image.width.toNat < 2 ^ 32 ∧ image.height.toNat < 2 ^ 32 ∧ image.cpp.toNat < 2 ^ 8 := by
  have hs := size_pos image.data.sample
  have hpos : 0 < image.width.toNat * image.height.toNat * image.cpp.toNat := by
    have hlen := List.length_pos_iff.mpr hne
    rw [image.data.length_bytes, h] at hlen
    exact Nat.pos_of_mul_pos_right hlen
  have hcut : ∀ a m : ℕ, 0 < m → (a % m = a ↔ a < m) := fun a m hm =>
    ⟨fun h => h ▸ Nat.mod_lt a hm, Nat.mod_eq_of_lt⟩
  rw [(toNat_bytes_layout h).2, exactBytes_layout, image.data.length_bytes, h,
    Nat.mul_right_cancel_iff hs,
    cut_eq_iff (Nat.mod_le _ _) (Nat.mod_le _ _) (Nat.mod_le _ _) hpos,
    hcut _ _ (by norm_num), hcut _ _ (by norm_num), hcut _ _ (by norm_num)]

/-! ## Copying the samples -/

theorem toNat_length_bytes (image : RawImage) :
    (UInt64.ofNat image.data.bytes.length).toNat = image.data.bytes.length := by
  have hlt := image.bytes_lt
  rw [UInt64.toNat_ofNat']
  omega

/-- The copy never panics, and copies every sample. -/
theorem samples_ok {os : Creator} {r : Option (SensorLayout × SharedBuffer)}
    (h : samples os image = .ok r) :
    ∃ buffer, r = some (image.layout, buffer) ∧ buffer.map = image.data.bytes := by
  rw [samples] at h
  split at h
  · cases h
  · split at h
    · cases h
    · next buffer hbuffer =>
      have hlen : image.data.bytes.length = buffer.len.toNat := by
        rw [(SharedBuffer.create_ok hbuffer).1, toNat_length_bytes]
      rw [SharedBuffer.copyFromSlice, dif_pos hlen] at h
      exact ⟨_, (Except.ok.inj h).symm, buffer.map_write hlen⟩

/-- A buffer that is created is filled. -/
theorem samples_of_create {os : Creator} (image : RawImage) {buffer : SharedBuffer}
    (hcheck : image.layout.bytes = UInt64.ofNat image.data.bytes.length)
    (hbuffer : SharedBuffer.create os (UInt64.ofNat image.data.bytes.length) = .ok buffer) :
    ∃ buffer, samples os image = .ok (some (image.layout, buffer)) ∧
      buffer.map = image.data.bytes := by
  have hcopied : ∃ r, samples os image = .ok r := by
    rw [samples, if_neg (not_not.mpr hcheck), hbuffer]
    exact ⟨_, rfl⟩
  obtain ⟨r, hr⟩ := hcopied
  obtain ⟨filled, rfl, hmap⟩ := samples_ok hr
  exact ⟨filled, hr, hmap⟩

/-- The image gets past the check and the test for an empty buffer. -/
def Accepted (os : Creator) (image : RawImage) : Prop :=
  samples os image ≠ .error .countMismatch ∧ samples os image ≠ .error (.create .empty)

theorem accepted_iff (os : Creator) (image : RawImage) :
    Accepted os image ↔
      image.layout.bytes.toNat = image.data.bytes.length ∧ image.data.bytes ≠ [] := by
  have hbytes : image.layout.bytes = UInt64.ofNat image.data.bytes.length ↔
      image.layout.bytes.toNat = image.data.bytes.length := by
    rw [← UInt64.toNat_inj, toNat_length_bytes]
  have hempty : image.data.bytes ≠ [] ↔ UInt64.ofNat image.data.bytes.length ≠ 0 := by
    rw [ne_eq, ne_eq, ← UInt64.toNat_inj, toNat_length_bytes, UInt64.toNat_zero,
      List.length_eq_zero_iff]
  rw [Accepted, samples]
  by_cases hcheck : image.layout.bytes = UInt64.ofNat image.data.bytes.length
  · rw [if_neg (not_not.mpr hcheck), ← hbytes, hempty]
    cases hc : SharedBuffer.create os (UInt64.ofNat image.data.bytes.length) with
    | error e =>
      have hzero : UInt64.ofNat image.data.bytes.length = 0 ↔ e = .empty := by
        rw [← @SharedBuffer.create_eq_empty_iff os, hc, Except.error.injEq]
      simp [hcheck, hzero]
    | ok buffer =>
      simp [hcheck, (SharedBuffer.create_ok hc).2.1]
  · rw [if_pos hcheck, ← hbytes]
    simp [hcheck]

/-- **One check is exact**: a complete image gets past it, and is not found
empty, exactly when it has samples and the protocol can express its size.  Then
the layout's sides are the image's own, no product on the way wraps, the layout's
bytes are those of the samples, and what is copied is all of them. -/
theorem samples_exact (h : image.Complete) (os : Creator) :
    (Accepted os image ↔ image.Representable) ∧
    (image.Representable →
      (image.layout.width.toNat = image.width.toNat ∧
        image.layout.height.toNat = image.height.toNat ∧
        image.layout.components.toNat = image.cpp.toNat) ∧
      (image.width.toNat * image.height.toNat < 2 ^ 64 ∧
        image.width.toNat * image.height.toNat * image.cpp.toNat < 2 ^ 64 ∧
        image.width.toNat * image.height.toNat * image.cpp.toNat *
          image.data.sample.size.toNat < 2 ^ 64) ∧
      image.layout.bytes.toNat = image.data.bytes.length ∧
      ∀ r, samples os image = .ok r →
        ∃ buffer, r = some (image.layout, buffer) ∧ buffer.map = image.data.bytes) := by
  refine ⟨?_, ?_⟩
  · rw [accepted_iff]
    constructor
    · rintro ⟨hbytes, hne⟩
      obtain ⟨hw, hh, hc⟩ := (bytes_layout_eq_iff h hne).mp hbytes
      exact ⟨hne, hw, hh, hc⟩
    · rintro ⟨hne, hw, hh, hc⟩
      exact ⟨(bytes_layout_eq_iff h hne).mpr ⟨hw, hh, hc⟩, hne⟩
  · rintro ⟨hne, hw, hh, hc⟩
    have hlen := List.length_pos_iff.mpr hne
    have hlt := image.bytes_lt
    rw [image.data.length_bytes, h] at hlen hlt
    have hcpp : 0 < image.cpp.toNat :=
      Nat.pos_of_mul_pos_left (Nat.pos_of_mul_pos_right hlen)
    -- the products on the way are at most the last
    have h₁ := Nat.le_mul_of_pos_right (image.width.toNat * image.height.toNat) hcpp
    have h₂ := Nat.le_mul_of_pos_right
      (image.width.toNat * image.height.toNat * image.cpp.toNat) (size_pos image.data.sample)
    refine ⟨⟨?_, ?_, ?_⟩, ⟨by omega, by omega, by omega⟩, ?_, fun r => samples_ok⟩
    · exact (UInt64.toNat_toUInt32 _).trans (Nat.mod_eq_of_lt hw)
    · exact (UInt64.toNat_toUInt32 _).trans (Nat.mod_eq_of_lt hh)
    · exact (UInt64.toNat_toUInt8 _).trans (Nat.mod_eq_of_lt hc)
    · exact (bytes_layout_eq_iff h hne).mpr ⟨hw, hh, hc⟩

/-- A small image: two samples. -/
def smallImage (colorMatrix : List (UInt16 × List Single)) : RawImage where
  width := 2
  height := 1
  cpp := 1
  bps := 16
  photometric := .cfa "RGGB"
  wbCoeffs := .replicate 4 ⟨0x3F800000⟩
  blacklevel := [⟨0, 1⟩]
  whitelevel := [65535]
  colorMatrix := colorMatrix
  activeArea := none
  cropArea := none
  orientation := 1
  data := .integer [258, 3]
  bytes_lt := by decide

theorem samples_smallImage (colorMatrix : List (UInt16 × List Single)) :
    ∃ buffer, samples .reliable (smallImage colorMatrix) = .ok (some (⟨2, 1, 1, .u16⟩, buffer)) ∧
      buffer.map = [2, 1, 3, 0] := by
  obtain ⟨buffer, hbuffer⟩ := create_reliable 4 (by decide) (by decide) (by decide)
  exact samples_of_create (smallImage colorMatrix) rfl hbuffer

theorem samples_exact_smallImage :
    Accepted .reliable (smallImage []) ∧ (smallImage []).layout.bytes.toNat = 4 ∧
      ∃ buffer, samples .reliable (smallImage []) = .ok (some ((smallImage []).layout, buffer)) ∧
        buffer.map = [2, 1, 3, 0] := by
  have hsize : (smallImage []).Representable := ⟨by decide, by decide, by decide, by decide⟩
  obtain ⟨haccepted, hexact⟩ := @samples_exact (smallImage []) rfl .reliable
  obtain ⟨-, -, hbytes, hcopied⟩ := hexact hsize
  obtain ⟨buffer, hbuffer, -⟩ := samples_smallImage []
  obtain ⟨filled, hfilled, hmap⟩ := hcopied _ hbuffer
  rw [hfilled] at hbuffer
  exact ⟨haccepted.mpr hsize, hbytes, filled, hbuffer, hmap⟩

end RawHelper.Samples
