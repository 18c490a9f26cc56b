import RawHelper.Lib.Binary
import RawHelper.Lib.Bitmap
import RawHelper.Protocol.Shm

/-!
# Rendering into shared memory

`helper/src/system/macos.rs`: `render` makes a buffer for an image and hands it
to Core Image with the distance between its rows and the image's extent as
bounds; `preview` renders a thumbnail, `develop` a whole image, scaled down when
it has more than `MAX_DEVELOPED_PIXELS` pixels.

What the frameworks answer is a parameter (`System`, `SystemFile`).  An extent's
sides are exact numbers, or infinite or NaN, and Core Image scales them exactly;
the scale is computed in a `Format` that stands for `f64`, its square root and
its conversion to `f32` by parameters.  A position plays no part and is left out.

The buffer is sized from the truncated sides, and the bounds keep the fraction.
So the bounds are the bitmap's own rectangle exactly when both sides are whole
and their product with the bytes of a pixel did not wrap (`render_fits_iff`).  An
image of 15625 by 25600 is scaled by one half, to a width that is not whole, and
is drawn outside its buffer (`develop_writes_outside`).
-/

namespace RawHelper.Render

open Extended Value Shm

/-! ## The code -/

/-- The size of an image. -/
structure Extent where
  width : Value
  height : Value
deriving DecidableEq

inductive PixelFormat where
  | rgba8
  /-- Four half floats. -/
  | rgbah

def PixelFormat.bytesPerPixel : PixelFormat → UInt64
  | .rgba8 => 4
  | .rgbah => 8

inductive ColorSpace where
  | displayP3
  | extendedLinearItur2020

/-- What the system answers: to the creator of a buffer, whether it knows a
colour space, and whether a mapping's address is not null. -/
structure System where
  creator : Creator
  knows : ColorSpace → Bool
  nonNull : SharedBuffer → Bool

/-- What Core Image is asked to render, the image apart. -/
structure Call where
  buffer : SharedBuffer
  rowBytes : Int64
  bounds : Extent
  format : PixelFormat
  colorSpace : ColorSpace

/-- Renders an image straight into a new shared buffer. -/
def render (sys : System) (image : Extent) (format : PixelFormat) (bytesPerPixel : UInt64)
    (colorSpace : ColorSpace) : Except String (UInt32 × UInt32 × Call) :=
  let width := UInt64.ofNat (image.width.toNat 64)
  let height := UInt64.ofNat (image.height.toNat 64)
  if width = 0 ∨ height = 0 ∨ ¬ image.width.isFinite ∨ ¬ image.height.isFinite then
    .error "image has no finite extent"
  else
    match SharedBuffer.create sys.creator (width * height * bytesPerPixel) with
    | .error e => .error e.toString
    | .ok buffer =>
      if ¬ sys.knows colorSpace then
        .error "colour space unavailable"
      else if ¬ sys.nonNull buffer then
        .error "null buffer"
      else
        .ok (width.toUInt32, height.toUInt32,
          { buffer, rowBytes := (width * bytesPerPixel).toInt64, bounds := image, format,
            colorSpace })

/-- What ImageIO and Core Image make of a file: its thumbnail, its image, and for
a raw file the filter that develops it and what that gives. -/
structure SystemFile where
  raw : Bool
  thumbnail : Option Extent
  imageAtIndex : Option Extent
  rawFilter : Option (Option Extent)
  orientation : Option Value

def SystemFile.preview (file : SystemFile) (sys : System) : Except String (ImageLayout × Call) := do
  let some image := file.thumbnail | throw "no thumbnail"
  let (width, height, call) ← render sys image .rgba8 4 .displayP3
  return (⟨width, height, .displayP3⟩, call)

/-- The image to develop, at full size. -/
def SystemFile.image (file : SystemFile) : Except String Extent :=
  if file.raw then
    match file.rawFilter with
    | none => .error "raw format not supported by the system"
    | some none => .error "system raw decoding failed"
    | some (some image) => .ok image
  else
    match file.imageAtIndex with
    | none => .error "image decoding failed"
    | some image => .ok image

/-- Largest image developed at full size. -/
def maxDevelopedPixels : ℕ := 10 ^ 8

/-- The size relative to the file. -/
def scale (F : Format) (sqrt : Value → Value) (image : Extent) : Value :=
  let pixels := F.mul image.width image.height
  let most := F.round maxDevelopedPixels
  if most.lt pixels then sqrt (F.div most pixels) else finite 1

/-- The image to render. -/
def scaled (F : Format) (sqrt : Value → Value) (image : Extent) : Extent :=
  let scale := scale F sqrt image
  if scale.lt (finite 1) then
    -- `imageByApplyingTransform`, which is exact
    ⟨Format.exact.mul scale image.width, Format.exact.mul scale image.height⟩
  else image

/-- `o as u16`, or 0. -/
def orientation (recorded : Option Value) : UInt16 :=
  (recorded.map fun o => UInt16.ofNat (o.toNat 16)).getD 0

/-- The whole image as half-float RGBA. -/
def SystemFile.develop {F32 : Type} (file : SystemFile) (F : Format) (sqrt : Value → Value)
    (narrow : Value → F32) (sys : System) :
    Except String (SensorLayout × SensorInfo F32 × Call) := do
  let image ← file.image
  let (width, height, call) ←
    render sys (scaled F sqrt image) .rgbah 8 .extendedLinearItur2020
  let info :=
    { SensorInfo.default (narrow (finite 0)) with
      origin := .systemLinearBt2020
      scale := narrow (scale F sqrt image)
      bitsPerSample := 16
      orientation := Render.orientation file.orientation }
  return (⟨width, height, 4, .f16⟩, info, call)

/-! ## What must fit -/

theorem PixelFormat.bytesPerPixel_pos (format : PixelFormat) :
    0 < format.bytesPerPixel.toNat := by
  cases format <;> decide

/-- The buffer as Core Image is told to see it. -/
def Call.bitmap (call : Call) : Bitmap where
  pixelBytes := call.format.bytesPerPixel.toNat
  rowBytes := call.rowBytes.toInt
  len := call.buffer.len.toNat
  pixelBytes_pos := call.format.bytesPerPixel_pos

/-- The bounds are no wider than a row of the buffer and no taller than its rows,
and no pixel is written outside. -/
def Call.Fits (call : Call) : Prop :=
  ∃ w h : ℚ, call.bounds = ⟨finite w, finite h⟩ ∧ call.bitmap.Holds w h

/-- Both sides are whole numbers, and the bytes of the image fit in 64 bits. -/
def Extent.Whole (image : Extent) (bytesPerPixel : ℕ) : Prop :=
  ∃ m n : ℕ, image = ⟨finite m, finite n⟩ ∧ m * n * bytesPerPixel < 2 ^ 64

/-! ## Rendering -/

theorem exists_side {v : Value} (hfin : v.isFinite) (h0 : UInt64.ofNat (v.toNat 64) ≠ 0) :
    ∃ q : ℚ, v = finite q ∧ 1 ≤ q ∧ (UInt64.ofNat (v.toNat 64)).toNat = saturate 64 q := by
  cases v with
  | finite q =>
    have hnat : (UInt64.ofNat (saturate 64 q)).toNat = saturate 64 q :=
      UInt64.toNat_ofNat_of_lt' (saturate_lt q 64)
    have hpos : 0 < ⌊q⌋₊ := by
      by_contra hcon
      apply h0
      show UInt64.ofNat (min ⌊q⌋₊ (2 ^ 64 - 1)) = 0
      rw [Nat.le_zero.mp (not_lt.mp hcon), Nat.zero_min]
      rfl
    exact ⟨q, rfl, Nat.floor_pos.mp hpos, hnat⟩
  | inf s => cases hfin
  | nan => cases hfin

/-- **What `render` hands to Core Image.** -/
theorem render_ok {sys : System} {image : Extent} {format : PixelFormat} {bytesPerPixel : UInt64}
    {colorSpace : ColorSpace} {width height : UInt32} {call : Call}
    (h : render sys image format bytesPerPixel colorSpace = .ok (width, height, call)) :
    ∃ (p q : ℚ) (w h : UInt64), image = ⟨finite p, finite q⟩ ∧ 1 ≤ p ∧ 1 ≤ q ∧
      w.toNat = saturate 64 p ∧ h.toNat = saturate 64 q ∧
      SharedBuffer.create sys.creator (w * h * bytesPerPixel) = .ok call.buffer ∧
      call.rowBytes = (w * bytesPerPixel).toInt64 ∧ call.bounds = image ∧ call.format = format := by
  rw [render] at h
  split at h
  · cases h
  · next hacc =>
    rw [not_or, not_or, not_or, not_not, not_not] at hacc
    obtain ⟨hw, hh, hwf, hhf⟩ := hacc
    obtain ⟨p, hp, hp1, hwidth⟩ := exists_side hwf hw
    obtain ⟨q, hq, hq1, hheight⟩ := exists_side hhf hh
    split at h
    · cases h
    · next buffer hbuffer =>
      split at h
      · cases h
      · split at h
        · cases h
        · obtain ⟨-, h⟩ := Prod.mk.inj (Except.ok.inj h)
          obtain ⟨-, rfl⟩ := Prod.mk.inj h
          exact ⟨p, q, _, _, by rw [← hp, ← hq], hp1, hq1, hwidth, hheight, hbuffer, rfl, rfl, rfl⟩

/-! ### Sizes -/

theorem toNat_product (w h b : UInt64) :
    (w * h * b).toNat = w.toNat * h.toNat * b.toNat % 2 ^ 64 := by
  rw [UInt64.toNat_mul, UInt64.toNat_mul, Nat.mod_mul_mod]

theorem le_product {m n b : ℕ} (hm : 0 < m) (hn : 0 < n) (hb : 0 < b) :
    m ≤ m * n * b ∧ n ≤ m * n * b ∧ m * b ≤ m * n * b := by
  have hrow : m * b ≤ m * n * b := Nat.mul_le_mul_right b (Nat.le_mul_of_pos_right m hn)
  have hcolumn : n ≤ m * n := Nat.le_mul_of_pos_left n hm
  exact ⟨(Nat.le_mul_of_pos_right m hb).trans hrow, hcolumn.trans (Nat.le_mul_of_pos_right _ hb),
    hrow⟩

theorem toInt_toInt64_le (x : UInt64) : x.toInt64.toInt ≤ x.toNat := by
  show x.toBitVec.toInt ≤ x.toBitVec.toNat
  rw [BitVec.toInt_eq_toNat_cond]
  split <;> omega

theorem toInt_toInt64_of_lt {x : UInt64} (h : x.toNat < 2 ^ 63) : x.toInt64.toInt = x.toNat := by
  show x.toBitVec.toInt = x.toBitVec.toNat
  have hlt : 2 * x.toBitVec.toNat < 2 ^ 64 := by
    show 2 * x.toNat < 2 ^ 64
    omega
  rw [BitVec.toInt_eq_toNat_cond, if_pos hlt]

/-! ### When the bounds fit -/

section Fits

variable {sys : System} {image : Extent} {format : PixelFormat} {colorSpace : ColorSpace}
  {width height : UInt32} {call : Call}

/-- Truncating and wrapping only make the bitmap smaller, so bounds that fit are
its own. -/
theorem whole_of_fits
    (hrender : render sys image format format.bytesPerPixel colorSpace = .ok (width, height, call))
    (hfits : call.Fits) : image.Whole format.bytesPerPixel.toNat := by
  obtain ⟨p, q, w, h, rfl, hp, hq, hw, hh, hbuffer, hrow, hbounds, rfl⟩ := render_ok hrender
  obtain ⟨p', q', heq, hholds⟩ := hfits
  rw [hbounds] at heq
  obtain ⟨⟨rfl⟩, ⟨rfl⟩⟩ := Extent.mk.inj heq
  have hwp : (w.toNat : ℚ) ≤ p := hw ▸ saturate_le (by linarith) 64
  have hhq : (h.toNat : ℚ) ≤ q := hh ▸ saturate_le (by linarith) 64
  have hh0 : 0 < h.toNat := hh ▸ saturate_pos hq (by omega)
  have hrow' : call.bitmap.rowBytes ≤ w.toNat * call.bitmap.pixelBytes := by
    show call.rowBytes.toInt ≤ w.toNat * call.format.bytesPerPixel.toNat
    rw [hrow]
    refine (toInt_toInt64_le _).trans ?_
    rw [UInt64.toNat_mul]
    exact_mod_cast Nat.mod_le _ _
  have hlen : call.bitmap.len ≤ h.toNat * (w.toNat * call.bitmap.pixelBytes) := by
    show call.buffer.len.toNat ≤ h.toNat * (w.toNat * call.format.bytesPerPixel.toNat)
    rw [(SharedBuffer.create_ok hbuffer).1, toNat_product, ← mul_assoc, Nat.mul_comm h.toNat]
    exact Nat.mod_le _ _
  obtain ⟨hpw, hqh, hfull⟩ := hholds.eq_of_le hwp hhq hh0 hrow' hlen
  refine ⟨w.toNat, h.toNat, by rw [hpw, hqh], ?_⟩
  rw [Nat.mul_comm w.toNat, mul_assoc]
  exact hfull ▸ call.buffer.len.toNat_lt

/-- Whole sides are not truncated, and below `2 ^ 64` nothing wraps. -/
theorem fits_of_whole
    (hrender : render sys image format format.bytesPerPixel colorSpace = .ok (width, height, call))
    (hwhole : image.Whole format.bytesPerPixel.toNat) : call.Fits := by
  obtain ⟨p, q, w, h, rfl, hp, hq, hw, hh, hbuffer, hrow, hbounds, rfl⟩ := render_ok hrender
  obtain ⟨m, n, heq, hsize⟩ := hwhole
  obtain ⟨⟨rfl⟩, ⟨rfl⟩⟩ := Extent.mk.inj heq
  have hm : 0 < m := by exact_mod_cast hp
  have hn : 0 < n := by exact_mod_cast hq
  obtain ⟨hmle, hnle, hrowle⟩ := le_product hm hn call.format.bytesPerPixel_pos
  rw [saturate_natCast (by omega)] at hw hh
  obtain ⟨hlen, -, hlt, -⟩ := SharedBuffer.create_ok hbuffer
  rw [toNat_product, hw, hh, Nat.mod_eq_of_lt hsize] at hlt
  have hbytes : (w * call.format.bytesPerPixel).toNat = m * call.format.bytesPerPixel.toNat := by
    rw [UInt64.toNat_mul, hw, Nat.mod_eq_of_lt (by omega)]
  refine ⟨m, n, hbounds, Bitmap.holds_of_eq hm ?_ ?_⟩
  · show call.rowBytes.toInt = m * call.format.bytesPerPixel.toNat
    rw [hrow, toInt_toInt64_of_lt (by omega), hbytes, Nat.cast_mul]
  · show call.buffer.len.toNat = n * (m * call.format.bytesPerPixel.toNat)
    rw [hlen, toNat_product, hw, hh, Nat.mod_eq_of_lt hsize]
    ring

end Fits

theorem develop_rendered {F32 : Type} {file : SystemFile} {F : Format} {sqrt : Value → Value}
    {narrow : Value → F32} {sys : System} {layout : SensorLayout} {info : SensorInfo F32}
    {call : Call} (h : file.develop F sqrt narrow sys = .ok (layout, info, call)) :
    ∃ image width height, file.image = .ok image ∧
      (info.origin = .systemLinearBt2020 ∧ info.scale = narrow (scale F sqrt image)) ∧
      layout = ⟨width, height, 4, .f16⟩ ∧
      render sys (scaled F sqrt image) .rgbah 8 .extendedLinearItur2020 =
        .ok (width, height, call) := by
  rw [SystemFile.develop] at h
  cases himage : file.image with
  | error e => rw [himage] at h; cases h
  | ok image =>
    rw [himage] at h
    simp only [bind, Except.bind] at h
    split at h
    · cases h
    · next r hr =>
      obtain ⟨width, height, call'⟩ := r
      obtain ⟨rfl, hrest⟩ := Prod.mk.inj (Except.ok.inj h)
      obtain ⟨rfl, rfl⟩ := Prod.mk.inj hrest
      exact ⟨image, width, height, rfl, ⟨rfl, rfl⟩, rfl, hr⟩

theorem develop_of_render {F32 : Type} (file : SystemFile) {F : Format} {sqrt : Value → Value}
    (narrow : Value → F32) {sys : System} {image : Extent} {width height : UInt32} {call : Call}
    (himage : file.image = .ok image)
    (hrender : render sys (scaled F sqrt image) .rgbah 8 .extendedLinearItur2020 =
      .ok (width, height, call)) :
    ∃ info, file.develop F sqrt narrow sys = .ok (⟨width, height, 4, .f16⟩, info, call) := by
  rw [SystemFile.develop, himage]
  simp only [bind, Except.bind, hrender]
  exact ⟨_, rfl⟩

/-- **The bounds fit the buffer exactly for whole sides**, their bytes below
`2 ^ 64`; of a developed image, for whole sides once it is scaled. -/
theorem render_fits_iff (sys : System) :
    (∀ (image : Extent) (format : PixelFormat) (colorSpace : ColorSpace)
      (width height : UInt32) (call : Call),
      render sys image format format.bytesPerPixel colorSpace = .ok (width, height, call) →
      (call.Fits ↔ image.Whole format.bytesPerPixel.toNat)) ∧
    ∀ (F32 : Type) (file : SystemFile) (F : Format) (sqrt : Value → Value) (narrow : Value → F32)
      (layout : SensorLayout) (info : SensorInfo F32) (call : Call),
      file.develop F sqrt narrow sys = .ok (layout, info, call) →
      ∃ image, file.image = .ok image ∧ (call.Fits ↔ (scaled F sqrt image).Whole 8) := by
  refine ⟨?_, ?_⟩
  · intro image format colorSpace width height call hrender
    exact ⟨whole_of_fits hrender, fits_of_whole hrender⟩
  · intro F32 file F sqrt narrow layout info call hdevelop
    obtain ⟨image, width, height, himage, -, -, hrender⟩ := develop_rendered hdevelop
    exact ⟨image, himage, whole_of_fits hrender, fits_of_whole hrender⟩

/-! ## Two images -/

/-- A system that knows every colour space and fails only past the longest
mapping. -/
def System.reliable : System := ⟨.reliable, fun _ => true, fun _ => true⟩

theorem render_reliable (image : Extent) {w h : UInt64} (format : PixelFormat)
    (colorSpace : ColorSpace) (hw : UInt64.ofNat (image.width.toNat 64) = w)
    (hh : UInt64.ofNat (image.height.toNat 64) = h) (hw0 : w ≠ 0) (hh0 : h ≠ 0)
    (hwf : image.width.isFinite) (hhf : image.height.isFinite) {buffer : SharedBuffer}
    (hbuffer : SharedBuffer.create .reliable (w * h * format.bytesPerPixel) = .ok buffer) :
    render .reliable image format format.bytesPerPixel colorSpace =
      .ok (w.toUInt32, h.toUInt32,
        ⟨buffer, (w * format.bytesPerPixel).toInt64, image, format, colorSpace⟩) := by
  have hacc : ¬ (w = 0 ∨ h = 0 ∨ ¬ image.width.isFinite ∨ ¬ image.height.isFinite) := by
    rw [hwf, hhf]
    simp [hw0, hh0]
  have hcreate : SharedBuffer.create System.reliable.creator (w * h * format.bytesPerPixel) =
      .ok buffer := hbuffer
  rw [render]
  simp only [hw, hh]
  rw [if_neg hacc, hcreate]
  rfl

/-- IEEE double precision, and the conversion to single. -/
def f64 : Format := binary64.toFormat

def toF32 : Value → Value := binary32.toFormat.convert

/-- A file that is not raw, of the given size. -/
def fileOf (w h : ℕ) : SystemFile where
  raw := false
  thumbnail := none
  imageAtIndex := some ⟨finite w, finite h⟩
  rawFilter := none
  orientation := none

/-- A square root that is exact on the squares of rationals. -/
def root : Value → Value
  | finite q => finite (Rat.sqrt q)
  | v => v

/-- A small image, rendered as it is and developed at full size. -/
theorem render_fits_iff_three_by_two :
    (∃ width height call,
      render .reliable ⟨finite (3 : ℕ), finite (2 : ℕ)⟩ .rgba8 4 .displayP3 =
        .ok (width, height, call) ∧ call.Fits) ∧
    ∃ layout info call, (fileOf 3 2).develop f64 root toF32 .reliable = .ok (layout, info, call) ∧
      call.Fits := by
  have hscaled : scaled f64 root ⟨finite (3 : ℕ), finite (2 : ℕ)⟩ =
      ⟨finite (3 : ℕ), finite (2 : ℕ)⟩ := by decide +kernel
  refine ⟨?_, ?_⟩
  · obtain ⟨buffer, hbuffer⟩ := create_reliable 24 (by decide) (by decide) (by decide)
    have hrender := render_reliable ⟨finite (3 : ℕ), finite (2 : ℕ)⟩ .rgba8 .displayP3
      (w := 3) (h := 2) (by decide +kernel) (by decide +kernel) (by decide) (by decide) rfl rfl
      hbuffer
    exact ⟨_, _, _, hrender, ((render_fits_iff _).1 _ _ _ _ _ _ hrender).mpr ⟨3, 2, rfl, by decide⟩⟩
  · obtain ⟨buffer, hbuffer⟩ := create_reliable 48 (by decide) (by decide) (by decide)
    have hrender := render_reliable ⟨finite (3 : ℕ), finite (2 : ℕ)⟩ .rgbah
      .extendedLinearItur2020 (w := 3) (h := 2) (by decide +kernel) (by decide +kernel) (by decide)
      (by decide) rfl rfl hbuffer
    rw [← hscaled] at hrender
    obtain ⟨info, hdevelop⟩ := develop_of_render (fileOf 3 2) toF32 rfl hrender
    obtain ⟨image, himage, hfits⟩ := (render_fits_iff _).2 _ _ _ _ _ _ _ _ hdevelop
    obtain rfl := Except.ok.inj himage
    exact ⟨_, info, _, hdevelop, hfits.mpr ⟨3, 2, hscaled, by decide⟩⟩

theorem scaled_large : scaled f64 root ⟨finite (15625 : ℕ), finite (25600 : ℕ)⟩ =
    ⟨finite (15625 / 2), finite (12800 : ℕ)⟩ := by
  decide +kernel

/-- **An image drawn outside its buffer**: it has four times as many pixels as
are developed at full size, so the scale is one half and the width is not whole.
The buffer is whole pages, with nothing after it. -/
theorem develop_writes_outside :
    ∃ layout info call, (fileOf 15625 25600).develop f64 root toF32 .reliable =
        .ok (layout, info, call) ∧
      layout.width = 7812 ∧ call.bounds = ⟨finite (15625 / 2), finite (12800 : ℕ)⟩ ∧ ¬ call.Fits ∧
      (7812 < ⌈(15625 / 2 : ℚ)⌉₊ ∧ 12799 < ⌈((12800 : ℕ) : ℚ)⌉₊ ∧
        ¬ call.bitmap.Inside 7812 12799) ∧
      call.buffer.fd.size = call.buffer.len.toNat := by
  obtain ⟨buffer, hbuffer⟩ := create_reliable 799948800 (by decide) (by decide) (by decide)
  obtain ⟨hlen, -, -, hsize⟩ := SharedBuffer.create_ok hbuffer
  have hrender := render_reliable ⟨finite (15625 / 2), finite (12800 : ℕ)⟩ .rgbah
    .extendedLinearItur2020 (w := 7812) (h := 12800) (by decide +kernel) (by decide +kernel)
    (by decide) (by decide) rfl rfl hbuffer
  rw [← scaled_large] at hrender
  obtain ⟨info, hdevelop⟩ := develop_of_render (fileOf 15625 25600) toF32 rfl hrender
  rw [scaled_large] at hdevelop
  have hwidth : 7812 < ⌈(15625 / 2 : ℚ)⌉₊ := Nat.lt_ceil.mpr (by norm_num)
  have hheight : 12799 < ⌈((12800 : ℕ) : ℚ)⌉₊ := Nat.lt_ceil.mpr (by norm_num)
  -- the pixel after the last one of the last row
  have hout : ¬ (Call.bitmap ⟨buffer, (7812 * PixelFormat.rgbah.bytesPerPixel).toInt64,
      ⟨finite (15625 / 2), finite (12800 : ℕ)⟩, .rgbah, .extendedLinearItur2020⟩).Inside
      7812 12799 := by
    rintro ⟨-, hinside⟩
    have hrow : (7812 * PixelFormat.rgbah.bytesPerPixel).toInt64.toInt = 62496 := by decide
    have hoffset : (12799 * 62496 + 7812 * 8 + 8 : ℤ) ≤ buffer.len.toNat := by
      rw [← hrow]
      exact hinside
    rw [hlen] at hoffset
    exact absurd hoffset (by decide)
  refine ⟨_, info, _, hdevelop, rfl, rfl, ?_, ⟨hwidth, hheight, hout⟩, ?_⟩
  · rintro ⟨p, q, heq, hholds⟩
    obtain ⟨⟨rfl⟩, ⟨rfl⟩⟩ := Extent.mk.inj heq
    exact hout (hholds.inside 7812 12799 hwidth hheight)
  · show buffer.fd.size = buffer.len.toNat
    rw [hsize, hlen]
    decide

end RawHelper.Render
