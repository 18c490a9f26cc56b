import RawHelper.Helper.Sensor
import RawHelper.Protocol.Announced

/-!
# Headers and embedded previews

`helper/src/decode.rs`: what `info` and `preview` make of what rawler reads, beside
`sensor`.  What rawler reads is again a parameter (`Library`), its errors and panics
included.

A preview is the first image there is of three.  An error in looking for one counts
as no image, a panic does not (`firstImage_eq_some_iff`).  The image's pixels are
copied whole: a buffer made for the size the layout announces takes exactly as many
bytes, and an image that holds more than its size says makes the copy panic
(`preview_ok`).
-/

namespace RawHelper.Preview

open Ieee Linearization Shm Samples Session

/-! ## What rawler reads -/

structure RawExif where
  orientation : Option UInt16
  isoSpeed : Option UInt32
  isoSpeedRatings : Option UInt16
  exposureTime : Option Rational
  fnumber : Option Rational
  focalLength : Option Rational
  lensModel : Option String
  dateTimeOriginal : Option String

structure RawMetadata where
  exif : RawExif
  make : String
  model : String

/-- 8-bit RGBA pixels: as many bytes as the size says, or more. -/
structure RgbaImage where
  width : UInt32
  height : UInt32
  raw : List UInt8
  le_length : width.toNat * height.toNat * 4 ≤ raw.length
  length_lt : raw.length < 2 ^ 63

/-- What rawler makes of a file's headers and of the images in it. -/
structure Library (Decoder Image : Type) extends Sensor.Rawler Decoder where
  rawMetadata : Decoder → List UInt8 → Outcome RawMetadata
  previewImage : Decoder → List UInt8 → Outcome (Option Image)
  fullImage : Decoder → List UInt8 → Outcome (Option Image)
  thumbnailImage : Decoder → List UInt8 → Outcome (Option Image)
  toRgba8 : Image → RgbaImage

/-! ## The code -/

/-- The first image there is: an error counts as none. -/
def firstImage {Image : Type} : List (Outcome (Option Image)) → Outcome (Option Image)
  | [] => .ok none
  | .ok (some image) :: _ => .ok (some image)
  | .panic :: _ => .panic
  | .ok none :: rest | .err _ :: rest => firstImage rest

section Code

variable {Decoder Image D : Type} (L : Library Decoder Image) (A : Arithmetic Single D)

/-- Headers only. -/
def info (source : List UInt8) : Outcome (FileInfo Single) := do
  let decoder ← L.getDecoder source
  let metadata ← L.rawMetadata decoder source
  let e := metadata.exif
  return {
    decoder := .raw
    raw := true
    make := metadata.make
    model := metadata.model
    orientation := e.orientation.getD 0
    exif := {
      iso := e.isoSpeed.or (e.isoSpeedRatings.map UInt16.toUInt32)
      exposureTime := e.exposureTime.map fun r => (r.n, r.d)
      fNumber := e.fnumber.map (ratio A)
      focalLength := e.focalLength.map (ratio A)
      lensModel := e.lensModel
      dateTimeOriginal := e.dateTimeOriginal } }

/-- The three images a file may have, in the order they are tried. -/
def images (decoder : Decoder) (source : List UInt8) : List (Outcome (Option Image)) :=
  [L.previewImage decoder source, L.fullImage decoder source, L.thumbnailImage decoder source]

/-- The image's pixels in a buffer of the layout's size. -/
def shared (os : Creator) (rgba : RgbaImage) : Outcome (ImageLayout × SharedBuffer) :=
  let layout : ImageLayout := ⟨rgba.width, rgba.height, .srgb⟩
  match SharedBuffer.create os layout.bytes with
  | .error e => .err e.toString
  | .ok buffer =>
    match buffer.copyFromSlice rgba.raw with
    | none => .panic
    | some buffer => .ok (layout, buffer)

def preview (os : Creator) (source : List UInt8) : Outcome (ImageLayout × SharedBuffer) := do
  let decoder ← L.getDecoder source
  let image ← firstImage (images L decoder source)
  match image with
  | none => .err "no embedded preview"
  | some image => shared os (L.toRgba8 image)

end Code

/-! ## What a preview is -/

/-- Looking for an image came to none. -/
def Missing {Image : Type} (outcome : Outcome (Option Image)) : Prop :=
  outcome = .ok none ∨ ∃ e, outcome = .err e

/-- **The first image there is**: those before it are missing. -/
theorem firstImage_eq_some_iff {Image : Type} {image : Image} :
    ∀ outcomes : List (Outcome (Option Image)), firstImage outcomes = .ok (some image) ↔
      ∃ before after, outcomes = before ++ .ok (some image) :: after ∧
        ∀ outcome ∈ before, Missing outcome := by
  intro outcomes
  induction outcomes with
  | nil =>
    constructor
    · intro h
      cases h
    · rintro ⟨before, after, h, -⟩
      cases before <;> cases h
  | cons first rest ih =>
    have hskip : Missing first → (firstImage (first :: rest) = .ok (some image) ↔
        ∃ before after, first :: rest = before ++ .ok (some image) :: after ∧
          ∀ outcome ∈ before, Missing outcome) := by
      intro hmissing
      have hfirst : firstImage (first :: rest) = firstImage rest := by
        rcases hmissing with rfl | ⟨e, rfl⟩ <;> rfl
      rw [hfirst, ih]
      constructor
      · rintro ⟨before, after, rfl, hbefore⟩
        refine ⟨first :: before, after, rfl, ?_⟩
        intro outcome hmem
        rcases List.mem_cons.mp hmem with rfl | hmem
        · exact hmissing
        · exact hbefore outcome hmem
      · rintro ⟨before, after, h, hbefore⟩
        cases before with
        | nil =>
          obtain ⟨rfl, -⟩ := List.cons.inj h
          rcases hmissing with h | ⟨e, h⟩ <;> cases h
        | cons _ before =>
          obtain ⟨-, rfl⟩ := List.cons.inj h
          exact ⟨before, after, rfl, fun outcome hmem =>
            hbefore outcome (List.mem_cons_of_mem _ hmem)⟩
    rcases first with (_ | found) | e | _
    · exact hskip (Or.inl rfl)
    · constructor
      · intro h
        obtain ⟨⟨rfl⟩⟩ := h
        exact ⟨[], rest, rfl, by simp⟩
      · rintro ⟨before, after, h, hbefore⟩
        cases before with
        | nil =>
          obtain ⟨h, -⟩ := List.cons.inj h
          exact h
        | cons _ before =>
          obtain ⟨rfl, -⟩ := List.cons.inj h
          rcases hbefore _ (List.mem_cons_self ..) with h | ⟨e, h⟩ <;> cases h
    · exact hskip (Or.inr ⟨e, rfl⟩)
    · constructor
      · intro h
        cases h
      · rintro ⟨before, after, h, hbefore⟩
        cases before with
        | nil => cases h
        | cons _ before =>
          obtain ⟨rfl, -⟩ := List.cons.inj h
          rcases hbefore _ (List.mem_cons_self ..) with h | ⟨e, h⟩ <;> cases h

theorem RgbaImage.exactBytes_lt (rgba : RgbaImage) :
    (Layout.image ⟨rgba.width, rgba.height, .srgb⟩).exactBytes < 2 ^ 64 := by
  have hle := rgba.le_length
  have hlt := rgba.length_lt
  show rgba.width.toNat * rgba.height.toNat * 4 < 2 ^ 64
  omega

theorem shared_ok {os : Creator} {rgba : RgbaImage} {layout : ImageLayout}
    {buffer : SharedBuffer} (h : shared os rgba = .ok (layout, buffer)) :
    layout = ⟨rgba.width, rgba.height, .srgb⟩ ∧ buffer.map = rgba.raw ∧
      Announced (.image layout) buffer := by
  rw [shared] at h
  split at h
  · cases h
  · next created hcreate =>
    split at h
    · cases h
    · next filled hcopy =>
      obtain ⟨rfl, rfl⟩ := Prod.mk.inj (Outcome.ok.inj h)
      obtain ⟨hfilled, hmap⟩ :=
        (announced_of_create hcreate rfl rgba.exactBytes_lt).copyFromSlice hcopy
      exact ⟨rfl, hmap, hfilled⟩

/-- **What a preview is**: of the images the file has, the first that can be read,
all its pixels, and a layout of its own size. -/
theorem preview_ok {Decoder Image : Type} {L : Library Decoder Image} {os : Creator}
    {source : List UInt8} {layout : ImageLayout} {buffer : SharedBuffer}
    (h : preview L os source = .ok (layout, buffer)) :
    ∃ decoder image before after, L.getDecoder source = .ok decoder ∧
      images L decoder source = before ++ .ok (some image) :: after ∧
      (∀ outcome ∈ before, Missing outcome) ∧
      layout = ⟨(L.toRgba8 image).width, (L.toRgba8 image).height, .srgb⟩ ∧
      buffer.map = (L.toRgba8 image).raw ∧ Announced (.image layout) buffer := by
  rw [preview] at h
  obtain ⟨decoder, hdecoder, h⟩ := Outcome.bind_eq_ok h
  obtain ⟨found, hfound, h⟩ := Outcome.bind_eq_ok h
  cases found with
  | none => cases h
  | some image =>
    obtain ⟨before, after, himages, hbefore⟩ := (firstImage_eq_some_iff _).mp hfound
    obtain ⟨hlayout, hmap, hannounced⟩ := shared_ok h
    exact ⟨decoder, image, before, after, hdecoder, himages, hbefore, hlayout, hmap, hannounced⟩

theorem preview_announced {Decoder Image : Type} {L : Library Decoder Image} {os : Creator}
    {source : List UInt8} {layout : ImageLayout} {buffer : SharedBuffer}
    (h : preview L os source = .ok (layout, buffer)) :
    Announced (.image layout) buffer ∧ layout.colorSpace = .srgb := by
  obtain ⟨-, image, -, -, -, -, -, rfl, -, hannounced⟩ := preview_ok h
  exact ⟨hannounced, rfl⟩

end RawHelper.Preview
