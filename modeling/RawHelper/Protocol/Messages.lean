import RawHelper.Lib.Ieee

/-!
# The messages of the protocol

`protocol/src/lib.rs`: what the application asks (`Request`), what the helper
answers (`Reply`), and the records a reply carries.

Numbers the helper computes with are of a type `F32` that stands for `f32`, so
that the arithmetic stays a parameter; numbers it only reads from a file and
hands on (`GainMap`, `RadialVignette`, `Warp`) are bit patterns.  `usize` is 64
bits wide and wraps, as in a release build.
-/

namespace RawHelper

open Ieee (Single Double)

/-- Bumped on any incompatible change; both sides check it with `Hello`. -/
def protocolVersion : UInt32 := 4

/-- Upper bound on a control message: a peer can never make the other allocate
more. -/
def maxMessageBytes : Nat := 2 ^ 20

/-- Points of a linearisation table (`SensorInfo.linearization`). -/
def linearizationPoints : Nat := 128

inductive Request where
  | hello (version : UInt32)
  | open (id : UInt64) (extension : Option String)
  | preview (id : UInt64)
  | sensor (id : UInt64)
  | close (id : UInt64)
  | sandboxCheck
deriving DecidableEq, Repr

/-! ## Layouts of shared pixels -/

/-- Colour space of preview pixels. -/
inductive PreviewSpace where
  | srgb
  | displayP3
deriving DecidableEq, Repr

/-- 8-bit RGBA pixels, rows packed. -/
structure ImageLayout where
  width : UInt32
  height : UInt32
  colorSpace : PreviewSpace
deriving DecidableEq, Repr

def ImageLayout.bytes (l : ImageLayout) : UInt64 :=
  l.width.toUInt64 * l.height.toUInt64 * 4

inductive Sample where
  | u16
  /-- IEEE half float. -/
  | f16
  | f32
deriving DecidableEq, Repr

/-- The bytes of one sample. -/
def Sample.size : Sample → UInt64
  | .u16 | .f16 => 2
  | .f32 => 4

/-- Samples, rows packed: `width * height * components` values of `sample`. -/
structure SensorLayout where
  width : UInt32
  height : UInt32
  components : UInt8
  sample : Sample
deriving DecidableEq, Repr

def SensorLayout.bytes (l : SensorLayout) : UInt64 :=
  l.width.toUInt64 * l.height.toUInt64 * l.components.toUInt64 * l.sample.size

/-! ## What a file says of itself -/

/-- Which decoder read the file. -/
inductive Decoder where
  | raw
  | system
deriving DecidableEq, Repr

structure Exif (F32 : Type) where
  iso : Option UInt32
  exposureTime : Option (UInt32 × UInt32)
  fNumber : Option F32
  focalLength : Option F32
  lensModel : Option String
  dateTimeOriginal : Option String

/-- What the information panel and the library need, read from the headers only. -/
structure FileInfo (F32 : Type) where
  decoder : Decoder
  raw : Bool
  make : String
  model : String
  orientation : UInt16
  exif : Exif F32

/-- Where the samples stand in the development pipeline. -/
inductive PixelOrigin where
  | sensor
  | systemLinearBt2020
deriving DecidableEq, Repr

structure ColorMatrix (F32 : Type) where
  illuminant : UInt16
  values : List F32

/-- Gains over a grid of points, for the planes `plane .. plane + planes` of the
samples every `pitch` rows and columns inside `area` (top, left, bottom, right). -/
structure GainMap where
  area : Vector UInt32 4
  plane : UInt32
  planes : UInt32
  pitch : Vector UInt32 2
  points : Vector UInt32 2
  spacing : Vector Double 2
  origin : Vector Double 2
  mapPlanes : UInt32
  gains : List Single
deriving DecidableEq

/-- A radial vignetting correction. -/
structure RadialVignette where
  k : Vector Double 5
  centre : Vector Double 2
deriving DecidableEq

/-- A rectilinear warp: six coefficients for each plane. -/
structure Warp where
  planes : List (Vector Double 6)
  centre : Vector Double 2
deriving DecidableEq

/-- What the engine needs to develop the sensor data. -/
structure SensorInfo (F32 : Type) where
  origin : PixelOrigin
  scale : F32
  bitsPerSample : UInt8
  cfa : String
  whiteBalance : Vector F32 4
  blackLevels : List F32
  whiteLevels : List F32
  colorMatrices : List (ColorMatrix F32)
  activeArea : Option (Vector UInt32 4)
  cropArea : Option (Vector UInt32 4)
  orientation : UInt16
  linearization : List (List F32)
  gainMaps : List GainMap
  radialVignette : Option RadialVignette
  warp : Option Warp

/-- The default record, from the number 0. -/
def SensorInfo.default {F32 : Type} (zero : F32) : SensorInfo F32 where
  origin := .sensor
  scale := zero
  bitsPerSample := 0
  cfa := ""
  whiteBalance := .replicate 4 zero
  blackLevels := []
  whiteLevels := []
  colorMatrices := []
  activeArea := none
  cropArea := none
  orientation := 0
  linearization := []
  gainMaps := []
  radialVignette := none
  warp := none

inductive Reply (F32 : Type) where
  | hello (version : UInt32) (decoder : String) (sandboxed : Bool)
  | opened (id : UInt64) (info : FileInfo F32) (micros : UInt64)
  | preview (id : UInt64) (image : ImageLayout) (micros : UInt64)
  | sensor (id : UInt64) (sensor : SensorLayout) (info : SensorInfo F32) (micros : UInt64)
  | closed (id : UInt64)
  | sandboxCheck (sandboxed : Bool) (escapes : List String)
  | failed (id : UInt64) (error : String)

/-! ## The size of a layout -/

/-- A layout a reply announces, of either kind. -/
inductive Layout where
  | image (l : ImageLayout)
  | sensor (l : SensorLayout)

/-- What the receiver computes. -/
def Layout.bytes : Layout → UInt64
  | .image l => l.bytes
  | .sensor l => l.bytes

/-- The product itself, without the machine's width. -/
def Layout.exactBytes : Layout → Nat
  | .image l => l.width.toNat * l.height.toNat * 4
  | .sensor l => l.width.toNat * l.height.toNat * l.components.toNat * l.sample.size.toNat

/-- **The computed size is the exact one modulo `2 ^ 64`.** -/
theorem Layout.toNat_bytes (l : Layout) : l.bytes.toNat = l.exactBytes % 2 ^ 64 := by
  cases l with
  | image l => simp [bytes, exactBytes, ImageLayout.bytes]
  | sensor l => simp [bytes, exactBytes, SensorLayout.bytes]

end RawHelper
