import RawHelper.Protocol.Messages

/-!
# The size of a reply on the wire

Messages are encoded with postcard, which is not part of the repository: a
`Postcard` is an encoder of replies with what is assumed of its sizes.  A `u32`
takes one to five bytes, a float its own width, a sequence its length and then
its elements, an option a byte and then what it holds.  What is left of a sensor
reply when its opcodes are taken out is `rest`.

`wire` is such an encoder, postcard's documented format: variable-length
integers of seven bits a byte, floats little-endian, an enumeration by the number
of its variant.
-/

namespace RawHelper

open ByteField Ieee

/-- How many bytes the integers and the lengths take. -/
structure Sizes where
  varint : UInt32 → Nat
  lengthBytes : Nat → Nat
  one_le_varint : ∀ n, 1 ≤ varint n
  varint_le : ∀ n, varint n ≤ 5
  one_le_lengthBytes : ∀ n, 1 ≤ lengthBytes n

namespace Sizes

variable (Z : Sizes)

/-- A list of lists of `f32`. -/
def tables {F32 : Type} (tables : List (List F32)) : Nat :=
  Z.lengthBytes tables.length + (tables.map fun t => Z.lengthBytes t.length + 4 * t.length).sum

/-- Eleven `u32`, four `f64` and the gains. -/
def gainMap (m : GainMap) : Nat :=
  ((m.area.toList ++ [m.plane, m.planes] ++ m.pitch.toList ++ m.points.toList).map Z.varint).sum +
    32 + Z.varint m.mapPlanes + (Z.lengthBytes m.gains.length + 4 * m.gains.length)

def gainMaps (maps : List GainMap) : Nat :=
  Z.lengthBytes maps.length + (maps.map Z.gainMap).sum

/-- Seven `f64`, when there. -/
def vignette : Option RadialVignette → Nat
  | none => 1
  | some _ => 1 + 56

/-- Six `f64` a plane and two more, when there. -/
def warp : Option Warp → Nat
  | none => 1
  | some w => 1 + (Z.lengthBytes w.planes.length + 48 * w.planes.length + 16)

/-- What the opcodes of a file add to a sensor reply. -/
def opcodes {F32 : Type} (info : SensorInfo F32) : Nat :=
  Z.tables info.linearization + Z.gainMaps info.gainMaps + vignette info.radialVignette +
    Z.warp info.warp

end Sizes

/-- The record before the opcodes are read. -/
def SensorInfo.withoutOpcodes {F32 : Type} (info : SensorInfo F32) : SensorInfo F32 :=
  { info with linearization := [], gainMaps := [], radialVignette := none, warp := none }

/-- An encoder of replies and its sizes. -/
structure Postcard (F32 : Type) extends Sizes where
  encode : Reply F32 → List UInt8
  rest : UInt64 → SensorLayout → SensorInfo F32 → UInt64 → Nat
  length_sensor : ∀ (id : UInt64) (layout : SensorLayout) (info : SensorInfo F32) (micros : UInt64),
    (encode (.sensor id layout info micros)).length =
      rest id layout info.withoutOpcodes micros + toSizes.opcodes info

/-! ## The documented format -/

namespace Wire

/-- Seven bits a byte, the lowest first, the top bit on all but the last. -/
def varint (n : Nat) : List UInt8 :=
  if n < 128 then [UInt8.ofNat n] else UInt8.ofNat (n % 128 + 128) :: varint (n / 128)

theorem one_le_length_varint (n : Nat) : 1 ≤ (varint n).length := by
  rw [varint]
  split <;> simp

theorem length_varint_le : ∀ (k n : Nat), n < 128 ^ (k + 1) → (varint n).length ≤ k + 1 := by
  intro k
  induction k with
  | zero => intro n h; rw [varint, if_pos (by simpa using h)]; simp
  | succ k ih =>
    intro n h
    rw [varint]
    split
    · simp
    · have := ih (n / 128) (Nat.div_lt_of_lt_mul (by rw [pow_succ] at h; omega))
      simpa using this

def seq {α : Type} (f : α → List UInt8) (l : List α) : List UInt8 :=
  varint l.length ++ l.flatMap f

def option {α : Type} (f : α → List UInt8) : Option α → List UInt8
  | none => [0]
  | some a => 1 :: f a

def bool (b : Bool) : List UInt8 := [if b then 1 else 0]

def string (s : String) : List UInt8 :=
  varint s.utf8ByteSize ++ s.toUTF8.toList

def u16 (n : UInt16) : List UInt8 := varint n.toNat

def u32 (n : UInt32) : List UInt8 := varint n.toNat

def u64 (n : UInt64) : List UInt8 := varint n.toNat

theorem length_seq {α : Type} (f : α → List UInt8) (l : List α) :
    (seq f l).length = (varint l.length).length + (l.map fun a => (f a).length).sum := by
  rw [seq, List.length_append, List.length_flatMap]

def gainMap (m : GainMap) : List UInt8 :=
  (m.area.toList ++ [m.plane, m.planes] ++ m.pitch.toList ++ m.points.toList).flatMap u32 ++
    f64le.encodeAll (m.spacing.toList ++ m.origin.toList) ++ u32 m.mapPlanes ++
    seq f32le.encode m.gains

def radialVignette (v : RadialVignette) : List UInt8 :=
  f64le.encodeAll (v.k.toList ++ v.centre.toList)

def warp (w : Warp) : List UInt8 :=
  seq (fun c => f64le.encodeAll c.toList) w.planes ++ f64le.encodeAll w.centre.toList

def opcodes (info : SensorInfo Single) : List UInt8 :=
  seq (seq f32le.encode) info.linearization ++ seq gainMap info.gainMaps ++
    option radialVignette info.radialVignette ++ option warp info.warp

def sizes : Sizes where
  varint n := (u32 n).length
  lengthBytes n := (varint n).length
  one_le_varint n := one_le_length_varint n.toNat
  varint_le n := length_varint_le 4 n.toNat (by have := n.toNat_lt; omega)
  one_le_lengthBytes := one_le_length_varint

theorem length_gainMap (m : GainMap) : (gainMap m).length = sizes.gainMap m := by
  have hdoubles : (f64le.encodeAll (m.spacing.toList ++ m.origin.toList)).length = 32 := by
    simp
  have hgains : (seq f32le.encode m.gains).length =
      (varint m.gains.length).length + 4 * m.gains.length := by
    simp [length_seq, Nat.mul_comm]
  rw [gainMap, List.length_append, List.length_append, List.length_append, List.length_flatMap,
    hdoubles, hgains]
  rfl

theorem length_tables (tables : List (List Single)) :
    (seq (seq f32le.encode) tables).length = sizes.tables tables := by
  simp [length_seq, Nat.mul_comm, Sizes.tables, sizes]

theorem length_vignette (v : Option RadialVignette) :
    (option radialVignette v).length = Sizes.vignette v := by
  cases v <;> simp [option, radialVignette, Sizes.vignette]

theorem length_warp (w : Option Warp) : (option warp w).length = sizes.warp w := by
  cases w with
  | none => rfl
  | some w =>
    simp [option, warp, Sizes.warp, length_seq, sizes]
    ring

theorem length_opcodes (info : SensorInfo Single) :
    (opcodes info).length = sizes.opcodes info := by
  rw [opcodes, List.length_append, List.length_append, List.length_append, length_tables,
    length_vignette, length_warp, length_seq]
  simp only [length_gainMap]
  rfl

def pair {α β : Type} (f : α → List UInt8) (g : β → List UInt8) (p : α × β) : List UInt8 :=
  f p.1 ++ g p.2

def previewSpace : PreviewSpace → List UInt8
  | .srgb => varint 0
  | .displayP3 => varint 1

def sample : Sample → List UInt8
  | .u16 => varint 0
  | .f16 => varint 1
  | .f32 => varint 2

def decoder : Decoder → List UInt8
  | .raw => varint 0
  | .system => varint 1

def pixelOrigin : PixelOrigin → List UInt8
  | .sensor => varint 0
  | .systemLinearBt2020 => varint 1

def imageLayout (l : ImageLayout) : List UInt8 :=
  u32 l.width ++ u32 l.height ++ previewSpace l.colorSpace

def sensorLayout (l : SensorLayout) : List UInt8 :=
  u32 l.width ++ u32 l.height ++ [l.components] ++ sample l.sample

def exif (e : Exif Single) : List UInt8 :=
  option u32 e.iso ++ option (pair u32 u32) e.exposureTime ++ option f32le.encode e.fNumber ++
    option f32le.encode e.focalLength ++ option string e.lensModel ++
    option string e.dateTimeOriginal

def fileInfo (i : FileInfo Single) : List UInt8 :=
  decoder i.decoder ++ bool i.raw ++ string i.make ++ string i.model ++ u16 i.orientation ++
    exif i.exif

def colorMatrix (m : ColorMatrix Single) : List UInt8 :=
  u16 m.illuminant ++ seq f32le.encode m.values

/-- The fields of a `SensorInfo` before its opcodes. -/
def sensorInfoHead (i : SensorInfo Single) : List UInt8 :=
  pixelOrigin i.origin ++ f32le.encode i.scale ++ [i.bitsPerSample] ++ string i.cfa ++
    f32le.encodeAll i.whiteBalance.toList ++ seq f32le.encode i.blackLevels ++
    seq f32le.encode i.whiteLevels ++ seq colorMatrix i.colorMatrices ++
    option (fun a => a.toList.flatMap u32) i.activeArea ++
    option (fun a => a.toList.flatMap u32) i.cropArea ++ u16 i.orientation

def reply : Reply Single → List UInt8
  | .hello version decoder sandboxed => varint 0 ++ u32 version ++ string decoder ++ bool sandboxed
  | .opened id info micros => varint 1 ++ u64 id ++ fileInfo info ++ u64 micros
  | .preview id image micros => varint 2 ++ u64 id ++ imageLayout image ++ u64 micros
  | .sensor id layout info micros =>
    (varint 3 ++ u64 id ++ sensorLayout layout ++ sensorInfoHead info) ++ opcodes info ++ u64 micros
  | .closed id => varint 4 ++ u64 id
  | .sandboxCheck sandboxed escapes => varint 5 ++ bool sandboxed ++ seq string escapes
  | .failed id error => varint 6 ++ u64 id ++ string error

end Wire

/-- **Postcard's documented format has the sizes assumed of it.** -/
def Postcard.wire : Postcard Single where
  toSizes := Wire.sizes
  encode := Wire.reply
  rest id layout info micros :=
    (Wire.varint 3 ++ Wire.u64 id ++ Wire.sensorLayout layout ++ Wire.sensorInfoHead info).length +
      (Wire.u64 micros).length
  length_sensor id layout info micros := by
    have hhead : Wire.sensorInfoHead info.withoutOpcodes = Wire.sensorInfoHead info := rfl
    rw [Wire.reply, List.length_append, List.length_append, Wire.length_opcodes, hhead]
    ring

end RawHelper
