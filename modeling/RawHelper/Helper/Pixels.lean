import RawHelper.Helper.Metadata
import RawHelper.Helper.Preview
import RawHelper.Helper.Transcript

/-!
# The pixels of a session

The helper as it is built: `handle` (`helper/src/main.rs`) with the decoding steps of
`helper/src/decode.rs` and the system decoders of `helper/src/system/`, those of
macOS (`macosDecoders`) and those of other systems, which know no format
(`unsupportedDecoders`).

`Told` is what an application notes of a file: the descriptor and the extension it
gave, and which decoder the helper said had read it.  `Carries` is what a reply with
pixels then means to it: whose image it is, from which bytes, in which colours, and
that the descriptor attached maps to just the pixels.  `helper_pixels` says that every
reply of every session carries that, on both builds, and `raw_pixels` what it comes to
for the files the raw decoder reads.
-/

namespace RawHelper.Pixels

open Ieee Extended Shm Session Linearization
open Preview (Library)
open Sensor (Rawler)
open Render (ImageIo Call)
open Calls (Wanted Decoded)

/-! ## The helper's decoders -/

def ofExcept {α : Type} : Except String α → Outcome α
  | .ok a => .ok a
  | .error e => .err e

theorem ofExcept_eq_ok {α : Type} {x : Except String α} {a : α} (h : ofExcept x = .ok a) :
    x = .ok a := by
  cases x with
  | ok b => exact congrArg Except.ok (Outcome.ok.inj h)
  | error e => cases h

theorem exists_of_ofExcept_map {α β : Type} {x : Except String α} {f : α → β} {b : β}
    (h : ofExcept (x.map f) = .ok b) : ∃ a, x = .ok a ∧ f a = b := by
  cases x with
  | ok a => exact ⟨a, rfl, Outcome.ok.inj h⟩
  | error e => cases h

/-- What macOS answers: ImageIO and Core Image, the colour spaces, the creator of
buffers, and what Core Image leaves in a buffer it is given. -/
structure Frameworks where
  io : ImageIo
  sys : Render.System
  drawn : Call → List UInt8
  length_drawn : ∀ call, (drawn call).length = call.buffer.len.toNat
  /-- `f64 as f32`. -/
  narrow : Value → Single

/-- The buffer once the image is rendered into it. -/
def Frameworks.rendered (M : Frameworks) (call : Call) : SharedBuffer :=
  call.buffer.write (M.drawn call) (M.length_drawn call)

section Decoders

variable {Fd Decoder Image D : Type} (L : Library Decoder Image) (A : Arithmetic Single D)
  (mul : Single → Single → Single) (mapFile : Fd → Except String (List UInt8))

/-- The helper on macOS. -/
def macosDecoders (M : Frameworks) : Decoders Fd Render.SystemFile SharedBuffer Single where
  mapFile := mapFile
  info := Preview.info L A
  preview := Preview.preview L M.sys.creator
  sensor := Sensor.sensor L.toRawler A mul M.sys.creator
  systemOpen bytes extension :=
    ofExcept (Render.SystemFile.open M.io Render.f64 M.narrow bytes extension)
  systemPreview file :=
    ofExcept ((file.preview M.sys).map fun (layout, call) => (layout, M.rendered call))
  systemDevelop file :=
    ofExcept ((file.develop Render.f64 Render.f64Sqrt M.narrow M.sys).map
      fun (layout, info, call) => (layout, info, M.rendered call))

/-- The helper where no system decoders are wired. -/
def unsupportedDecoders (os : Creator) : Decoders Fd Empty SharedBuffer Single where
  mapFile := mapFile
  info := Preview.info L A
  preview := Preview.preview L os
  sensor := Sensor.sensor L.toRawler A mul os
  systemOpen _ _ := .err "format not supported on this platform"
  systemPreview file := file.elim
  systemDevelop file := file.elim

end Decoders

/-! ## What the decoders promise -/

section Promise

variable {Fd SystemFile F32 : Type}

/-- Each decoder says who it is, and gives buffers that hold what it announces. -/
structure Labelled (D : Decoders Fd SystemFile SharedBuffer F32) : Prop where
  info : ∀ {source info}, D.info source = .ok info → info.decoder = .raw
  systemOpen : ∀ {source extension file info}, D.systemOpen source extension = .ok (file, info) →
    info.decoder = .system
  preview : ∀ {source layout b}, D.preview source = .ok (layout, b) →
    Announced (.image layout) b ∧ layout.colorSpace = .srgb
  sensor : ∀ {source layout info b}, D.sensor source = .ok (layout, info, b) →
    Announced (.sensor layout) b ∧ info.origin = .sensor ∧ layout.sample ≠ .f16
  systemPreview : ∀ {source extension file info layout b},
    D.systemOpen source extension = .ok (file, info) → D.systemPreview file = .ok (layout, b) →
    Announced (.image layout) b ∧ layout.colorSpace = .displayP3
  systemDevelop : ∀ {source extension file info' layout info b},
    D.systemOpen source extension = .ok (file, info') →
    D.systemDevelop file = .ok (layout, info, b) →
    Announced (.sensor layout) b ∧ info.origin = .systemLinearBt2020 ∧
      layout.components = 4 ∧ layout.sample = .f16

end Promise

/-! ### Rawler -/

section Raw

variable {Decoder Image D : Type} {L : Library Decoder Image} {A : Arithmetic Single D}
  {mul : Single → Single → Single} {os : Creator}

/-- An image has as many samples as its size says. -/
def Complete (R : Rawler Decoder) : Prop :=
  ∀ decoder source image, R.rawImage decoder source = .ok image → image.Complete

theorem info_decoder {source : List UInt8} {info : FileInfo Single}
    (h : Preview.info L A source = .ok info) : info.decoder = .raw := by
  rw [Preview.info] at h
  obtain ⟨decoder, -, h⟩ := Outcome.bind_eq_ok h
  obtain ⟨metadata, -, h⟩ := Outcome.bind_eq_ok h
  obtain rfl := Outcome.ok.inj h
  rfl

/-- Samples that are copied are announced. -/
theorem copied_announced {image : Samples.RawImage} (hcomplete : image.Complete)
    {layout : SensorLayout} {b : SharedBuffer} (h : Sensor.copied os image = .ok (layout, b)) :
    Announced (.sensor layout) b ∧ layout.sample ≠ .f16 := by
  rw [Sensor.copied, Samples.samples] at h
  split at h
  · cases h
  · cases h
  · next copy hcopy =>
    obtain rfl := Outcome.ok.inj h
    split at hcopy
    · cases hcopy
    · next hcheck =>
      split at hcopy
      · cases hcopy
      · next created hcreate =>
        obtain ⟨filled, hfilled, heq⟩ := Option.map_eq_some_iff.mp (Except.ok.inj hcopy)
        obtain ⟨rfl, rfl⟩ := Prod.mk.inj heq
        have hle := (Samples.toNat_bytes_layout hcomplete).1
        have hlt := image.bytes_lt
        have hannounced := announced_of_create (l := .sensor image.layout) hcreate
          (not_not.mp hcheck) (by omega)
        refine ⟨(hannounced.copyFromSlice hfilled).1, ?_⟩
        show image.data.sample ≠ .f16
        cases image.data <;> exact Sample.noConfusion

/-- The samples are all there, and the layout is the image's own size. -/
theorem copied_content {image : Samples.RawImage} (hcomplete : image.Complete)
    {layout : SensorLayout} {b : SharedBuffer} (h : Sensor.copied os image = .ok (layout, b)) :
    layout.width.toNat = image.width.toNat ∧ layout.height.toNat = image.height.toNat ∧
      layout.components.toNat = image.cpp.toNat ∧ b.map = image.data.bytes := by
  rw [Sensor.copied] at h
  split at h
  · cases h
  · cases h
  · next copy hcopy =>
    obtain rfl := Outcome.ok.inj h
    obtain ⟨filled, heq, hmap⟩ := Samples.samples_ok hcopy
    obtain ⟨rfl, rfl⟩ := Prod.mk.inj (Option.some.inj heq)
    have haccepted : Samples.Accepted os image := by
      rw [Samples.Accepted, hcopy]
      exact ⟨by simp, by simp⟩
    obtain ⟨hbytes, hne⟩ := (Samples.accepted_iff os image).mp haccepted
    obtain ⟨hw, hh, hc⟩ := (Samples.bytes_layout_eq_iff hcomplete hne).mp hbytes
    refine ⟨?_, ?_, ?_, hmap⟩
    · exact (UInt64.toNat_toUInt32 _).trans (Nat.mod_eq_of_lt hw)
    · exact (UInt64.toNat_toUInt32 _).trans (Nat.mod_eq_of_lt hh)
    · exact (UInt64.toNat_toUInt8 _).trans (Nat.mod_eq_of_lt hc)

theorem origin_readOpcodes {layout : SensorLayout} {list2 list3 : Option (List UInt8)}
    {info info' : SensorInfo Single}
    (h : Decode.readOpcodes A layout list2 list3 info = some info') :
    info'.origin = info.origin := by
  cases list2 with
  | none => cases list3 <;> (cases h; rfl)
  | some list2 =>
    rw [Decode.readOpcodes] at h
    cases hl : linearization A list2 layout.width layout.height with
    | none => rw [hl] at h; cases h
    | some tables => rw [hl] at h; cases list3 <;> (cases h; rfl)

theorem origin_withOpcodes {decoder : Decoder} {layout : SensorLayout}
    {info info' : SensorInfo Single}
    (h : Sensor.withOpcodes L.toRawler A decoder layout info = .ok info') :
    info'.origin = info.origin := by
  rw [Sensor.withOpcodes] at h
  split at h
  · cases h
  · cases h; rfl
  · cases h; rfl
  · split at h
    · cases h
    · next hread =>
      obtain rfl := Outcome.ok.inj h
      exact origin_readOpcodes hread

theorem sensor_announced (hcomplete : Complete L.toRawler) {source : List UInt8}
    {layout : SensorLayout} {info : SensorInfo Single} {b : SharedBuffer}
    (h : Sensor.sensor L.toRawler A mul os source = .ok (layout, info, b)) :
    Announced (.sensor layout) b ∧ info.origin = .sensor ∧ layout.sample ≠ .f16 := by
  rw [Sensor.sensor] at h
  obtain ⟨decoder, -, h⟩ := Outcome.bind_eq_ok h
  obtain ⟨image, himage, h⟩ := Outcome.bind_eq_ok h
  obtain ⟨⟨layout', b'⟩, hcopied, h⟩ := Outcome.bind_eq_ok h
  obtain ⟨gains, -, h⟩ := Outcome.bind_eq_ok h
  obtain ⟨info', hopcodes, h⟩ := Outcome.bind_eq_ok h
  obtain ⟨rfl, hrest⟩ := Prod.mk.inj (Outcome.ok.inj h)
  obtain ⟨rfl, rfl⟩ := Prod.mk.inj hrest
  obtain ⟨hannounced, hsample⟩ := copied_announced (hcomplete decoder source image himage) hcopied
  refine ⟨hannounced, ?_, hsample⟩
  rw [origin_withOpcodes hopcodes]
  cases gains <;> rfl

theorem sensor_content (hcomplete : Complete L.toRawler) {source : List UInt8}
    {layout : SensorLayout} {info : SensorInfo Single} {b : SharedBuffer}
    (h : Sensor.sensor L.toRawler A mul os source = .ok (layout, info, b)) :
    ∃ decoder image, L.getDecoder source = .ok decoder ∧ L.rawImage decoder source = .ok image ∧
      layout.width.toNat = image.width.toNat ∧ layout.height.toNat = image.height.toNat ∧
      layout.components.toNat = image.cpp.toNat ∧ b.map = image.data.bytes := by
  rw [Sensor.sensor] at h
  obtain ⟨decoder, hdecoder, h⟩ := Outcome.bind_eq_ok h
  obtain ⟨image, himage, h⟩ := Outcome.bind_eq_ok h
  obtain ⟨⟨layout', b'⟩, hcopied, h⟩ := Outcome.bind_eq_ok h
  obtain ⟨gains, -, h⟩ := Outcome.bind_eq_ok h
  obtain ⟨info', -, h⟩ := Outcome.bind_eq_ok h
  obtain ⟨rfl, hrest⟩ := Prod.mk.inj (Outcome.ok.inj h)
  obtain ⟨-, rfl⟩ := Prod.mk.inj hrest
  exact ⟨decoder, image, hdecoder, himage,
    copied_content (hcomplete decoder source image himage) hcopied⟩

end Raw

/-! ### The system -/

section System

variable {M : Frameworks}

/-- No side of a thumbnail is longer than asked for. -/
def Bounded (io : ImageIo) : Prop :=
  ∀ bytes hint source, io.withData bytes hint = some source →
    ∀ side image, source.thumbnailAtIndex side = some image →
      image.width.toNat 64 ≤ side ∧ image.height.toNat 64 ≤ side

/-- What is rendered is rendered into a buffer made for it. -/
theorem create_of_render {sys : Render.System} {image : Render.Extent}
    {format : Render.PixelFormat} {bytesPerPixel : UInt64} {colorSpace : Render.ColorSpace}
    {width height : UInt32} {call : Call}
    (h : Render.render sys image format bytesPerPixel colorSpace = .ok (width, height, call)) :
    SharedBuffer.create sys.creator call.buffer.len = .ok call.buffer := by
  obtain ⟨-, -, w, h, -, -, -, -, -, hcreate, -⟩ := Render.render_ok h
  rw [(SharedBuffer.create_ok hcreate).1, hcreate]

theorem thumbnail_announced {sys : Render.System} {image : Render.Extent}
    (hwidth : image.width.toNat 64 ≤ Render.thumbnailMaxSide)
    (hheight : image.height.toNat 64 ≤ Render.thumbnailMaxSide) {width height : UInt32}
    {call : Call} (h : Render.render sys image .rgba8 4 .displayP3 = .ok (width, height, call)) :
    Announced (.image ⟨width, height, .displayP3⟩) call.buffer := by
  obtain ⟨rfl, rfl, hlen⟩ := Render.render_sides h
  have hside : ∀ n ≤ Render.thumbnailMaxSide, (UInt64.ofNat n).toNat = n ∧
      (UInt64.ofNat n).toUInt32.toNat = n := by
    intro n hn
    have hlt : n < 2 ^ 32 := hn.trans_lt (by decide)
    have h64 : (UInt64.ofNat n).toNat = n := by
      rw [UInt64.toNat_ofNat']
      omega
    exact ⟨h64, by rw [UInt64.toNat_toUInt32, h64, Nat.mod_eq_of_lt hlt]⟩
  obtain ⟨hw, hw'⟩ := hside _ hwidth
  obtain ⟨hh, hh'⟩ := hside _ hheight
  have hexact : (Layout.image ⟨(UInt64.ofNat (image.width.toNat 64)).toUInt32,
      (UInt64.ofNat (image.height.toNat 64)).toUInt32, .displayP3⟩).exactBytes =
      image.width.toNat 64 * image.height.toNat 64 * 4 := by
    rw [Layout.exactBytes, hw', hh']
  have hlt : image.width.toNat 64 * image.height.toNat 64 * 4 < 2 ^ 64 := by
    have := Nat.mul_le_mul hwidth hheight
    rw [Render.thumbnailMaxSide] at this
    omega
  refine announced_of_create (create_of_render h) ?_ (hexact ▸ hlt)
  rw [← UInt64.toNat_inj, Layout.toNat_bytes, hexact, hlen, Render.toNat_product, hw, hh]
  rfl

theorem systemPreview_announced (hbounded : Bounded M.io) {source : List UInt8}
    {extension : Option String} {file : Render.SystemFile} {info : FileInfo Single}
    (hopen : Render.SystemFile.open M.io Render.f64 M.narrow source extension = .ok (file, info))
    {layout : ImageLayout} {call : Call} (h : file.preview M.sys = .ok (layout, call)) :
    Announced (.image layout) (M.rendered call) ∧ layout.colorSpace = .displayP3 := by
  obtain ⟨opened, hopened, hthumbnail, -, -⟩ := Render.open_ok hopen
  rw [Render.SystemFile.preview, hthumbnail] at h
  cases hside : opened.thumbnailAtIndex Render.thumbnailMaxSide with
  | none => rw [hside] at h; cases h
  | some image =>
    rw [hside] at h
    simp only [bind, Except.bind] at h
    split at h
    · cases h
    · next r hr =>
      obtain ⟨width, height, call'⟩ := r
      obtain ⟨rfl, rfl⟩ := Prod.mk.inj (Except.ok.inj h)
      obtain ⟨hwidth, hheight⟩ := hbounded _ _ _ hopened _ _ hside
      exact ⟨(thumbnail_announced hwidth hheight hr).write _, rfl⟩

theorem systemDevelop_announced {file : Render.SystemFile} {layout : SensorLayout}
    {info : SensorInfo Single} {call : Call}
    (h : file.develop Render.f64 Render.f64Sqrt M.narrow M.sys = .ok (layout, info, call)) :
    Announced (.sensor layout) (M.rendered call) ∧ info.origin = .systemLinearBt2020 ∧
      layout.components = 4 ∧ layout.sample = .f16 := by
  obtain ⟨⟨hcomponents, hsample⟩, hlen, hexact, -⟩ := Render.develop_bytes h
  obtain ⟨image, width, height, -, ⟨horigin, -⟩, -, hrender⟩ := Render.develop_rendered h
  have hannounced := announced_of_create (l := .sensor layout) (create_of_render hrender)
    hlen.symm (by rw [← hexact]; exact UInt64.toNat_lt _)
  exact ⟨hannounced.write _, horigin, hcomponents, hsample⟩

end System

/-! ### Both builds -/

section Builds

variable {Fd Decoder Image D : Type} {L : Library Decoder Image} {A : Arithmetic Single D}
  {mul : Single → Single → Single} {mapFile : Fd → Except String (List UInt8)}

theorem labelled_macos (hcomplete : Complete L.toRawler) {M : Frameworks}
    (hbounded : Bounded M.io) : Labelled (macosDecoders L A mul mapFile M) where
  info := info_decoder
  systemOpen h := by
    obtain ⟨-, -, -, hdecoder, -⟩ := Render.open_ok (ofExcept_eq_ok h)
    exact hdecoder
  preview := Preview.preview_announced
  sensor := sensor_announced hcomplete
  systemPreview hopen h := by
    obtain ⟨⟨layout, call⟩, hpreview, heq⟩ := exists_of_ofExcept_map h
    obtain ⟨rfl, rfl⟩ := Prod.mk.inj heq
    exact systemPreview_announced hbounded (ofExcept_eq_ok hopen) hpreview
  systemDevelop _ h := by
    obtain ⟨⟨layout, info, call⟩, hdevelop, heq⟩ := exists_of_ofExcept_map h
    obtain ⟨rfl, hrest⟩ := Prod.mk.inj heq
    obtain ⟨rfl, rfl⟩ := Prod.mk.inj hrest
    exact systemDevelop_announced hdevelop

theorem labelled_unsupported (hcomplete : Complete L.toRawler) {os : Creator} :
    Labelled (unsupportedDecoders L A mul mapFile os) where
  info := info_decoder
  systemOpen h := by cases h
  preview := Preview.preview_announced
  sensor := sensor_announced hcomplete
  systemPreview h := by cases h
  systemDevelop h := by cases h

end Builds

/-! ## What an application is told -/

section Session

variable {Fd SystemFile F32 α : Type}

/-- An open file as an application knows it. -/
structure Told (Fd : Type) where
  fd : Fd
  extension : Option String
  /-- Which decoder read its headers. -/
  decoder : Decoder

abbrev Notes (Fd : Type) := UInt64 → Option (Told Fd)

/-- What an application notes of one exchange. -/
def noteTold (notes : Notes Fd) (received : Received Fd) (reply : Answer SharedBuffer F32) :
    Notes Fd :=
  noteWith (fun fd extension info => ⟨fd, extension, info.decoder⟩) notes received reply

/-- The receiver maps these bytes, just as many as are announced, unless its system
refuses. -/
def Arrives (l : Layout) (b : SharedBuffer) (bytes : List UInt8) : Prop :=
  bytes.length = l.exactBytes ∧
    ∀ os : Os, os.fstatFails b.fd = false → os.mmapFails b.fd (wholePages l.bytes) = false →
      ∃ m, mapReceived os b.fd l.bytes = .ok m ∧ m.bytes.take l.exactBytes = bytes

theorem arrives_of_announced {l : Layout} {b : SharedBuffer} (h : Announced l b) :
    Arrives l b b.map := by
  refine ⟨h.length_map, fun os hstat hmmap => ?_⟩
  rw [h.bytes] at hmmap
  obtain ⟨m, hm, -, htake⟩ := h.received hstat hmmap
  exact ⟨m, hm, htake⟩

/-- The pixels announced by a reply. -/
def announced : Reply F32 → Option Layout
  | .preview _ image _ => some (.image image)
  | .sensor _ sensor _ _ => some (.sensor sensor)
  | _ => none

/-- What a reply with pixels means, by what was noted of its file.  The pixels are
the raw decoder's only if it was said to have read the file; then they are samples,
or a preview in sRGB.  Otherwise they are the system's, which opened the same bytes:
developed to four half floats a pixel, or a thumbnail in Display P3. -/
inductive Carries (D : Decoders Fd SystemFile SharedBuffer F32) (notes : Notes Fd) :
    Answer SharedBuffer F32 → Prop
  | preview {id image micros b told source} : notes id = some told → told.decoder = .raw →
      D.mapFile told.fd = .ok source → D.preview source = .ok (image, b) →
      image.colorSpace = .srgb → Arrives (.image image) b b.map →
      Carries D notes (.preview id image micros, some b)
  | thumbnail {id image micros b told source file info} : notes id = some told →
      D.mapFile told.fd = .ok source → D.systemOpen source told.extension = .ok (file, info) →
      D.systemPreview file = .ok (image, b) →
      image.colorSpace = .displayP3 → Arrives (.image image) b b.map →
      Carries D notes (.preview id image micros, some b)
  | samples {id layout info micros b told source} : notes id = some told → told.decoder = .raw →
      D.mapFile told.fd = .ok source → D.sensor source = .ok (layout, info, b) →
      info.origin = .sensor → layout.sample ≠ .f16 → Arrives (.sensor layout) b b.map →
      Carries D notes (.sensor id layout info micros, some b)
  | developed {id layout info micros b told source file info'} : notes id = some told →
      D.mapFile told.fd = .ok source → D.systemOpen source told.extension = .ok (file, info') →
      D.systemDevelop file = .ok (layout, info, b) →
      info.origin = .systemLinearBt2020 → layout.components = 4 → layout.sample = .f16 →
      Arrives (.sensor layout) b b.map →
      Carries D notes (.sensor id layout info micros, some b)
  | none {reply} : announced reply = none → Carries D notes (reply, none)

/-- The application's entry for what is open under an id. -/
structure Known (D : Decoders Fd SystemFile SharedBuffer F32)
    (file : Option (OpenFile Fd SystemFile)) (told : Option (Told Fd)) : Prop where
  told : file.map (fun file => ⟨file.fd, file.extension, if file.rawler then .raw else .system⟩) =
    told
  source : ∀ f, file = some f → D.mapFile f.fd = .ok f.source
  kept : ∀ f, file = some f → f.Kept D

/-- The notes say of each open file what the helper keeps of it. -/
abbrev Knows (D : Decoders Fd SystemFile SharedBuffer F32) (files : Files Fd SystemFile)
    (notes : Notes Fd) : Prop := Tabled (Known D) files notes

variable {D : Decoders Fd SystemFile SharedBuffer F32} {files : Files Fd SystemFile}
  {notes : Notes Fd}

theorem known_none : Known D none none := ⟨rfl, nofun, nofun⟩

/-- What was opened says who read it. -/
theorem info_decoder_of_opens (hD : Labelled D) {extension : Option String} {openFiles : Nat}
    {fd : Option Fd} {info : FileInfo F32} {file : OpenFile Fd SystemFile}
    (h : Opens D extension openFiles fd (.ok (info, file))) :
    info.decoder = if file.rawler then .raw else .system := by
  cases h with
  | raw _ _ hinfo => exact hD.info hinfo
  | system _ _ _ hopen => exact hD.systemOpen hopen

/-- The notes stay true. -/
theorem handle_knows (hD : Labelled D) (sandboxed : Bool) (h : Knows D files notes)
    (received : Received Fd) :
    Knows D (handle D sandboxed files received).2
      (noteTold notes received (handle D sandboxed files received).1) := by
  refine (handled D sandboxed files received).noted known_none ?_ ?_ h
  · intro extension openFiles fd info file hopens
    obtain ⟨rfl, rfl, hsource, -⟩ := hopens.file_eq
    obtain ⟨-, hkept⟩ := hopens.refines
    refine ⟨?_, ?_, ?_⟩
    · rw [info_decoder_of_opens hD hopens]
      rfl
    · rintro f ⟨⟩
      exact hsource
    · rintro f ⟨⟩
      exact (hkept info file rfl).2
  · intro file told hentry wanted
    obtain ⟨-, -, hkept⟩ := (hentry.kept file rfl).decode_eq D wanted
    obtain ⟨kept, hsame⟩ := file.decode_same D wanted
    rw [hsame] at hkept ⊢
    refine ⟨hentry.told, ?_, ?_⟩
    · rintro f ⟨⟩
      exact hentry.source file rfl
    · rintro f ⟨⟩
      exact hkept

/-- What is decoded of an open file, and by whom. -/
theorem Knows.decode (h : Knows D files notes) {id : UInt64} {file : OpenFile Fd SystemFile}
    (hfile : files[id]? = some file) {wanted : Wanted} {a : Decoded SharedBuffer F32 wanted}
    (ha : (file.decode D wanted).1 = .ok a) :
    ∃ told source, notes id = some told ∧ D.mapFile told.fd = .ok source ∧
      (told.decoder = .raw ∧ D.raw wanted source = .ok a ∨
        ∃ opened info, D.systemOpen source told.extension = .ok (opened, info) ∧
          D.system wanted opened = .ok a) := by
  have hentry := h id
  rw [hfile] at hentry
  refine ⟨_, file.source, hentry.told.symm, hentry.source file rfl, ?_⟩
  rw [OpenFile.decode_def] at ha
  cases htried : file.tried D wanted with
  | ok image =>
    left
    rw [htried] at ha
    obtain rfl := Except.ok.inj ha
    rw [OpenFile.tried] at htried
    split at htried
    · next hrawler => exact ⟨if_pos hrawler, guarded_eq_ok htried⟩
    · cases htried
  | error rawError =>
    right
    rw [htried, (hentry.kept file rfl).systemDecoder_eq] at ha
    cases hopen : D.systemOpen file.source file.extension with
    | err error => rw [hopen] at ha; cases ha
    | panic => rw [hopen] at ha; cases ha
    | ok opened =>
      rw [hopen] at ha
      have hdecoded : (guarded (D.system wanted opened.1)).mapError (join rawError) = .ok a := ha
      refine ⟨opened.1, opened.2, rfl, guarded_eq_ok ?_⟩
      cases hsystem : guarded (D.system wanted opened.1) with
      | error error => rw [hsystem] at hdecoded; cases hdecoded
      | ok image => rw [hsystem] at hdecoded; exact hdecoded

/-- **One exchange**: a reply carries the pixels it announces. -/
theorem handle_carries (hD : Labelled D) (sandboxed : Bool) (h : Knows D files notes)
    (received : Received Fd) : Carries D notes (handle D sandboxed files received).1 := by
  have hhandled := handled D sandboxed files received
  generalize handle D sandboxed files received = out at hhandled ⊢
  cases hhandled with
  | hello | refused | opened | absent | close | sandboxCheck => exact .none rfl
  | @decoded id file wanted fd micros escapes hfile =>
    cases hresult : (file.decode D wanted).1 with
    | error error => exact .none rfl
    | ok image =>
      obtain ⟨told, source, hnoted, hsource, hby⟩ := h.decode hfile hresult
      cases wanted with
      | preview =>
        obtain ⟨image, b⟩ := image
        rcases hby with ⟨hraw, hpreview⟩ | ⟨opened, info, hopen, hpreview⟩
        · obtain ⟨hannounced, hspace⟩ := hD.preview hpreview
          exact .preview hnoted hraw hsource hpreview hspace (arrives_of_announced hannounced)
        · obtain ⟨hannounced, hspace⟩ := hD.systemPreview hopen hpreview
          exact .thumbnail hnoted hsource hopen hpreview hspace (arrives_of_announced hannounced)
      | sensor =>
        obtain ⟨layout, info, b⟩ := image
        rcases hby with ⟨hraw, hsensor⟩ | ⟨opened, info', hopen, hdevelop⟩
        · obtain ⟨hannounced, horigin, hsample⟩ := hD.sensor hsensor
          exact .samples hnoted hraw hsource hsensor horigin hsample
            (arrives_of_announced hannounced)
        · obtain ⟨hannounced, horigin, hcomponents, hsample⟩ := hD.systemDevelop hopen hdevelop
          exact .developed hnoted hsource hopen hdevelop horigin hcomponents hsample
            (arrives_of_announced hannounced)

/-- What has been noted of a session. -/
def notesOf (D : Decoders Fd SystemFile SharedBuffer F32) (sandboxed : Bool)
    (requests : List (Received Fd)) : Notes Fd :=
  (requests.zip (Machine.run (handle D sandboxed) ∅ requests).1).foldl
    (fun notes x => noteTold notes x.1 x.2) fun _ => none

/-- **A whole session.** -/
theorem session_carries (hD : Labelled D) (sandboxed : Bool) (before : List (Received Fd))
    (received : Received Fd) :
    Carries D (notesOf D sandboxed before)
      (handle D sandboxed (Machine.run (handle D sandboxed) ∅ before).2 received).1 := by
  have hknows := Machine.run_observed noteTold (R := Knows D)
    (fun files notes received h => handle_knows hD sandboxed h received) before ∅ _
    (Tabled.empty fun _ => known_none)
  exact handle_carries hD sandboxed hknows received

end Session

/-! ## Both builds -/

section Sessions

variable {Fd Decoder Image D : Type} {L : Library Decoder Image}

/-- **Whose the pixels of a session are.**  Of rawler it is taken that its images hold
the samples their size says, of ImageIO that no thumbnail is longer than asked.  In every
session, whatever came before: a reply with pixels is about a file the application opened
and has not closed; they are the raw decoder's only if that was said to have read the
file, in sRGB or as samples, and otherwise the system's, in Display P3 or as half floats;
and the application maps of the buffer attached just what the decoder made of the bytes
of that file.  It is so on macOS, and where no system decoders are wired. -/
theorem helper_pixels (hcomplete : Complete L.toRawler) (A : Arithmetic Single D)
    (mul : Single → Single → Single) (mapFile : Fd → Except String (List UInt8))
    (sandboxed : Bool) (before : List (Received Fd)) (received : Received Fd) :
    (∀ M : Frameworks, Bounded M.io →
      Carries (macosDecoders L A mul mapFile M)
        (notesOf (macosDecoders L A mul mapFile M) sandboxed before)
        (handle (macosDecoders L A mul mapFile M) sandboxed
          (Machine.run (handle (macosDecoders L A mul mapFile M) sandboxed) ∅ before).2
          received).1) ∧
    ∀ os : Creator,
      Carries (unsupportedDecoders L A mul mapFile os)
        (notesOf (unsupportedDecoders L A mul mapFile os) sandboxed before)
        (handle (unsupportedDecoders L A mul mapFile os) sandboxed
          (Machine.run (handle (unsupportedDecoders L A mul mapFile os) sandboxed) ∅ before).2
          received).1 :=
  ⟨fun _ hbounded => session_carries (labelled_macos hcomplete hbounded) sandboxed before received,
    fun _ => session_carries (labelled_unsupported hcomplete) sandboxed before received⟩

/-- **What the raw decoder's pixels are**, under the same of rawler and of ImageIO.  In
every session on macOS, a preview in sRGB is the first of the file's embedded images that
can be read, in its own size, and samples as recorded are those of the image rawler
decodes, in its own size: the application maps every byte of them, of the file whose
descriptor it sent. -/
theorem raw_pixels (hcomplete : Complete L.toRawler) (A : Arithmetic Single D)
    (mul : Single → Single → Single) (mapFile : Fd → Except String (List UInt8))
    {M : Frameworks} (hbounded : Bounded M.io) (sandboxed : Bool) (before : List (Received Fd))
    (received : Received Fd) :
    let D := macosDecoders L A mul mapFile M
    let reply := (handle D sandboxed (Machine.run (handle D sandboxed) ∅ before).2 received).1
    (∀ id layout micros b, reply = (.preview id layout micros, some b) →
      layout.colorSpace = .srgb →
      ∃ told source decoder image earlier later, notesOf D sandboxed before id = some told ∧
        mapFile told.fd = .ok source ∧ L.getDecoder source = .ok decoder ∧
        Preview.images L decoder source = earlier ++ .ok (some image) :: later ∧
        (∀ outcome ∈ earlier, Preview.Missing outcome) ∧
        layout.width = (L.toRgba8 image).width ∧ layout.height = (L.toRgba8 image).height ∧
        Arrives (.image layout) b (L.toRgba8 image).raw) ∧
    ∀ id layout info micros b, reply = (.sensor id layout info micros, some b) →
      info.origin = .sensor →
      ∃ told source decoder image, notesOf D sandboxed before id = some told ∧
        mapFile told.fd = .ok source ∧ L.getDecoder source = .ok decoder ∧
        L.rawImage decoder source = .ok image ∧
        layout.width.toNat = image.width.toNat ∧ layout.height.toNat = image.height.toNat ∧
        layout.components.toNat = image.cpp.toNat ∧
        Arrives (.sensor layout) b image.data.bytes := by
  intro D reply
  have hcarries : Carries D (notesOf D sandboxed before) reply :=
    session_carries (labelled_macos hcomplete hbounded) sandboxed before received
  refine ⟨?_, ?_⟩
  · intro id layout micros b hreply hspace
    rw [hreply] at hcarries
    cases hcarries with
    | preview hnoted hraw hsource hpreview hsrgb harrives =>
      obtain ⟨decoder, image, earlier, later, hdecoder, himages, hmissing, rfl, hmap, -⟩ :=
        Preview.preview_ok hpreview
      rw [hmap] at harrives
      exact ⟨_, _, decoder, image, earlier, later, hnoted, hsource, hdecoder, himages, hmissing,
        rfl, rfl, harrives⟩
    | thumbnail _ _ _ _ hp3 _ =>
      rw [hspace] at hp3
      cases hp3
  · intro id layout info micros b hreply horigin
    rw [hreply] at hcarries
    cases hcarries with
    | samples hnoted hraw hsource hsensor _ _ harrives =>
      obtain ⟨decoder, image, hdecoder, himage, hw, hh, hc, hmap⟩ :=
        sensor_content hcomplete hsensor
      rw [hmap] at harrives
      exact ⟨_, _, decoder, image, hnoted, hsource, hdecoder, himage, hw, hh, hc, harrives⟩
    | developed _ _ _ _ hsystem _ _ _ =>
      rw [horigin] at hsystem
      cases hsystem

end Sessions

/-! ### A session of two requests -/

/-- A system that reads no file itself. -/
def noFrameworks : Frameworks where
  io := ⟨fun _ => none, fun _ _ => none, fun _ _ => none⟩
  sys := .reliable
  drawn call := List.replicate call.buffer.len.toNat 0
  length_drawn _ := List.length_replicate
  narrow _ := ⟨0⟩

theorem bounded_noFrameworks : Bounded noFrameworks.io := by
  intro bytes hint source hsource
  cases hsource

/-- A file of two samples, whose first embedded image cannot be read and whose second
is of one pixel. -/
def shot : Library Unit Unit where
  toRawler := Sensor.dng [] []
  rawMetadata _ _ := .ok ⟨⟨some 1, none, none, none, none, none, none, none⟩, "maker", "camera"⟩
  previewImage _ _ := .err "not a JPEG"
  fullImage _ _ := .ok (some ())
  thumbnailImage _ _ := .ok none
  toRgba8 _ := ⟨1, 1, [1, 2, 3, 255], by decide, by decide⟩

theorem complete_shot : Complete shot.toRawler := by
  intro decoder source image himage
  obtain rfl := Outcome.ok.inj himage
  rfl

section Shot

variable {D : Type} (A : Arithmetic Single D)

def shotDecoders : Decoders Unit Render.SystemFile SharedBuffer Single :=
  macosDecoders shot A Sensor.mulOne (fun _ => .ok Sensor.header) noFrameworks

def openShot : Received Unit := ⟨.open 1 (some "dng"), some (), 0, []⟩

/-- The file as it is kept. -/
def shotFile : OpenFile Unit Render.SystemFile := ⟨Sensor.header, (), true, none, some "dng"⟩

theorem run_openShot :
    (Machine.run (handle (shotDecoders A) false) ∅ [openShot]).2[(1 : UInt64)]? =
      some shotFile := by
  have hrun : (Machine.run (handle (shotDecoders A) false) ∅ [openShot]).2 =
      (∅ : Files Unit Render.SystemFile).insert (1 : UInt64) shotFile := rfl
  rw [hrun, Std.HashMap.getElem?_insert_self]

/-- The preview of the file. -/
theorem preview_shot : ∃ b,
    (shotFile.decode (shotDecoders A) .preview).1 = .ok (⟨1, 1, .srgb⟩, b) := by
  obtain ⟨buffer, hbuffer⟩ := create_reliable 4 (by decide) (by decide) (by decide)
  have hlen : [1, 2, 3, 255].length = buffer.len.toNat := by
    rw [(SharedBuffer.create_ok hbuffer).1]
    rfl
  have hpreview : (shotDecoders A).preview Sensor.header =
      .ok (⟨1, 1, .srgb⟩, buffer.write [1, 2, 3, 255] hlen) := by
    have hcreate : SharedBuffer.create .reliable
        (ImageLayout.bytes ⟨(shot.toRgba8 ()).width, (shot.toRgba8 ()).height, .srgb⟩) =
        .ok buffer := hbuffer
    have hcopy : buffer.copyFromSlice (shot.toRgba8 ()).raw =
        some (buffer.write [1, 2, 3, 255] hlen) := dif_pos hlen
    show Preview.shared .reliable (shot.toRgba8 ()) = _
    simp only [Preview.shared, hcreate, hcopy]
    rfl
  refine ⟨buffer.write [1, 2, 3, 255] hlen, ?_⟩
  have htried : shotFile.tried (shotDecoders A) .preview =
      .ok (⟨1, 1, .srgb⟩, buffer.write [1, 2, 3, 255] hlen) := congrArg guarded hpreview
  rw [OpenFile.decode_def, htried]

/-- The reply to its second request. -/
def replyShot : Answer SharedBuffer Single :=
  (handle (shotDecoders A) false (Machine.run (handle (shotDecoders A) false) ∅ [openShot]).2
    ⟨.preview 1, none, 0, []⟩).1

theorem exists_replyShot : ∃ b, replyShot A = (.preview 1 ⟨1, 1, .srgb⟩ 0, some b) := by
  obtain ⟨b, hb⟩ := preview_shot A
  refine ⟨b, ?_⟩
  exact (handle_fst_of_open (shotDecoders A) (run_openShot A) false .preview none 0 []).trans
    (congrArg (Wanted.preview.answer 1 0) hb)

end Shot

/-- The file is opened, and its preview is carried. -/
theorem helper_pixels_shot : Bounded noFrameworks.io ∧
    ∀ (D : Type) (A : Arithmetic Single D), ∃ b,
      Carries (shotDecoders A) (notesOf (shotDecoders A) false [openShot])
        (.preview 1 ⟨1, 1, .srgb⟩ 0, some b) := by
  refine ⟨bounded_noFrameworks, fun D A => ?_⟩
  obtain ⟨b, hreply⟩ := exists_replyShot A
  have hcarries := (helper_pixels complete_shot A Sensor.mulOne (fun _ => .ok Sensor.header) false
    [openShot] ⟨.preview 1, none, 0, []⟩).1 noFrameworks bounded_noFrameworks
  refine ⟨b, ?_⟩
  rw [← hreply]
  exact hcarries

/-- Its one pixel arrives. -/
theorem raw_pixels_shot : Bounded noFrameworks.io ∧
    ∀ (D : Type) (A : Arithmetic Single D), ∃ b,
      replyShot A = (.preview 1 ⟨1, 1, .srgb⟩ 0, some b) ∧
      Arrives (.image ⟨1, 1, .srgb⟩) b [1, 2, 3, 255] := by
  refine ⟨bounded_noFrameworks, fun D A => ?_⟩
  obtain ⟨b, hreply⟩ := exists_replyShot A
  obtain ⟨told, source, decoder, image, earlier, later, -, -, -, -, -, -, -, harrives⟩ :=
    (raw_pixels complete_shot A Sensor.mulOne (fun _ => .ok Sensor.header) bounded_noFrameworks
      false [openShot] ⟨.preview 1, none, 0, []⟩).1 1 ⟨1, 1, .srgb⟩ 0 b hreply rfl
  exact ⟨b, hreply, harrives⟩

end RawHelper.Pixels
