import RawHelper.Helper.OpcodeOrder
import RawHelper.Helper.Pixels

/-!
# What a reply says of a raw file

The record that comes with the samples of a raw file, over whole sessions.  `sensor`
(`helper/src/decode.rs`) takes it from the image rawler decodes, scales its matrices
by the gains of the file and adds what the file's opcode lists hold.

`sensor_recorded` says what the record of one file is, `raw_record` that what comes
with samples as recorded is the record of the file whose descriptor was sent: its
tables are the composition of the mappings the file's OpcodeList2 holds, its gain maps
the first sixteen there, its lens corrections the last of each kind in OpcodeList3, and
all else is the decoder's.
-/

namespace RawHelper.Pixels

open ByteField Ieee Linearization Opcodes Corrections Sensor Shm Session
open Preview (Library)
open Calls (Wanted)

/-! ## A file -/

section File

variable {Decoder D : Type}

/-- OpcodeList2 and OpcodeList3 of a file; one it does not have is empty. -/
def opcodeLists (R : Rawler Decoder) (decoder : Decoder) : List UInt8 × List UInt8 :=
  match R.virtualDngRawTags decoder with
  | .ok (some tags) =>
    ((opcodeList tags .opcodeList2).getD [], (opcodeList tags .opcodeList3).getD [])
  | _ => ([], [])

open Classical in
/-- The record says what the lists hold, for samples of this layout. -/
structure Recorded (A : Arithmetic Single D) (layout : SensorLayout)
    (lists : List UInt8 × List UInt8) (info : SensorInfo Single) : Prop where
  linearization : ∃ ops, List.Forall₂ (Accepts layout.width layout.height)
      ((each lists.1).filter (fun op => ∃ a, Accepts layout.width layout.height op a)) ops ∧
    info.linearization = composition A ops
  gainMaps : ∃ maps, List.Forall₂ IsGainMap
      ((each lists.1).filter (fun op => ∃ m, IsGainMap op m)) maps ∧
    info.gainMaps = maps.take 16
  radialVignette : LastOf IsVignette (each lists.2) info.radialVignette
  warp : LastOf IsWarp (each lists.2) info.warp

variable {A : Arithmetic Single D}

theorem recorded_of_eq {layout : SensorLayout} {lists : List UInt8 × List UInt8}
    {info : SensorInfo Single}
    (hlinearization : info.linearization =
      composition A ((each lists.1).filterMap (accepted layout.width layout.height)))
    (hgainMaps : info.gainMaps = gainMaps lists.1)
    (hlens : (info.radialVignette, info.warp) = lens lists.2) :
    Recorded A layout lists info where
  linearization :=
    ⟨_, forall₂_filterMap (fun _ _ => accepted_eq_some_iff) (each lists.1), hlinearization⟩
  gainMaps := by
    rw [gainMaps_eq] at hgainMaps
    exact ⟨_, forall₂_filterMap (fun _ _ => gainMapOf_eq_some_iff) (each lists.1), hgainMaps⟩
  radialVignette := by
    rw [lens_eq] at hlens
    rw [(Prod.mk.inj hlens).1]
    exact foldl_lastOf (fun _ _ => vignetteOf_eq_some_iff) _
  warp := by
    rw [lens_eq] at hlens
    rw [(Prod.mk.inj hlens).2]
    exact foldl_lastOf (fun _ _ => warpOf_eq_some_iff) _

/-- An empty list says nothing. -/
theorem readers_nil (A : Arithmetic Single D) (width height : UInt32) :
    composition A ((each []).filterMap (accepted width height)) = [] ∧ gainMaps [] = [] ∧
      lens [] = (none, none) := by
  have heach : each [] = [] := each_of_short (by decide)
  refine ⟨?_, ?_, ?_⟩
  · rw [heach]
    rfl
  · rw [gainMaps_eq, heach]
    rfl
  · rw [lens_eq, heach]
    rfl

/-- **A list that is not there is an empty one**, for a record that has no opcodes yet. -/
theorem readOpcodes_blank {layout : SensorLayout} {info : SensorInfo Single}
    (h : info.withoutOpcodes = info) (list2 list3 : Option (List UInt8)) :
    Decode.readOpcodes A layout list2 list3 info = some { info with
      linearization :=
        composition A ((each (list2.getD [])).filterMap (accepted layout.width layout.height))
      gainMaps := gainMaps (list2.getD [])
      radialVignette := (lens (list3.getD [])).1
      warp := (lens (list3.getD [])).2 } := by
  obtain ⟨hlinearization, hgainMaps, hlens⟩ := readers_nil A layout.width layout.height
  rw [← h]
  unfold Decode.readOpcodes
  cases list2 with
  | none =>
    cases list3 with
    | none => simp only [Option.getD_none, hlinearization, hgainMaps, hlens]; rfl
    | some list3 => simp only [Option.getD_none, hlinearization, hgainMaps]; rfl
  | some list2 =>
    cases list3 with
    | none => simp only [linearization_eq, Option.getD_none, hlens]; rfl
    | some list3 => simp only [linearization_eq]; rfl

theorem recorded_readOpcodes {layout : SensorLayout} {list2 list3 : Option (List UInt8)}
    {info info' : SensorInfo Single} (h : info.withoutOpcodes = info)
    (hread : Decode.readOpcodes A layout list2 list3 info = some info') :
    Recorded A layout (list2.getD [], list3.getD []) info' ∧ info'.withoutOpcodes = info := by
  rw [readOpcodes_blank h] at hread
  obtain rfl := Option.some.inj hread
  exact ⟨recorded_of_eq rfl rfl rfl, h⟩

variable {R : Rawler Decoder} {mul : Single → Single → Single} {os : Creator}

theorem recorded_withOpcodes {decoder : Decoder} {layout : SensorLayout}
    {info info' : SensorInfo Single} (h : info.withoutOpcodes = info)
    (hread : withOpcodes R A decoder layout info = .ok info') :
    Recorded A layout (opcodeLists R decoder) info' ∧ info'.withoutOpcodes = info := by
  have hnone : Decode.readOpcodes A layout none none info = some info := rfl
  have hblank := recorded_readOpcodes h hnone
  unfold withOpcodes at hread
  unfold opcodeLists
  split at hread
  · cases hread
  · next e htags =>
    obtain rfl := Outcome.ok.inj hread
    rw [htags]
    exact hblank
  · next htags =>
    obtain rfl := Outcome.ok.inj hread
    rw [htags]
    exact hblank
  · next tags htags =>
    rw [htags]
    split at hread
    · cases hread
    · next after hafter =>
      obtain rfl := Outcome.ok.inj hread
      exact recorded_readOpcodes h hafter

/-- **The record of a raw file**: the decoder's, its matrices scaled by the gains that
are read, with what its opcode lists hold. -/
theorem sensor_recorded {source : List UInt8} {layout : SensorLayout} {info : SensorInfo Single}
    {b : SharedBuffer} (h : sensor R A mul os source = .ok (layout, info, b)) :
    ∃ decoder image gains, R.getDecoder source = .ok decoder ∧
      R.rawImage decoder source = .ok image ∧ analogBalance R source = .ok gains ∧
      Recorded A layout (opcodeLists R decoder) info ∧
      info.withoutOpcodes =
        mapMatrices (timesGains mul (gains.getD [])) (Samples.describe A image) := by
  rw [sensor] at h
  obtain ⟨decoder, hdecoder, h⟩ := Outcome.bind_eq_ok h
  obtain ⟨image, himage, h⟩ := Outcome.bind_eq_ok h
  obtain ⟨⟨layout', b'⟩, -, h⟩ := Outcome.bind_eq_ok h
  obtain ⟨gains, hgains, h⟩ := Outcome.bind_eq_ok h
  obtain ⟨after, hopcodes, h⟩ := Outcome.bind_eq_ok h
  obtain ⟨rfl, hrest⟩ := Prod.mk.inj (Outcome.ok.inj h)
  obtain ⟨rfl, -⟩ := Prod.mk.inj hrest
  rw [match_applyAnalogBalance] at hopcodes
  obtain ⟨hrecorded, hwithout⟩ := recorded_withOpcodes rfl hopcodes
  exact ⟨decoder, image, gains, hdecoder, himage, hgains, hrecorded, hwithout⟩

end File

/-! ## A session -/

section Sessions

variable {Fd Decoder Image D : Type} {L : Library Decoder Image}

/-- What the application knows of the record that came with samples: whose it is, and
what it says. -/
def Tells (L : Library Decoder Image) (A : Arithmetic Single D)
    (mul : Single → Single → Single) (mapFile : Fd → Except String (List UInt8))
    (notes : Notes Fd) (answer : Answer SharedBuffer Single) : Prop :=
  ∀ id layout info micros b, answer = (.sensor id layout info micros, some b) →
    info.origin = .sensor →
    ∃ told source decoder image gains, notes id = some told ∧ told.decoder = .raw ∧
      mapFile told.fd = .ok source ∧ L.getDecoder source = .ok decoder ∧
      L.rawImage decoder source = .ok image ∧
      analogBalance L.toRawler source = .ok gains ∧
      Recorded A layout (opcodeLists L.toRawler decoder) info ∧
      info.withoutOpcodes =
        mapMatrices (timesGains mul (gains.getD [])) (Samples.describe A image)

/-- Samples as recorded are the raw decoder's, so their record is the file's. -/
theorem tells_of_carries {System : Type} {A : Arithmetic Single D}
    {mul : Single → Single → Single} {mapFile : Fd → Except String (List UInt8)} {os : Creator}
    {decoders : Decoders Fd System SharedBuffer Single} {notes : Notes Fd}
    {answer : Answer SharedBuffer Single} (hmap : decoders.mapFile = mapFile)
    (hsensor : decoders.sensor = sensor L.toRawler A mul os)
    (h : Carries decoders notes answer) : Tells L A mul mapFile notes answer := by
  intro id layout info micros b hanswer horigin
  rw [hanswer] at h
  cases h with
  | samples hnoted hraw hsource hdecoded _ _ _ =>
    rw [hmap] at hsource
    rw [hsensor] at hdecoded
    obtain ⟨decoder, image, gains, hdecoder, himage, hgains, hrecorded, hwithout⟩ :=
      sensor_recorded hdecoded
    exact ⟨_, _, decoder, image, gains, hnoted, hraw, hsource, hdecoder, himage, hgains, hrecorded,
      hwithout⟩
  | developed _ _ _ _ hsystem _ _ _ =>
    rw [horigin] at hsystem
    cases hsystem

/-- **What a session says of raw files**, when rawler's images hold the samples their size
says and no thumbnail of ImageIO is longer than asked.  In every session, whatever came
before: the record that comes with samples as recorded is that of the file whose
descriptor the application sent under that id.  Its tables are the composition of the
mappings in the file's OpcodeList2, its gain maps the first sixteen there, its vignette
and its warp the last in OpcodeList3, its matrices the decoder's with each row times the
gain read for it, and the rest the decoder's as it is.  It is so on macOS, and where no
system decoders are wired. -/
theorem raw_record (hcomplete : Complete L.toRawler) (A : Arithmetic Single D)
    (mul : Single → Single → Single) (mapFile : Fd → Except String (List UInt8))
    (sandboxed : Bool) (before : List (Received Fd)) (received : Received Fd) :
    (∀ M : Frameworks, Bounded M.io →
      Tells L A mul mapFile (notesOf (macosDecoders L A mul mapFile M) sandboxed before)
        (handle (macosDecoders L A mul mapFile M) sandboxed
          (Machine.run (handle (macosDecoders L A mul mapFile M) sandboxed) ∅ before).2
          received).1) ∧
    ∀ os : Creator,
      Tells L A mul mapFile (notesOf (unsupportedDecoders L A mul mapFile os) sandboxed before)
        (handle (unsupportedDecoders L A mul mapFile os) sandboxed
          (Machine.run (handle (unsupportedDecoders L A mul mapFile os) sandboxed) ∅ before).2
          received).1 := by
  refine ⟨fun M hbounded => ?_, fun os => ?_⟩
  · exact tells_of_carries rfl rfl
      (session_carries (labelled_macos hcomplete hbounded) sandboxed before received)
  · exact tells_of_carries rfl rfl
      (session_carries (labelled_unsupported hcomplete) sandboxed before received)

end Sessions

/-! ### A session of two requests -/

/-- A file with a vignette. -/
def lensTags : DngTag → Option TagValue
  | .opcodeList3 => some (.undefined (Decode.encodeList [Decode.vignetteOpcode]))
  | _ => none

/-- The file, with a gain of two in its first channel. -/
def tagged : Library Unit Unit :=
  { shot with
    toRawler := { dng [two, one, one] (.replicate 9 one) with
      virtualDngRawTags := fun _ => .ok (some lensTags) } }

theorem complete_tagged : Complete tagged.toRawler := by
  intro decoder source image himage
  obtain rfl := Outcome.ok.inj himage
  rfl

section Tagged

variable {D : Type} (A : Arithmetic Single D)

theorem sensor_tagged : ∃ info b,
    sensor tagged.toRawler A mulOne .reliable header = .ok (⟨2, 1, 1, .u16⟩, info, b) ∧
      info.origin = .sensor ∧
      info.colorMatrices = [⟨21, [two, two, two, one, one, one, one, one, one]⟩] := by
  obtain ⟨buffer, hsamples, -⟩ := Samples.samples_smallImage [(21, .replicate 9 one)]
  obtain ⟨read, hread, hused⟩ := analogBalance_dng [two, one, one] (.replicate 9 one)
  have hcopied : copied .reliable (Samples.smallImage [(21, .replicate 9 one)]) =
      .ok (⟨2, 1, 1, .u16⟩, buffer) := by
    rw [copied, hsamples]
  have hdecoder : tagged.getDecoder header = .ok () := rfl
  have himage : tagged.rawImage () header = .ok (Samples.smallImage [(21, .replicate 9 one)]) := rfl
  have hgains : analogBalance tagged.toRawler header = .ok read := hread
  have htags : tagged.virtualDngRawTags () = .ok (some lensTags) := rfl
  obtain ⟨after, hafter⟩ : ∃ after, Decode.readOpcodes A ⟨2, 1, 1, .u16⟩
      (opcodeList lensTags .opcodeList2) (opcodeList lensTags .opcodeList3)
      (mapMatrices (timesGains mulOne (usedGains [two, one, one]))
        (Samples.describe A (Samples.smallImage [(21, .replicate 9 one)]))) = some after :=
    ⟨_, readOpcodes_blank rfl none _⟩
  have hwithout := (recorded_readOpcodes rfl hafter).2
  refine ⟨after, buffer, ?_, congrArg SensorInfo.origin hwithout,
    congrArg SensorInfo.colorMatrices hwithout⟩
  rw [sensor]
  simp only [hdecoder, himage, hcopied, hgains, Outcome.ok_bind, match_applyAnalogBalance, hused,
    withOpcodes, htags, hafter]
  rfl

def taggedDecoders : Decoders Unit Render.SystemFile SharedBuffer Single :=
  macosDecoders tagged A mulOne (fun _ => .ok header) noFrameworks

theorem run_openTagged :
    (Machine.run (handle (taggedDecoders A) false) ∅ [openShot]).2[(1 : UInt64)]? =
      some shotFile := by
  have hrun : (Machine.run (handle (taggedDecoders A) false) ∅ [openShot]).2 =
      (∅ : Files Unit Render.SystemFile).insert (1 : UInt64) shotFile := rfl
  rw [hrun, Std.HashMap.getElem?_insert_self]

/-- The reply to a request for its samples. -/
def replyTagged : Answer SharedBuffer Single :=
  (handle (taggedDecoders A) false
    (Machine.run (handle (taggedDecoders A) false) ∅ [openShot]).2 ⟨.sensor 1, none, 0, []⟩).1

theorem exists_replyTagged : ∃ info b,
    replyTagged A = (.sensor 1 ⟨2, 1, 1, .u16⟩ info 0, some b) ∧ info.origin = .sensor ∧
      info.colorMatrices = [⟨21, [two, two, two, one, one, one, one, one, one]⟩] := by
  obtain ⟨info, b, hsensor, horigin, hmatrices⟩ := sensor_tagged A
  refine ⟨info, b, ?_, horigin, hmatrices⟩
  have htried : shotFile.tried (taggedDecoders A) .sensor = .ok (⟨2, 1, 1, .u16⟩, info, b) :=
    congrArg guarded hsensor
  have hdecode : (shotFile.decode (taggedDecoders A) .sensor).1 =
      .ok (⟨2, 1, 1, .u16⟩, info, b) := by
    rw [OpenFile.decode_def, htried]
  exact (handle_fst_of_open (taggedDecoders A) (run_openTagged A) false .sensor none 0 []).trans
    (congrArg (Wanted.sensor.answer 1 0) hdecode)

end Tagged

/-- Its matrix comes with the gain, and its vignette is the one of its list. -/
theorem raw_record_tagged : Bounded noFrameworks.io ∧
    ∀ (D : Type) (A : Arithmetic Single D), ∃ info b,
      replyTagged A = (.sensor 1 ⟨2, 1, 1, .u16⟩ info 0, some b) ∧
      info.colorMatrices = [⟨21, [two, two, two, one, one, one, one, one, one]⟩] ∧
      Recorded A ⟨2, 1, 1, .u16⟩ ([], Decode.encodeList [Decode.vignetteOpcode]) info := by
  refine ⟨bounded_noFrameworks, fun D A => ?_⟩
  obtain ⟨info, b, hreply, horigin, hmatrices⟩ := exists_replyTagged A
  obtain ⟨told, source, decoder, image, gains, -, -, -, -, -, -, hrecorded, -⟩ :=
    (raw_record complete_tagged A mulOne (fun _ => .ok header) false [openShot]
      ⟨.sensor 1, none, 0, []⟩).1 noFrameworks bounded_noFrameworks 1 _ info 0 b hreply horigin
  exact ⟨info, b, hreply, hmatrices, hrecorded⟩

end RawHelper.Pixels
