import RawHelper.Helper.Samples
import RawHelper.Helper.Decode
import RawHelper.Helper.Session

/-!
# A sensor reply and its analog balance

`helper/src/decode.rs`: `sensor` as a whole.  What rawler makes of a file is a
parameter (`Rawler`): its decoder, the image, the numbers of the `AnalogBalance`
tag and the opcode lists.

A DNG's colour matrices describe the camera before its analog gains.
`analogBalance` reads three gains, and `applyAnalogBalance` multiplies the rows of
each matrix by them, one after another, so a row past the third is left as it is
and a tag of fewer gains is not used.  `Balanced` is what the record promises, row
`c` times gain `c` for every channel; `sensor_balanced_iff` says for which files
the promise is kept, which they are when there are three channels, and
`fourth_row_not_balanced` is a camera of four.
-/

namespace RawHelper.Sensor

open Ieee Linearization Shm Samples Decode Session

/-! ## The code -/

inductive TagValue where
  | undefined (bytes : List UInt8)
  | byte (bytes : List UInt8)
  | other

inductive DngTag where
  | opcodeList2
  | opcodeList3

/-- What rawler makes of a file. -/
structure Rawler (Decoder : Type) where
  getDecoder : List UInt8 → Outcome Decoder
  rawImage : Decoder → List UInt8 → Outcome RawImage
  isTiff : List UInt8 → Bool
  /-- The numbers of a TIFF's `AnalogBalance` tag. -/
  analogBalanceTag : List UInt8 → Outcome (Option (List Single))
  virtualDngRawTags : Decoder → Outcome (Option (DngTag → Option TagValue))

def isGain (g : Single) : Bool := g.isFinite && g.gtZero

section Code

variable {Decoder D : Type} (R : Rawler Decoder) (A : Arithmetic Single D)
  (mul : Single → Single → Single)

/-- A DNG's three gains. -/
def analogBalance (source : List UInt8) : Outcome (Option (List Single)) :=
  if source.length < 8 ∨ ¬ R.isTiff source then
    .ok none
  else
    match R.analogBalanceTag source with
    | .panic => .panic
    | .err _ | .ok none => .ok none
    | .ok (some entry) =>
      if entry.length < 3 then
        .ok none
      else
        let gains := entry.take 3
        .ok (if gains.all isGain then some gains else none)

/-- Rows of three, each times its gain; what is left when the gains end stays. -/
def scaleRows : List Single → List Single → List Single
  | values, [] => values
  | values, gain :: gains =>
    (values.take 3).map (mul · gain) ++ scaleRows (values.drop 3) gains

/-- The record with its matrices changed. -/
def mapMatrices (f : List Single → List Single) (info : SensorInfo Single) : SensorInfo Single :=
  { info with colorMatrices := info.colorMatrices.map fun m => { m with values := f m.values } }

def applyAnalogBalance (info : SensorInfo Single) (gains : List Single) : SensorInfo Single :=
  mapMatrices (fun values => scaleRows mul values gains) info

def opcodeList (tags : DngTag → Option TagValue) (tag : DngTag) : Option (List UInt8) :=
  match tags tag with
  | some (.undefined bytes) | some (.byte bytes) => some bytes
  | _ => none

/-- The samples in their buffer. -/
def copied (os : Creator) (image : RawImage) : Outcome (SensorLayout × SharedBuffer) :=
  match samples os image with
  | .error e => .err e.toString
  | .ok none => .panic
  | .ok (some copy) => .ok copy

/-- The record with what the file's opcodes add to it. -/
def withOpcodes (decoder : Decoder) (layout : SensorLayout) (info : SensorInfo Single) :
    Outcome (SensorInfo Single) :=
  match R.virtualDngRawTags decoder with
  | .panic => .panic
  | .err _ | .ok none => .ok info
  | .ok (some tags) =>
    match readOpcodes A layout (opcodeList tags .opcodeList2) (opcodeList tags .opcodeList3)
        info with
    | none => .panic
    | some info => .ok info

def sensor (os : Creator) (source : List UInt8) :
    Outcome (SensorLayout × SensorInfo Single × SharedBuffer) := do
  let decoder ← R.getDecoder source
  let image ← R.rawImage decoder source
  let (layout, buffer) ← copied os image
  let info := match ← analogBalance R source with
    | some gains => applyAnalogBalance mul (describe A image) gains
    | none => describe A image
  let info ← withOpcodes R A decoder layout info
  return (layout, info, buffer)

end Code

/-! ## What is promised -/

section Balance

variable (mul : Single → Single → Single)

/-- The value of a row under the row's gain, if it has one. -/
def byGain (gains : List Single) (row : ℕ) (v : Single) : Single :=
  (gains[row]?).elim v (mul v)

/-- Rows of three, row `c` times gain `c`. -/
def timesGains (gains values : List Single) : List Single :=
  values.mapIdx fun i v => byGain mul gains (i / 3) v

/-- The matrices are the decoder's, each row times its gain, when all the gains
are finite and positive, and the decoder's own otherwise; nothing else differs. -/
structure Balanced (gains : List Single) (before after : SensorInfo Single) : Prop where
  scaled : (∀ g ∈ gains, isGain g) → after = mapMatrices (timesGains mul gains) before
  unchanged : (¬ ∀ g ∈ gains, isGain g) → after = before

/-- Row `c` of every matrix is left as it is by its gain. -/
def Fixed (gains : List Single) (matrices : List (ColorMatrix Single)) (c : ℕ) : Prop :=
  ∀ m ∈ matrices, ∀ i v g, i / 3 = c → m.values[i]? = some v → gains[c]? = some g → mul v g = v

/-- The gains the code multiplies by: three, or none. -/
def usedGains (gains : List Single) : List Single :=
  if 3 ≤ gains.length ∧ (gains.take 3).all isGain then gains.take 3 else []

variable {mul}

theorem getElem?_scaleRows (values gains : List Single) (i : ℕ) :
    (scaleRows mul values gains)[i]? = values[i]?.map (byGain mul gains (i / 3)) := by
  induction gains generalizing values i with
  | nil => cases h : values[i]? <;> simp [scaleRows, byGain, h]
  | cons gain gains ih =>
    rw [scaleRows, List.getElem?_append, List.length_map, List.length_take]
    by_cases hi : i < values.length
    · by_cases hi3 : i < 3
      · have hrow : i / 3 = 0 := Nat.div_eq_of_lt hi3
        rw [if_pos (by omega), List.getElem?_map, List.getElem?_take, if_pos hi3, hrow]
        rfl
      · have hrow : i / 3 = (i - 3) / 3 + 1 := by omega
        have hdrop : 3 + (i - 3) = i := by omega
        rw [if_neg (by omega), Nat.min_eq_left (by omega), ih, List.getElem?_drop, hdrop, hrow]
        rfl
    · have hnone : values[i]? = none := List.getElem?_eq_none (not_lt.mp hi)
      rw [if_neg (by omega), ih, List.getElem?_drop, hnone, List.getElem?_eq_none (by omega)]
      rfl

theorem scaleRows_eq (values gains : List Single) :
    scaleRows mul values gains = timesGains mul gains values := by
  refine List.ext_getElem? fun i => ?_
  rw [getElem?_scaleRows, timesGains, List.getElem?_mapIdx]

/-- Without gains nothing changes. -/
theorem timesGains_nil (values : List Single) : timesGains mul [] values = values := by
  rw [← scaleRows_eq, scaleRows]

theorem timesGains_eq_iff {gains gains' values : List Single} :
    timesGains mul gains values = timesGains mul gains' values ↔
      ∀ i v, values[i]? = some v → byGain mul gains (i / 3) v = byGain mul gains' (i / 3) v := by
  rw [timesGains, timesGains, List.mapIdx_eq_mapIdx_iff]
  constructor
  · intro h i v hv
    obtain ⟨hi, rfl⟩ := List.getElem?_eq_some_iff.mp hv
    exact h i hi
  · intro h i hi
    exact h i _ (List.getElem?_eq_getElem hi)

theorem mapMatrices_eq_iff {f g : List Single → List Single} {info : SensorInfo Single} :
    mapMatrices f info = mapMatrices g info ↔
      ∀ m ∈ info.colorMatrices, f m.values = g m.values := by
  rw [mapMatrices, mapMatrices, SensorInfo.mk.injEq]
  simp

theorem mapMatrices_id (info : SensorInfo Single) : mapMatrices id info = info := by
  simp [mapMatrices]

/-- **Two lists of gains give the same matrices** exactly when they agree on every
row of them. -/
theorem mapMatrices_timesGains_eq_iff {gains gains' : List Single} {info : SensorInfo Single} :
    mapMatrices (timesGains mul gains) info = mapMatrices (timesGains mul gains') info ↔
      ∀ c, ∀ m ∈ info.colorMatrices, ∀ i v, i / 3 = c → m.values[i]? = some v →
        byGain mul gains c v = byGain mul gains' c v := by
  rw [mapMatrices_eq_iff]
  constructor
  · rintro h c m hm i v rfl hv
    exact timesGains_eq_iff.mp (h m hm) i v hv
  · intro h m hm
    exact timesGains_eq_iff.mpr fun i v hv => h _ m hm i v rfl hv

theorem fixed_iff {gains : List Single} {matrices : List (ColorMatrix Single)} {c : ℕ} :
    Fixed mul gains matrices c ↔ ∀ m ∈ matrices, ∀ i v, i / 3 = c → m.values[i]? = some v →
      byGain mul gains c v = v := by
  rw [Fixed]
  refine forall₂_congr fun m _ => forall₂_congr fun i v => ?_
  cases hg : gains[c]? with
  | none => simp [byGain, hg]
  | some g => simp [byGain, hg]

/-! ### The three gains -/

/-- Three gains are used, all of them finite and positive. -/
def Used (gains : List Single) : Prop := 3 ≤ gains.length ∧ ∀ g ∈ gains.take 3, isGain g

theorem usedGains_of_used {gains : List Single} (h : Used gains) :
    usedGains gains = gains.take 3 := if_pos ⟨h.1, List.all_eq_true.mpr h.2⟩

theorem usedGains_of_not {gains : List Single} (h : ¬ Used gains) : usedGains gains = [] :=
  if_neg fun hcon => h ⟨hcon.1, List.all_eq_true.mp hcon.2⟩

theorem byGain_usedGains {gains : List Single} (h : Used gains) {c : ℕ} (hc : c < 3) (v : Single) :
    byGain mul (usedGains gains) c v = byGain mul gains c v := by
  rw [usedGains_of_used h, byGain, byGain, List.getElem?_take, if_pos hc]

/-- A row past the third has no gain. -/
theorem byGain_usedGains_of_le (gains : List Single) {c : ℕ} (hc : 3 ≤ c) (v : Single) :
    byGain mul (usedGains gains) c v = v := by
  by_cases h : Used gains
  · rw [usedGains_of_used h, byGain, List.getElem?_take, if_neg (by omega)]
    rfl
  · rw [usedGains_of_not h]
    rfl

/-- Rows without a gain need none, and rows with a gain that should not be used
are left as they are by it. -/
structure RowsCovered (mul : Single → Single → Single) (gains : List Single)
    (matrices : List (ColorMatrix Single)) : Prop where
  without : (∀ g ∈ gains, isGain g) → ∀ c, gains.length < 3 ∨ 3 ≤ c → Fixed mul gains matrices c
  excess : (¬ ∀ g ∈ gains, isGain g) → Used gains → ∀ c < 3, Fixed mul gains matrices c

/-- With three channels every row has its gain. -/
theorem RowsCovered.of_three {gains : List Single} (h : gains.length = 3)
    (matrices : List (ColorMatrix Single)) : RowsCovered mul gains matrices where
  without _ c hc := by
    have hnone : gains[c]? = none := List.getElem?_eq_none (by omega)
    intro m _ i v g _ _ hg
    rw [hnone] at hg
    cases hg
  excess hall hused := by
    refine absurd ?_ hall
    have htake := hused.2
    rwa [List.take_of_length_le (by omega)] at htake

/-- All gains are good: the promise is kept when rows without a gain need none. -/
theorem scaled_iff {gains : List Single} (hall : ∀ g ∈ gains, isGain g)
    (before : SensorInfo Single) :
    mapMatrices (timesGains mul (usedGains gains)) before =
        mapMatrices (timesGains mul gains) before ↔
      ∀ c, gains.length < 3 ∨ 3 ≤ c → Fixed mul gains before.colorMatrices c := by
  rw [mapMatrices_timesGains_eq_iff]
  refine forall_congr' fun c => ?_
  rw [fixed_iff]
  by_cases hskip : gains.length < 3 ∨ 3 ≤ c
  · have hself : ∀ v, byGain mul (usedGains gains) c v = v := by
      intro v
      rcases hskip with hlen | hc
      · rw [usedGains_of_not fun h => absurd h.1 (by omega)]
        rfl
      · exact byGain_usedGains_of_le gains hc v
    simp only [hself, hskip, forall_const]
    exact forall₂_congr fun m _ => forall₂_congr fun i v =>
      forall₂_congr fun _ _ => eq_comm
  · obtain ⟨hlen, hc⟩ := not_or.mp hskip
    have hused : Used gains := ⟨not_lt.mp hlen, fun g hg => hall g (List.mem_of_mem_take hg)⟩
    simp only [byGain_usedGains hused (not_le.mp hc), hskip, false_imp_iff, implies_true]

/-- A gain is not good: the promise is kept when no gain is used, or those used
change nothing. -/
theorem unchanged_iff (gains : List Single) (before : SensorInfo Single) :
    mapMatrices (timesGains mul (usedGains gains)) before = before ↔
      (Used gains → ∀ c < 3, Fixed mul gains before.colorMatrices c) := by
  have hnil : mapMatrices (timesGains mul []) before = before := by
    rw [funext timesGains_nil]
    exact mapMatrices_id before
  by_cases hused : Used gains
  · nth_rewrite 2 [← hnil]
    rw [mapMatrices_timesGains_eq_iff]
    simp only [hused, forall_const]
    refine forall_congr' fun c => ?_
    rw [fixed_iff]
    by_cases hc : c < 3
    · simp only [byGain_usedGains hused hc, hc, forall_const]
      rfl
    · simp only [byGain_usedGains_of_le gains (not_lt.mp hc), hc, false_imp_iff, iff_true]
      intro m _ i v _ _
      rfl
  · rw [usedGains_of_not hused, hnil]
    simp only [hused, false_imp_iff]

/-- **When the gains used keep the promise.** -/
theorem balanced_iff (gains : List Single) (before : SensorInfo Single) :
    Balanced mul gains before (mapMatrices (timesGains mul (usedGains gains)) before) ↔
      RowsCovered mul gains before.colorMatrices := by
  constructor
  · rintro ⟨hscaled, hunchanged⟩
    exact ⟨fun hall => (scaled_iff hall before).mp (hscaled hall),
      fun hall => (unchanged_iff gains before).mp (hunchanged hall)⟩
  · rintro ⟨hwithout, hexcess⟩
    exact ⟨fun hall => (scaled_iff hall before).mpr (hwithout hall),
      fun hall => (unchanged_iff gains before).mpr (hexcess hall)⟩

end Balance

/-! ## What `sensor` reports -/

section Report

variable {Decoder D : Type} {R : Rawler Decoder} {A : Arithmetic Single D}
  {mul : Single → Single → Single} {os : Creator} {source : List UInt8}

/-- The same file without the tag. -/
def Rawler.untagged (R : Rawler Decoder) : Rawler Decoder :=
  { R with analogBalanceTag := fun _ => .ok none }

/-- **Which gains are read.** -/
theorem analogBalance_eq {gains : List Single} (hlen : 8 ≤ source.length)
    (htiff : R.isTiff source) (htag : R.analogBalanceTag source = .ok (some gains)) :
    ∃ read, analogBalance R source = .ok read ∧ read.getD [] = usedGains gains := by
  rw [analogBalance, if_neg (by rw [htiff]; simpa using hlen), htag]
  by_cases h3 : gains.length < 3
  · exact ⟨none, if_pos h3, (usedGains_of_not fun h => absurd h.1 (by omega)).symm⟩
  · by_cases hall : (gains.take 3).all isGain
    · refine ⟨some (gains.take 3), ?_, (if_pos ⟨by omega, hall⟩).symm⟩
      simp only [h3, if_false, hall, if_true]
    · refine ⟨none, ?_, (if_neg fun h => hall h.2).symm⟩
      simp only [h3, if_false, hall, Bool.false_eq_true]

theorem analogBalance_untagged (R : Rawler Decoder) (source : List UInt8) :
    analogBalance R.untagged source = .ok none := by
  rw [analogBalance]
  split <;> rfl

/-- Reading the opcodes commutes with a change of the matrices, and keeps them. -/
theorem readOpcodes_mapMatrices (f : List Single → List Single) (layout : SensorLayout)
    (list2 list3 : Option (List UInt8)) (info : SensorInfo Single) :
    readOpcodes A layout list2 list3 (mapMatrices f info) =
      (readOpcodes A layout list2 list3 info).map (mapMatrices f) := by
  cases list2 with
  | none => cases list3 <;> rfl
  | some list2 =>
    rw [readOpcodes, readOpcodes]
    cases linearization A list2 layout.width layout.height with
    | none => rfl
    | some tables => cases list3 <;> rfl

theorem colorMatrices_readOpcodes {layout : SensorLayout} {list2 list3 : Option (List UInt8)}
    {info info' : SensorInfo Single} (h : readOpcodes A layout list2 list3 info = some info') :
    info'.colorMatrices = info.colorMatrices := by
  cases list2 with
  | none => cases list3 <;> (cases h; rfl)
  | some list2 =>
    rw [readOpcodes] at h
    cases hl : linearization A list2 layout.width layout.height with
    | none => rw [hl] at h; cases h
    | some tables => rw [hl] at h; cases list3 <;> (cases h; rfl)

theorem withOpcodes_mapMatrices {f : List Single → List Single} {decoder : Decoder}
    {layout : SensorLayout} {info after : SensorInfo Single}
    (h : withOpcodes R A decoder layout (mapMatrices f info) = .ok after) :
    ∃ before, withOpcodes R A decoder layout info = .ok before ∧ after = mapMatrices f before ∧
      before.colorMatrices = info.colorMatrices := by
  rw [withOpcodes] at h ⊢
  split at h
  · cases h
  · cases h
    exact ⟨info, rfl, rfl, rfl⟩
  · cases h
    exact ⟨info, rfl, rfl, rfl⟩
  · rw [readOpcodes_mapMatrices] at h
    cases hread : readOpcodes A layout _ _ info with
    | none => rw [hread] at h; cases h
    | some before =>
      rw [hread] at h
      cases h
      exact ⟨before, rfl, rfl, colorMatrices_readOpcodes hread⟩

/-- The gains read, or none, as one list. -/
theorem match_applyAnalogBalance (info : SensorInfo Single) (read : Option (List Single)) :
    (match read with
      | some gains => applyAnalogBalance mul info gains
      | none => info) = mapMatrices (timesGains mul (read.getD [])) info := by
  cases read with
  | none =>
    rw [Option.getD_none, funext timesGains_nil]
    exact (mapMatrices_id info).symm
  | some gains =>
    exact congrArg (mapMatrices · info) (funext fun values => scaleRows_eq values gains)

/-- **What `sensor` reports**: what it would without the tag, each row times the
gain read for it. -/
theorem sensor_ok {read : Option (List Single)} (hread : analogBalance R source = .ok read)
    {decoder : Decoder} {image : RawImage} (hdecoder : R.getDecoder source = .ok decoder)
    (himage : R.rawImage decoder source = .ok image) {layout : SensorLayout}
    {info : SensorInfo Single} {buffer : SharedBuffer}
    (h : sensor R A mul os source = .ok (layout, info, buffer)) :
    ∃ before, sensor R.untagged A mul os source = .ok (layout, before, buffer) ∧
      info = mapMatrices (timesGains mul (read.getD [])) before ∧
      before.colorMatrices = image.matrices := by
  rw [sensor] at h
  obtain ⟨decoder', hdecoder', h⟩ := Outcome.bind_eq_ok h
  obtain rfl := Outcome.ok.inj (hdecoder.symm.trans hdecoder')
  obtain ⟨image', himage', h⟩ := Outcome.bind_eq_ok h
  obtain rfl := Outcome.ok.inj (himage.symm.trans himage')
  obtain ⟨⟨layout', buffer'⟩, hcopied, h⟩ := Outcome.bind_eq_ok h
  obtain ⟨read', hread', h⟩ := Outcome.bind_eq_ok h
  obtain rfl := Outcome.ok.inj (hread.symm.trans hread')
  obtain ⟨after, hopcodes, h⟩ := Outcome.bind_eq_ok h
  obtain ⟨rfl, hinfo⟩ := Prod.mk.inj (Outcome.ok.inj h)
  obtain ⟨rfl, rfl⟩ := Prod.mk.inj hinfo
  rw [match_applyAnalogBalance] at hopcodes
  obtain ⟨before, hbefore, hafter, hmatrices⟩ := withOpcodes_mapMatrices hopcodes
  refine ⟨before, ?_, hafter, hmatrices⟩
  -- without the tag every other step is the same
  have hdecoder₀ : R.untagged.getDecoder source = .ok decoder := hdecoder
  have himage₀ : R.untagged.rawImage decoder source = .ok image := himage
  have hbefore₀ : withOpcodes R.untagged A decoder layout' (describe A image) = .ok before :=
    hbefore
  rw [sensor]
  simp only [hdecoder₀, himage₀, hcopied, analogBalance_untagged, hbefore₀, Outcome.ok_bind]
  rfl

/-- **For which files the matrices map to the samples as stored**: those where the
rows that get no gain, all of them for fewer than three channels and those past
the third otherwise, are left as they are by their own; and where, when a gain is
not finite and positive, so is one of the first three, or these change nothing. -/
theorem sensor_balanced_iff {gains : List Single} (hlen : 8 ≤ source.length)
    (htiff : R.isTiff source) (htag : R.analogBalanceTag source = .ok (some gains))
    {decoder : Decoder} {image : RawImage} (hdecoder : R.getDecoder source = .ok decoder)
    (himage : R.rawImage decoder source = .ok image) {layout : SensorLayout}
    {info : SensorInfo Single} {buffer : SharedBuffer}
    (h : sensor R A mul os source = .ok (layout, info, buffer)) :
    ∃ before, sensor R.untagged A mul os source = .ok (layout, before, buffer) ∧
      before.colorMatrices = image.matrices ∧
      (Balanced mul gains before info ↔ RowsCovered mul gains image.matrices) := by
  obtain ⟨read, hread, hused⟩ := analogBalance_eq hlen htiff htag
  obtain ⟨before, hbefore, hinfo, hmatrices⟩ := sensor_ok hread hdecoder himage h
  refine ⟨before, hbefore, hmatrices, ?_⟩
  rw [hinfo, hused, ← hmatrices]
  exact balanced_iff gains before

end Report

/-! ## Three channels and four -/

/-- `1.0` and `2.0`. -/
def one : Single := ⟨0x3F800000⟩

def two : Single := ⟨0x40000000⟩

/-- The product of two numbers one of which is `1.0`. -/
def mulOne (v g : Single) : Single := if v = one then g else v

/-- The header of a TIFF. -/
def header : List UInt8 := [0x49, 0x49, 0x2A, 0, 8, 0, 0, 0]

/-- A DNG of one matrix, and no opcodes. -/
def dng (gains matrix : List Single) : Rawler Unit where
  getDecoder _ := .ok ()
  rawImage _ _ := .ok (smallImage [(21, matrix)])
  isTiff source := source.take 4 = [0x49, 0x49, 0x2A, 0]
  analogBalanceTag _ := .ok (some gains)
  virtualDngRawTags _ := .ok none

theorem isTiff_dng (gains matrix : List Single) : (dng gains matrix).isTiff header := by
  show decide (header.take 4 = [0x49, 0x49, 0x2A, 0]) = true
  decide

theorem analogBalance_dng (gains matrix : List Single) :
    ∃ read, analogBalance (dng gains matrix) header = .ok read ∧ read.getD [] = usedGains gains :=
  analogBalance_eq (by decide) (isTiff_dng gains matrix) rfl

theorem sensor_dng (gains matrix : List Single) {D : Type} (A : Arithmetic Single D) :
    ∃ layout info buffer,
      sensor (dng gains matrix) A mulOne .reliable header = .ok (layout, info, buffer) ∧
      info.colorMatrices = [⟨21, timesGains mulOne (usedGains gains) matrix⟩] := by
  obtain ⟨buffer, hsamples, -⟩ := samples_smallImage [(21, matrix)]
  obtain ⟨read, hread, hused⟩ := analogBalance_dng gains matrix
  have hcopied : copied .reliable (smallImage [(21, matrix)]) = .ok (⟨2, 1, 1, .u16⟩, buffer) := by
    rw [copied, hsamples]
  have hdecoder : (dng gains matrix).getDecoder header = .ok () := rfl
  have himage : (dng gains matrix).rawImage () header = .ok (smallImage [(21, matrix)]) := rfl
  rw [sensor]
  simp only [hdecoder, himage, hcopied, hread, Outcome.ok_bind, match_applyAnalogBalance, hused]
  exact ⟨_, _, _, rfl, rfl⟩

/-- Three channels, the first of which has a gain of two. -/
theorem sensor_balanced_iff_three :
    (∀ g ∈ [two, one, one], isGain g) ∧ ∀ (D : Type) (A : Arithmetic Single D),
      ∃ layout before info buffer,
        sensor (dng [two, one, one] (.replicate 9 one)) A mulOne .reliable header =
          .ok (layout, info, buffer) ∧
        sensor (dng [two, one, one] (.replicate 9 one)).untagged A mulOne .reliable header =
          .ok (layout, before, buffer) ∧
        Balanced mulOne [two, one, one] before info ∧
        info.colorMatrices = [⟨21, [two, two, two, one, one, one, one, one, one]⟩] := by
  refine ⟨by decide, fun D A => ?_⟩
  obtain ⟨layout, info, buffer, hsensor, hmatrices⟩ :=
    sensor_dng [two, one, one] (.replicate 9 one) A
  obtain ⟨before, hbefore, -, hiff⟩ := sensor_balanced_iff (by decide) (isTiff_dng _ _) rfl
    rfl rfl hsensor
  have hvalues : timesGains mulOne (usedGains [two, one, one]) (.replicate 9 one) =
      [two, two, two, one, one, one, one, one, one] := by decide
  rw [hvalues] at hmatrices
  exact ⟨layout, before, info, buffer, hsensor, hbefore, hiff.mpr (.of_three rfl _), hmatrices⟩

/-- **A camera of four channels whose fourth row is left without its gain.** -/
theorem fourth_row_not_balanced :
    (∀ g ∈ [one, one, one, two], isGain g) ∧ ∀ (D : Type) (A : Arithmetic Single D),
      ∃ layout before info buffer,
        sensor (dng [one, one, one, two] (.replicate 12 one)) A mulOne .reliable header =
          .ok (layout, info, buffer) ∧
        sensor (dng [one, one, one, two] (.replicate 12 one)).untagged A mulOne .reliable header =
          .ok (layout, before, buffer) ∧
        info.colorMatrices = [⟨21, .replicate 12 one⟩] ∧
        ¬ Balanced mulOne [one, one, one, two] before info := by
  refine ⟨by decide, fun D A => ?_⟩
  obtain ⟨layout, info, buffer, hsensor, hmatrices⟩ :=
    sensor_dng [one, one, one, two] (.replicate 12 one) A
  have hvalues : timesGains mulOne (usedGains [one, one, one, two]) (.replicate 12 one) =
      .replicate 12 one := by decide
  rw [hvalues] at hmatrices
  obtain ⟨read, hread, -⟩ := analogBalance_dng [one, one, one, two] (.replicate 12 one)
  obtain ⟨before, hbefore, -, hbefore'⟩ := sensor_ok hread rfl rfl hsensor
  refine ⟨layout, before, info, buffer, hsensor, hbefore, hmatrices, ?_⟩
  rintro ⟨hscaled, -⟩
  have hpromised : info.colorMatrices = before.colorMatrices.map fun m =>
      { m with values := timesGains mulOne [one, one, one, two] m.values } :=
    congrArg SensorInfo.colorMatrices (hscaled (by decide))
  rw [hmatrices, hbefore'] at hpromised
  exact absurd (congrArg (List.map ColorMatrix.values) hpromised) (by decide)

end RawHelper.Sensor
