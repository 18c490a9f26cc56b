import RawHelper.Helper.Lens
import RawHelper.Helper.Linearization
import RawHelper.Protocol.Channel
import RawHelper.Protocol.Postcard

/-!
# A sensor reply and its opcodes

The part of `sensor` (`helper/src/decode.rs`) that reads a DNG's opcode lists
into the record it returns, and what becomes of the reply in `Channel.send`.

Each reader bounds what it returns: four tables of 128 points, sixteen gain maps
of `2 ^ 20` gains.  The channel bounds the whole message to `2 ^ 20` bytes, so
the readers let through more than it does.  `readOpcodes_eq` gives the size of
what is read, in terms of the lists; `sensor_reply_fits_iff` says exactly which
lists fit, and `large_gain_map_is_refused` is a list that passes every check of
the readers and does not.
-/

namespace RawHelper.Decode

open ByteField Ieee Opcodes Corrections Linearization Socket

/-! ## The code -/

/-- The opcode lists of a DNG, into the record; `none` is a panic. -/
def readOpcodes {S D : Type} (A : Arithmetic S D) (layout : SensorLayout)
    (list2 list3 : Option (List UInt8)) (info : SensorInfo S) : Option (SensorInfo S) :=
  let read2 := match list2 with
    | none => some info
    | some list2 =>
      (linearization A list2 layout.width layout.height).map fun tables =>
        { info with linearization := tables, gainMaps := gainMaps list2 }
  read2.map fun info =>
    match list3 with
    | none => info
    | some list3 => { info with radialVignette := (lens list3).1, warp := (lens list3).2 }

/-! ## What the lists hold -/

/-- The `i`th big-endian `u32` of a body. -/
def word (body : List UInt8) (i : Nat) : UInt32 := u32be.decode ((body.drop (4 * i)).take 4)

theorem word_of_append {pre t body : List UInt8} {w : UInt32} {i : Nat}
    (h : pre ++ (u32be.encode w ++ t) <+: body) (hpre : pre.length = 4 * i) : word body i = w := by
  obtain ⟨t', rfl⟩ := h
  rw [word, ← hpre, List.append_assoc, List.drop_left, List.append_assoc]
  exact (congrArg u32be.decode (u32be.take_encode_append w _)).trans (u32be.decode_encode w)

/-- The words of an array of fields. -/
theorem word_of_encodeAll {ws : List UInt32} {t body : List UInt8}
    (h : u32be.encodeAll ws ++ t <+: body) {i : Nat} {w : UInt32} (hw : ws[i]? = some w) :
    word body i = w := by
  obtain ⟨hi, rfl⟩ := List.getElem?_eq_some_iff.mp hw
  have hsplit : ws = ws.take i ++ ws[i] :: ws.drop (i + 1) := by simp
  rw [hsplit, Codec.encodeAll_append, Codec.encodeAll_cons, List.append_assoc,
    List.append_assoc] at h
  exact word_of_append h (by simp [Nat.min_eq_left hi.le, Nat.mul_comm])

theorem map_word_eq {ws : List UInt32} {t body : List UInt8}
    (h : u32be.encodeAll ws ++ t <+: body) : (List.range ws.length).map (word body) = ws := by
  refine List.ext_getElem (by simp) fun i h₁ h₂ => ?_
  rw [List.getElem_map, List.getElem_range]
  exact word_of_encodeAll h (List.getElem?_eq_getElem h₂)

/-- The planes the linearisation opcodes of a list map: the area of one holds its
first plane and its number of planes. -/
def mappedPlanes (width height : UInt32) (list2 : List UInt8) : Nat :=
  (((each list2).filter (fun op => (accepted width height op).isSome)).map
    (fun op => min ((word op.2 4).toNat + (word op.2 5).toNat) 4)).foldr max 0

/-- The opcodes of the first sixteen gain maps of a list. -/
def gainMapOpcodes (list2 : List UInt8) : List (UInt32 × List UInt8) :=
  ((each list2).filter (fun op => (gainMapOf op).isSome)).take mapsMax

/-- The gains a map's body announces. -/
def gainCount (body : List UInt8) : Nat :=
  (word body 8).toNat * (word body 9).toNat * (word body 18).toNat

/-- The planes of each warp of a list. -/
def warpPlaneCounts (list3 : List UInt8) : List Nat :=
  ((each list3).filter (fun op => (warpOf op).isSome)).map (fun op => (word op.2 0).toNat)

section Budget

variable (Z : Sizes)

/-- The bytes of a gain map on the wire, from its body. -/
def gainMapBudget (body : List UInt8) : Nat :=
  ((List.range 10).map fun i => Z.varint (word body i)).sum + 32 + Z.varint (word body 18) +
    (Z.lengthBytes (gainCount body) + 4 * gainCount body)

/-- The bytes of a warp of `n` planes. -/
def warpBudget : Option Nat → Nat
  | none => 1
  | some n => 1 + (Z.lengthBytes n + 48 * n + 16)

/-- **The bytes the opcodes of two lists take on the wire**: a table of 128 floats
for each mapped plane, the gain maps, a vignette if there is one and the last
warp. -/
def budget (width height : UInt32) (list2 list3 : List UInt8) : Nat :=
  (Z.lengthBytes (mappedPlanes width height list2) +
      mappedPlanes width height list2 * (Z.lengthBytes 128 + 512)) +
    (Z.lengthBytes (gainMapOpcodes list2).length +
      ((gainMapOpcodes list2).map (fun op => gainMapBudget Z op.2)).sum) +
    (if (each list3).any (fun op => (vignetteOf op).isSome) then 1 + 56 else 1) +
    warpBudget Z (warpPlaneCounts list3).getLast?

end Budget

/-! ## The size of what is read -/

/-- What a partial function gives, measured, is what it is given, measured
before. -/
theorem map_filterMap_eq {α β γ : Type} {f : α → Option β} {g : β → γ} {g' : α → γ}
    (h : ∀ a b, f a = some b → g b = g' a) (l : List α) :
    (l.filterMap f).map g = (l.filter (fun a => (f a).isSome)).map g' := by
  induction l with
  | nil => rfl
  | cons a l ih =>
    cases ha : f a with
    | none =>
      rw [List.filterMap_cons_none ha, List.filter_cons_of_neg (by simp [ha]), ih]
    | some b =>
      rw [List.filterMap_cons_some ha, List.filter_cons_of_pos (by simp [ha]), List.map_cons,
        List.map_cons, ih, h a b ha]

theorem foldl_or_eq_getLast? {α β : Type} (f : α → Option β) (l : List α) :
    l.foldl (fun found a => (f a).or found) none = (l.filterMap f).getLast? := by
  induction l using List.reverseRecOn with
  | nil => rfl
  | append_singleton l a ih =>
    rw [List.foldl_append, List.filterMap_append, ih]
    cases ha : f a <;> simp [ha]

/-! ### Tables -/

theorem stop_eq {width height : UInt32} {op : UInt32 × List UInt8} {a : PlaneMapping}
    (h : accepted width height op = some a) :
    a.stop = min ((word op.2 4).toNat + (word op.2 5).toNat) 4 := by
  obtain ⟨-, -, bottom, right, plane, planes, -, ⟨-, hstop⟩, hpre⟩ := accepted_sound h
  have h4 : word op.2 4 = plane := word_of_encodeAll hpre rfl
  have h5 : word op.2 5 = planes := word_of_encodeAll hpre rfl
  rw [hstop, h4, h5]

theorem planeCount_eq (width height : UInt32) (list2 : List UInt8) :
    planeCount ((each list2).filterMap (accepted width height)) =
      mappedPlanes width height list2 := by
  rw [planeCount, mappedPlanes, map_filterMap_eq (fun op a => stop_eq)]

theorem tables_composition (Z : Sizes) {S D : Type} (A : Arithmetic S D)
    (ops : List PlaneMapping) :
    Z.tables (composition A ops) =
      Z.lengthBytes (planeCount ops) + planeCount ops * (Z.lengthBytes 128 + 512) := by
  have hsizes : (composition A ops).map (fun t => Z.lengthBytes t.length + 4 * t.length) =
      List.replicate (planeCount ops) (Z.lengthBytes 128 + 512) := by
    rw [composition, List.map_map]
    refine List.eq_replicate_iff.mpr ⟨by simp, ?_⟩
    intro size hsize
    obtain ⟨p, -, rfl⟩ := List.mem_map.mp hsize
    simp [linearizationPoints]
  rw [Sizes.tables, hsizes, List.sum_replicate, smul_eq_mul]
  simp [composition]

/-! ### Gain maps -/

theorem gainMap_eq {op : UInt32 × List UInt8} {m : GainMap} (Z : Sizes)
    (h : gainMapOf op = some m) : Z.gainMap m = gainMapBudget Z op.2 := by
  obtain ⟨-, hvalid, hpre⟩ := gainMapOf_eq_some_iff.mp h
  rw [GainMap.encode] at hpre
  have hheader : m.area.toList ++ [m.plane, m.planes] ++ m.pitch.toList ++ m.points.toList =
      m.header := by
    rw [← congrArg Vector.toList (vector_four_eq m.area),
      ← congrArg Vector.toList (vector_two_eq m.pitch),
      ← congrArg Vector.toList (vector_two_eq m.points)]
    rfl
  have hwords : (List.range 10).map (fun i => Z.varint (word op.2 i)) = m.header.map Z.varint :=
    (List.map_map (f := word op.2) (g := Z.varint)).symm.trans
      (congrArg (List.map Z.varint) (map_word_eq hpre))
  have h8 : word op.2 8 = m.points[0] := word_of_encodeAll hpre rfl
  have h9 : word op.2 9 = m.points[1] := word_of_encodeAll hpre rfl
  have h18 : word op.2 18 = m.mapPlanes := by
    rw [← List.append_assoc] at hpre
    exact word_of_append hpre (by simp [GainMap.header, GainMap.grid])
  have hcount : gainCount op.2 = m.gains.length := by
    rw [gainCount, h8, h9, h18, hvalid.length_gains]
    rfl
  rw [Sizes.gainMap, gainMapBudget, hheader, hwords, h18, hcount]

theorem gainMaps_eq_budget (Z : Sizes) (list2 : List UInt8) :
    Z.gainMaps (gainMaps list2) = Z.lengthBytes (gainMapOpcodes list2).length +
      ((gainMapOpcodes list2).map (fun op => gainMapBudget Z op.2)).sum := by
  have hmaps : (gainMaps list2).map Z.gainMap =
      (gainMapOpcodes list2).map (fun op => gainMapBudget Z op.2) := by
    rw [gainMaps_eq, gainMapOpcodes, List.map_take, List.map_take]
    exact congrArg (List.take mapsMax)
      (map_filterMap_eq (fun op m => gainMap_eq Z) (each list2))
  have hlen := congrArg List.length hmaps
  rw [List.length_map, List.length_map] at hlen
  rw [Sizes.gainMaps, hmaps, hlen]

theorem gainMaps_le_budget (Z : Sizes) (width height : UInt32) (list2 list3 : List UInt8) :
    Z.gainMaps (gainMaps list2) ≤ budget Z width height list2 list3 := by
  rw [budget, gainMaps_eq_budget]
  omega

/-! ### Lens corrections -/

theorem vignette_eq_budget (list3 : List UInt8) :
    Sizes.vignette (lens list3).1 =
      if (each list3).any (fun op => (vignetteOf op).isSome) then 1 + 56 else 1 := by
  have hsize : ∀ o : Option RadialVignette, Sizes.vignette o = if o.isSome then 1 + 56 else 1 := by
    intro o
    cases o <;> rfl
  have hany : ((each list3).filterMap vignetteOf).getLast?.isSome =
      (each list3).any (fun op => (vignetteOf op).isSome) := by
    rw [Bool.eq_iff_iff]
    simp [Option.isSome_iff_ne_none]
  rw [lens_eq, hsize, foldl_or_eq_getLast?, hany]

theorem warp_eq_budget (Z : Sizes) (list3 : List UInt8) :
    Z.warp (lens list3).2 = warpBudget Z (warpPlaneCounts list3).getLast? := by
  have hplanes : ∀ op w, warpOf op = some w → w.planes.length = (word op.2 0).toNat := by
    intro op w h
    obtain ⟨-, hvalid, hpre⟩ := warpOf_eq_some_iff.mp h
    have h0 : word op.2 0 = UInt32.ofNat w.planes.length :=
      @word_of_append [] _ _ _ 0 hpre rfl
    rw [h0]
    have h4 := hvalid.planes.2
    exact (UInt32.toNat_ofNat_of_lt' (by rw [UInt32.size]; omega)).symm
  have hbudget : ∀ o : Option Warp, Z.warp o = warpBudget Z (o.map fun w => w.planes.length) := by
    intro o
    cases o <;> rfl
  rw [lens_eq, hbudget]
  dsimp only
  rw [foldl_or_eq_getLast?, ← List.getLast?_map, map_filterMap_eq hplanes]
  rfl

/-! ## The reply -/

/-- **Reading the opcodes never panics, changes nothing else, and takes the bytes
of the budget.** -/
theorem readOpcodes_eq (Z : Sizes) {S D : Type} (A : Arithmetic S D) (layout : SensorLayout)
    (list2 list3 : List UInt8) (info : SensorInfo S) :
    ∃ info', readOpcodes A layout (some list2) (some list3) info = some info' ∧
      info'.withoutOpcodes = info.withoutOpcodes ∧
      Z.opcodes info' = budget Z layout.width layout.height list2 list3 := by
  have hread : readOpcodes A layout (some list2) (some list3) info =
      some { info with
        linearization := composition A ((each list2).filterMap (accepted layout.width layout.height))
        gainMaps := gainMaps list2
        radialVignette := (lens list3).1
        warp := (lens list3).2 } := by
    rw [readOpcodes]
    simp only [linearization_eq, Option.map_some]
  refine ⟨_, hread, rfl, ?_⟩
  rw [Sizes.opcodes, budget, tables_composition, planeCount_eq, gainMaps_eq_budget,
    vignette_eq_budget, warp_eq_budget]

/-- **Which lists fit in a reply**: exactly those whose budget, with the rest of
the reply, is at most a message. -/
theorem sensor_reply_fits_iff {S D Fd : Type} (A : Arithmetic S D) (P : Postcard S) (id : UInt64)
    (layout : SensorLayout) (info : SensorInfo S) (micros : UInt64) (list2 list3 : List UInt8)
    (fd : Option Fd) :
    ∃ info', readOpcodes A layout (some list2) (some list3) info = some info' ∧
      (Channel.send P.encode (.sensor id layout info' micros) fd ≠
          .ret (.error .messageTooLarge) ↔
        P.rest id layout info.withoutOpcodes micros +
          budget P.toSizes layout.width layout.height list2 list3 ≤ maxMessageBytes) := by
  obtain ⟨info', hread, hrest, hsize⟩ := readOpcodes_eq P.toSizes A layout list2 list3 info
  refine ⟨info', hread, ?_⟩
  rw [← hrest, ← hsize, ← P.length_sensor, ne_eq, Channel.send_eq_error_iff, Nat.not_lt]

/-! ### A list that does not fit -/

/-- A map of 512 by 512 points over the whole of a small image. -/
def largeMap : GainMap where
  area := #v[0, 0, 512, 512]
  plane := 0
  planes := 1
  pitch := .replicate 2 1
  points := .replicate 2 512
  spacing := .replicate 2 ⟨0⟩
  origin := .replicate 2 ⟨0⟩
  mapPlanes := 1
  gains := List.replicate (2 ^ 18) ⟨0x3F800000⟩

theorem largeMap_valid : largeMap.Valid where
  rows := by decide
  columns := by decide
  plane_lt := by decide
  planes := by decide
  mapPlanes := by decide
  pitch := by
    show ∀ p ∈ Vector.replicate 2 1, 1 ≤ p
    simp
  points := by
    show ∀ n ∈ Vector.replicate 2 512, 1 ≤ n ∧ n ≤ 1024
    simp
  spacing_finite := by decide
  origin_finite := by decide
  spacing_nonneg := by decide
  length_gains := List.length_replicate
  length_le := by
    rw [largeMap, List.length_replicate]
    decide
  gains := by
    intro g hg
    rw [List.eq_of_mem_replicate hg]
    decide

theorem length_gains_largeMap : largeMap.gains.length = 2 ^ 18 := List.length_replicate

theorem length_encode_largeMap : largeMap.encode.length = 76 + 2 ^ 20 := by
  rw [GainMap.length_encode, length_gains_largeMap]
  norm_num

def largeOpcode : Opcode where
  id := gainMapId
  version := 0x01030000
  flags := 0
  body := largeMap.encode
  length_lt := by
    rw [length_encode_largeMap]
    decide

/-- The list of that one opcode. -/
def largeList : List UInt8 := u32be.encode 1 ++ largeOpcode.encode

theorem each_largeList : each largeList = [(gainMapId, largeMap.encode)] := by
  obtain ⟨r, hrest, heach⟩ := each_encode_append 1 largeOpcode.encode
  have hwalk := walk_encode [largeOpcode] 1 (r := r) (t := []) (by simp)
    (by rw [hrest]; simp)
  exact heach.trans hwalk

theorem gainMaps_largeList : gainMaps largeList = [largeMap] := by
  have hmap : gainMapOf (gainMapId, largeMap.encode) = some largeMap :=
    gainMapOf_eq_some_iff.mpr ⟨rfl, largeMap_valid, List.prefix_rfl⟩
  rw [gainMaps_eq, each_largeList, List.filterMap_cons_some hmap]
  rfl

/-- The record of a reply with nothing else in it. -/
def blank : SensorInfo Single where
  origin := .sensor
  scale := ⟨0x3F800000⟩
  bitsPerSample := 16
  cfa := ""
  whiteBalance := #v[⟨0x3F800000⟩, ⟨0x3F800000⟩, ⟨0x3F800000⟩, ⟨0x3F800000⟩]
  blackLevels := []
  whiteLevels := []
  colorMatrices := []
  activeArea := none
  cropArea := none
  orientation := 1
  linearization := []
  gainMaps := []
  radialVignette := none
  warp := none

/-- **A gain map every reader accepts, and no reply can carry**: `2 ^ 18` gains,
a quarter of what the reader allows, already take a whole message.  The rest of
the reply is a few dozen bytes. -/
theorem large_gain_map_is_refused :
    Postcard.wire.rest 1 ⟨512, 512, 1, .u16⟩ blank 0 ≤ 65536 ∧ gainMaps largeList = [largeMap] ∧
    ∀ (D : Type) (A : Arithmetic Single D), ∃ info,
      readOpcodes A ⟨512, 512, 1, .u16⟩ (some largeList) (some []) blank = some info ∧
      Channel.send Postcard.wire.encode (.sensor 1 ⟨512, 512, 1, .u16⟩ info 0) (none : Option Nat) =
        .ret (.error .messageTooLarge) := by
  refine ⟨by decide +kernel, gainMaps_largeList, ?_⟩
  intro D A
  obtain ⟨info, hread, -, hsize⟩ :=
    readOpcodes_eq Postcard.wire.toSizes A ⟨512, 512, 1, .u16⟩ largeList [] blank
  refine ⟨info, hread, (Channel.send_eq_error_iff _ _ _).mpr ?_⟩
  have hle := gainMaps_le_budget Postcard.wire.toSizes 512 512 largeList []
  have hmap : 4 * 2 ^ 18 < Postcard.wire.gainMaps (gainMaps largeList) := by
    have h1 := Postcard.wire.one_le_lengthBytes 1
    rw [gainMaps_largeList, Sizes.gainMaps, List.map_singleton, List.sum_singleton, Sizes.gainMap,
      length_gains_largeMap, List.length_singleton]
    omega
  have hbytes : Postcard.wire.opcodes info = budget Postcard.wire.toSizes 512 512 largeList [] :=
    hsize
  rw [Postcard.wire.length_sensor, hbytes, maxMessageBytes]
  omega

end RawHelper.Decode
