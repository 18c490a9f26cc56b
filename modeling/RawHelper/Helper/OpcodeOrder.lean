import RawHelper.Helper.Decode
import RawHelper.Lib.Trace

/-!
# The order of opcodes

What a reply says of a DNG's opcode lists depends on the order of few of them.
`linearization` and `gain_maps` each walk OpcodeList2 and `lens` walks OpcodeList3
(`sensor` in `helper/src/decode.rs` calls all three): the mappings of one plane
are composed, the gain maps are kept in order, the last vignette and the last warp
count.

So two opcodes of a list may change places unless they map a common plane or are
of one kind (`List2.Independent`, `List3.Independent`), and an opcode that no
reader of its list accepts may be left out (`List2.Ignored`, `List3.Ignored`).
Lists are the same *trace* when any number of such steps takes one to the other;
`opcodes_reordered` says that `readOpcodes` does not tell them apart, whatever
their versions and flags are and whatever bytes follow them.
-/

namespace RawHelper.Decode

open ByteField Ieee Opcodes Corrections Linearization

/-! ## A list of opcodes -/

/-- The bytes of a list: the count, then each opcode. -/
def encodeList (ops : List Opcode) : List UInt8 :=
  u32be.encode (UInt32.ofNat ops.length) ++ ops.flatMap Opcode.encode

theorem each_encodeList {ops : List Opcode} (h : ops.length < 2 ^ 32) (t : List UInt8) :
    each (encodeList ops ++ t) = ops.map Opcode.entry := by
  have hcount : (UInt32.ofNat ops.length).toNat = ops.length := UInt32.toNat_ofNat_of_lt' h
  unfold encodeList
  rw [List.append_assoc]
  obtain ⟨r, hrest, heach⟩ :=
    each_encode_append (UInt32.ofNat ops.length) (ops.flatMap Opcode.encode ++ t)
  rw [heach, walk_encode ops _ (by rw [hcount]) hrest, hcount, List.take_length]

/-! ## OpcodeList2 -/

namespace List2

/-- The opcodes do not map a common plane, and they are not both gain maps. -/
structure Independent (width height : UInt32) (a b : UInt32 × List UInt8) : Prop where
  planes : ∀ m n, accepted width height a = some m → accepted width height b = some n →
    ∀ p, m.covers p → ¬ n.covers p
  gainMap : gainMapOf a = none ∨ gainMapOf b = none

/-- The opcode is neither a mapping of the whole image nor a gain map. -/
structure Ignored (width height : UInt32) (a : UInt32 × List UInt8) : Prop where
  planes : accepted width height a = none
  gainMap : gainMapOf a = none

/-- The same trace of OpcodeList2, for an image of these sides. -/
def Same (width height : UInt32) : List (UInt32 × List UInt8) → List (UInt32 × List UInt8) → Prop :=
  Trace.Equiv (Independent width height) (Ignored width height)

variable {width height : UInt32} {a b : UInt32 × List UInt8}

theorem accepted_of_id (hp : a.1 ≠ mapPolynomialId) (ht : a.1 ≠ mapTableId) :
    accepted width height a = none := by
  unfold accepted
  split
  · rfl
  · rw [if_neg hp, if_neg ht]

theorem gainMapOf_of_id (h : a.1 ≠ gainMapId) : gainMapOf a = none := by
  rw [gainMapOf, if_neg h]

theorem ignored_of_id (hp : a.1 ≠ mapPolynomialId) (ht : a.1 ≠ mapTableId)
    (hg : a.1 ≠ gainMapId) : Ignored width height a :=
  ⟨accepted_of_id hp ht, gainMapOf_of_id hg⟩

/-- A gain map may change places with any opcode of another kind. -/
theorem independent_gainMap (ha : a.1 = gainMapId) (hb : b.1 ≠ gainMapId) :
    Independent width height a b where
  planes := by
    intro m n hm
    rw [accepted_of_id (by rw [ha]; decide) (by rw [ha]; decide)] at hm
    cases hm
  gainMap := Or.inr (gainMapOf_of_id hb)

end List2

section Composition

variable {S D : Type} (A : Arithmetic S D)

theorem planeCount_eq_foldl (ops : List PlaneMapping) :
    planeCount ops = ops.foldl (fun n a => max n a.stop) 0 := by
  induction ops using List.reverseRecOn with
  | nil => rfl
  | append_singleton ops a ih =>
    rw [planeCount_append, ih, List.foldl_append]
    rfl

/-- **The tables depend on the trace only.**  How many there are is a maximum, and a
plane is mapped by the opcodes that cover it, of which no two are independent. -/
theorem List2.Same.composition_eq {width height : UInt32} {l l' : List (UInt32 × List UInt8)}
    (h : List2.Same width height l l') :
    composition A (l.filterMap (accepted width height)) =
      composition A (l'.filterMap (accepted width height)) := by
  have hcount : planeCount (l.filterMap (accepted width height)) =
      planeCount (l'.filterMap (accepted width height)) := by
    rw [planeCount_eq_foldl, planeCount_eq_foldl]
    refine h.foldl_filterMap_eq ?_ (fun a ha => ha.planes) 0
    intro a b _ x y _ _ n
    show max (max n x.stop) y.stop = max (max n y.stop) x.stop
    omega
  have hvalue : ∀ p i, value A (l.filterMap (accepted width height)) p i =
      value A (l'.filterMap (accepted width height)) p i := by
    intro p i
    refine h.foldl_filterMap_eq ?_ (fun a ha => ha.planes) (point A i)
    intro a b hab x y hx hy v
    by_cases hp : x.covers p
    · have hq : ¬ y.covers p := hab.planes x y hx hy p hp
      simp only [if_pos hp, if_neg hq]
    · simp only [if_neg hp]
  unfold composition
  rw [hcount]
  simp only [hvalue]

theorem List2.Same.gainMaps_eq {width height : UInt32} {list list' : List UInt8}
    (h : List2.Same width height (each list) (each list')) : gainMaps list = gainMaps list' := by
  rw [Corrections.gainMaps_eq, Corrections.gainMaps_eq,
    h.filterMap_eq (fun a b hab => hab.gainMap) (fun a ha => ha.gainMap)]

end Composition

/-! ## OpcodeList3 -/

namespace List3

/-- The opcodes are not both vignettes, and not both warps. -/
structure Independent (a b : UInt32 × List UInt8) : Prop where
  vignette : vignetteOf a = none ∨ vignetteOf b = none
  warp : warpOf a = none ∨ warpOf b = none

/-- The opcode is neither a vignette nor a warp. -/
structure Ignored (a : UInt32 × List UInt8) : Prop where
  vignette : vignetteOf a = none
  warp : warpOf a = none

/-- The same trace of OpcodeList3. -/
def Same : List (UInt32 × List UInt8) → List (UInt32 × List UInt8) → Prop :=
  Trace.Equiv Independent Ignored

variable {a b : UInt32 × List UInt8}

theorem vignetteOf_of_id (h : a.1 ≠ fixVignetteRadial) : vignetteOf a = none := by
  rw [vignetteOf, if_neg h]

theorem warpOf_of_id (h : a.1 ≠ warpRectilinear) : warpOf a = none := by
  rw [warpOf, if_neg h]

theorem ignored_of_id (hv : a.1 ≠ fixVignetteRadial) (hw : a.1 ≠ warpRectilinear) : Ignored a :=
  ⟨vignetteOf_of_id hv, warpOf_of_id hw⟩

/-- Opcodes of different kinds may change places. -/
theorem independent_of_id (h : a.1 ≠ b.1) : Independent a b := by
  by_cases hv : a.1 = fixVignetteRadial
  · have hw : a.1 ≠ warpRectilinear := by rw [hv]; decide
    exact ⟨Or.inr (vignetteOf_of_id (by rw [← hv]; exact h.symm)), Or.inl (warpOf_of_id hw)⟩
  · by_cases hw : a.1 = warpRectilinear
    · exact ⟨Or.inl (vignetteOf_of_id hv), Or.inr (warpOf_of_id (by rw [← hw]; exact h.symm))⟩
    · exact ⟨Or.inl (vignetteOf_of_id hv), Or.inl (warpOf_of_id hw)⟩

theorem Same.lens_eq {list list' : List UInt8} (h : Same (each list) (each list')) :
    lens list = lens list' := by
  rw [Corrections.lens_eq, Corrections.lens_eq]
  simp only [foldl_or_eq_getLast?]
  rw [h.filterMap_eq (fun a b hab => hab.vignette) (fun a ha => ha.vignette),
    h.filterMap_eq (fun a b hab => hab.warp) (fun a ha => ha.warp)]

end List3

/-! ## Both -/

theorem readOpcodes_congr {S D : Type} (A : Arithmetic S D) (layout : SensorLayout)
    (info : SensorInfo S) {list2 list2' list3 list3' : List UInt8}
    (h2 : List2.Same layout.width layout.height (each list2) (each list2'))
    (h3 : List3.Same (each list3) (each list3')) :
    readOpcodes A layout (some list2) (some list3) info =
      readOpcodes A layout (some list2') (some list3') info := by
  unfold readOpcodes
  simp only [linearization_eq, h2.composition_eq A, h2.gainMaps_eq, h3.lens_eq]

/-- **The order of independent opcodes does not matter**, and what no reader accepts
does not either: lists of the same traces are read into the same record, for any
arithmetic, whatever the versions and flags of their opcodes and whatever bytes
follow them. -/
theorem opcodes_reordered {S D : Type} (A : Arithmetic S D) (layout : SensorLayout)
    (info : SensorInfo S) (ops2 ops2' ops3 ops3' : List Opcode) (t2 t2' t3 t3' : List UInt8)
    (hlength : ∀ ops ∈ [ops2, ops2', ops3, ops3'], ops.length < 2 ^ 32)
    (h2 : List2.Same layout.width layout.height (ops2.map Opcode.entry) (ops2'.map Opcode.entry))
    (h3 : List3.Same (ops3.map Opcode.entry) (ops3'.map Opcode.entry)) :
    readOpcodes A layout (some (encodeList ops2 ++ t2)) (some (encodeList ops3 ++ t3)) info =
      readOpcodes A layout (some (encodeList ops2' ++ t2')) (some (encodeList ops3' ++ t3')) info := by
  apply readOpcodes_congr
  · rw [each_encodeList (hlength ops2 (by simp)), each_encodeList (hlength ops2' (by simp))]
    exact h2
  · rw [each_encodeList (hlength ops3 (by simp)), each_encodeList (hlength ops3' (by simp))]
    exact h3

/-- An opcode of each kind, and one of no kind; the mapping is constant. -/
def constantOpcode : Opcode :=
  ⟨mapPolynomialId, 0x01030000, 1, u32be.encodeAll (area 1 1 0 1) ++
    (Mapping.polynomial [⟨0⟩]).encode, by decide +kernel⟩

def unitOpcode (version : UInt32) : Opcode :=
  ⟨gainMapId, version, 0, unitMap.encode, by rw [GainMap.length_encode]; decide⟩

def otherOpcode : Opcode := ⟨2, 0, 0, [1, 2, 3], by decide⟩

def vignetteOpcode : Opcode := ⟨fixVignetteRadial, 0, 0, List.replicate 56 0, by decide⟩

def warpOpcode : Opcode :=
  ⟨warpRectilinear, 0, 0, u32be.encode 1 ++ List.replicate 64 0, by decide +kernel⟩

theorem opcodes_reordered_kinds :
    readOpcodes exact ⟨1, 1, 1, .u16⟩
        (some (encodeList [constantOpcode, otherOpcode, unitOpcode 0] ++ []))
        (some (encodeList [warpOpcode, vignetteOpcode] ++ [])) (.default 0) =
      readOpcodes exact ⟨1, 1, 1, .u16⟩
        (some (encodeList [unitOpcode 0x01030000, constantOpcode] ++ [7]))
        (some (encodeList [vignetteOpcode, warpOpcode] ++ [7, 7])) (.default 0) := by
  refine opcodes_reordered exact ⟨1, 1, 1, .u16⟩ (.default 0) _ _ _ _ [] [7] [] [7, 7]
    (by decide) ?_ ?_
  · have hskip : Trace.Step (List2.Independent 1 1) (List2.Ignored 1 1)
        [constantOpcode.entry, otherOpcode.entry, (unitOpcode 0).entry]
        [constantOpcode.entry, (unitOpcode 0).entry] :=
      .skip [constantOpcode.entry] _ _ (List2.ignored_of_id (by decide) (by decide) (by decide))
    have hswap : Trace.Step (List2.Independent 1 1) (List2.Ignored 1 1)
        [(unitOpcode 0).entry, constantOpcode.entry]
        [constantOpcode.entry, (unitOpcode 0).entry] :=
      .swap [] [] _ _ (List2.independent_gainMap rfl (by decide))
    exact .trans _ _ _ (.rel _ _ hskip) (.symm _ _ (.rel _ _ hswap))
  · exact .rel _ _ (.swap [] [] warpOpcode.entry vignetteOpcode.entry
      (List3.independent_of_id (by decide)))

end RawHelper.Decode
