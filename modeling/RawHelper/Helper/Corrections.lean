import RawHelper.Helper.Opcodes
import RawHelper.Protocol.Messages

/-!
# Gain maps

The first half of `helper/src/corrections.rs`: `gain_maps` reads the GainMap
opcodes of OpcodeList2 (lens shading, over the samples before demosaicing).

`gain_map` reads all its header fields before it checks any, and a read that
fails does not advance, so a truncated body may let a later, shorter read succeed
at the wrong place.  No such body is accepted: `gainMap_sound` says what is
accepted starts with the encoding of a valid map, and `gainMap_encode` that every
such body is.  `gainMaps_exact` puts the two together with the walk over the list.
-/

namespace RawHelper.Corrections

open ByteField Ieee Cursor Opcodes

def gainMapId : UInt32 := 9

/-- Planes a sample may have. -/
def planesMax : UInt32 := 4

/-- Points of a gain map in each direction, its values in all, and maps in a list. -/
def pointsMax : UInt32 := 1024
def valuesMax : Nat := 2 ^ 20
def mapsMax : Nat := 16

/-! ## Gain maps -/

/-- The checks on a gain map's fields, before its gains are read. -/
def gainMapValid (area : Vector UInt32 4) (plane planes : UInt32) (pitch points : Vector UInt32 2)
    (spacing origin : Vector Double 2) (mapPlanes : UInt32) : Bool :=
  area[0] < area[2] && area[1] < area[3] && plane < planesMax
    && (1 ≤ planes && planes ≤ planesMax)
    && pitch.all (fun p => 1 ≤ p)
    && points.all (fun n => 1 ≤ n && n ≤ pointsMax)
    && (1 ≤ mapPlanes && mapPlanes ≤ planesMax)
    && (spacing.all Double.isFinite && origin.all Double.isFinite)
    && spacing.all Double.geZero

/-- What follows the reads of the fields: the checks, the gains and theirs. -/
def gainMapGains (area : Vector UInt32 4) (plane planes : UInt32) (pitch points : Vector UInt32 2)
    (spacing origin : Vector Double 2) (mapPlanes : UInt32) (r : Reader) : Option GainMap :=
  if !gainMapValid area plane planes pitch points spacing origin mapPlanes then
    none
  else
    -- the factors are checked above, so the product of `u64` does not wrap
    let count := points[0].toNat * points[1].toNat * mapPlanes.toNat
    if valuesMax < count then
      none
    else
      match collect Reader.f32 count r with
      | (none, _) => none
      | (some gains, _) =>
        if gains.all (fun v => v.isFinite && v.geZero) then
          some { area, plane, planes, pitch, points, spacing, origin, mapPlanes, gains }
        else
          none

-- the `?` of the source come after the reads of an array, so one that fails does
-- not end them; with a field missing, what is read later changes nothing
def gainMap (body : List UInt8) : Option GainMap :=
  let (head, r) := reads Reader.u32 10 (.start body)
  let (grid, r) := reads Reader.f64 4 r
  let (mapPlanes, r) := r.u32
  match head, grid, mapPlanes with
  | [some top, some left, some bottom, some right, some plane, some planes, some rowPitch,
      some columnPitch, some pointsV, some pointsH],
    [some spacingV, some spacingH, some originV, some originH], some mapPlanes =>
    gainMapGains #v[top, left, bottom, right] plane planes #v[rowPitch, columnPitch]
      #v[pointsV, pointsH] #v[spacingV, spacingH] #v[originV, originH] mapPlanes r
  | _, _, _ => none

/-- The gain maps of OpcodeList2. -/
def gainMaps (list : List UInt8) : List GainMap :=
  (((each list).filter (fun op => op.1 = gainMapId)).filterMap (fun op => gainMap op.2)).take mapsMax

end RawHelper.Corrections

namespace RawHelper.GainMap

open ByteField Ieee

/-! ### Valid maps and their encoding -/

/-- How many gains the grid of a map calls for. -/
def count (m : GainMap) : Nat := m.points[0].toNat * m.points[1].toNat * m.mapPlanes.toNat

/-- A map whose fields make sense and whose gains fill its grid. -/
structure Valid (m : GainMap) : Prop where
  rows : m.area[0] < m.area[2]
  columns : m.area[1] < m.area[3]
  plane_lt : m.plane < 4
  planes : 1 ≤ m.planes ∧ m.planes ≤ 4
  mapPlanes : 1 ≤ m.mapPlanes ∧ m.mapPlanes ≤ 4
  pitch : ∀ p ∈ m.pitch, 1 ≤ p
  points : ∀ n ∈ m.points, 1 ≤ n ∧ n ≤ 1024
  spacing_finite : ∀ x ∈ m.spacing, x.isFinite
  origin_finite : ∀ x ∈ m.origin, x.isFinite
  spacing_nonneg : ∀ x ∈ m.spacing, x.geZero
  length_gains : m.gains.length = m.count
  length_le : m.gains.length ≤ 2 ^ 20
  gains : ∀ g ∈ m.gains, g.isFinite ∧ g.geZero

/-- The eight fields of the area and planes, and the two point counts. -/
def header (m : GainMap) : List UInt32 :=
  [m.area[0], m.area[1], m.area[2], m.area[3], m.plane, m.planes, m.pitch[0], m.pitch[1],
    m.points[0], m.points[1]]

def grid (m : GainMap) : List Double :=
  [m.spacing[0], m.spacing[1], m.origin[0], m.origin[1]]

/-- The big-endian layout of the DNG specification. -/
def encode (m : GainMap) : List UInt8 :=
  u32be.encodeAll m.header ++ (f64be.encodeAll m.grid ++
    (u32be.encode m.mapPlanes ++ f32be.encodeAll m.gains))

theorem length_encode (m : GainMap) : m.encode.length = 76 + 4 * m.gains.length := by
  simp only [encode, List.length_append, Codec.length_encodeAll, Codec.length_encode, u32be_width,
    f64be_width, f32be_width, header, grid, List.length_cons, List.length_nil]
  omega

end RawHelper.GainMap

namespace RawHelper.Corrections

open ByteField Ieee Cursor Opcodes

theorem vector_two_eq {α : Type} (v : Vector α 2) : #v[v[0], v[1]] = v := by
  ext i hi
  interval_cases i <;> rfl

theorem vector_four_eq {α : Type} (v : Vector α 4) : #v[v[0], v[1], v[2], v[3]] = v := by
  ext i hi
  interval_cases i <;> rfl

/-- The checks are those of `GainMap.Valid` that do not look at the gains. -/
theorem gainMapValid_iff (m : GainMap) :
    gainMapValid m.area m.plane m.planes m.pitch m.points m.spacing m.origin m.mapPlanes = true ↔
      m.area[0] < m.area[2] ∧ m.area[1] < m.area[3] ∧ m.plane < 4 ∧
      (1 ≤ m.planes ∧ m.planes ≤ 4) ∧ (∀ p ∈ m.pitch, 1 ≤ p) ∧
      (∀ n ∈ m.points, 1 ≤ n ∧ n ≤ 1024) ∧ (1 ≤ m.mapPlanes ∧ m.mapPlanes ≤ 4) ∧
      ((∀ x ∈ m.spacing, x.isFinite) ∧ (∀ x ∈ m.origin, x.isFinite)) ∧
      (∀ x ∈ m.spacing, x.geZero) := by
  simp only [gainMapValid, Bool.and_eq_true, decide_eq_true_eq, Vector.all_eq_true_iff_forall_mem,
    and_assoc]
  exact Iff.rfl

/-- What the last stage accepts is a valid map, its gains at the reader. -/
theorem gainMapGains_sound {area : Vector UInt32 4} {plane planes : UInt32}
    {pitch points : Vector UInt32 2} {spacing origin : Vector Double 2} {mapPlanes : UInt32}
    {r : Reader} {m : GainMap}
    (h : gainMapGains area plane planes pitch points spacing origin mapPlanes r = some m) :
    ∃ (gains : List Single) (t : List UInt8),
      m = ⟨area, plane, planes, pitch, points, spacing, origin, mapPlanes, gains⟩ ∧ m.Valid ∧
        r.rest = f32be.encodeAll gains ++ t := by
  rw [gainMapGains] at h
  by_cases hv : gainMapValid area plane planes pitch points spacing origin mapPlanes = true
  · rw [if_neg (by simp [hv])] at h
    simp only at h
    split at h
    · cases h
    · next hcount =>
      split at h
      · cases h
      · next gains r' hc =>
        split at h
        · next hall =>
          obtain rfl := Option.some.inj h
          obtain ⟨⟨hlen, -⟩, hrest⟩ := (Reader.f32_decodes.collect _).sound hc
          obtain ⟨h1, h2, h3, h4, h5, h6, h7, h8, h9⟩ :=
            (gainMapValid_iff ⟨area, plane, planes, pitch, points, spacing, origin, mapPlanes,
              gains⟩).mp hv
          refine ⟨gains, r'.rest, rfl, ?_, hrest⟩
          exact
            { rows := h1, columns := h2, plane_lt := h3, planes := h4, pitch := h5, points := h6
              mapPlanes := h7, spacing_finite := h8.1, origin_finite := h8.2
              spacing_nonneg := h9, length_gains := hlen
              length_le := by
                simp only [hlen]
                exact Nat.not_lt.mp hcount
              gains := by simpa using hall }
        · cases h
  · rw [if_pos (by simpa using hv)] at h
    cases h

theorem gainMapGains_complete {m : GainMap} (hm : m.Valid) {r : Reader} {t : List UInt8}
    (hr : r.rest = f32be.encodeAll m.gains ++ t) :
    gainMapGains m.area m.plane m.planes m.pitch m.points m.spacing m.origin m.mapPlanes r
      = some m := by
  have hv := (gainMapValid_iff m).mpr ⟨hm.rows, hm.columns, hm.plane_lt, hm.planes, hm.pitch,
    hm.points, hm.mapPlanes, ⟨hm.spacing_finite, hm.origin_finite⟩, hm.spacing_nonneg⟩
  have hcount : ¬ valuesMax < m.points[0].toNat * m.points[1].toNat * m.mapPlanes.toNat := by
    have h1 := hm.length_le
    rw [hm.length_gains] at h1
    exact Nat.not_lt.mpr h1
  have hgains : m.gains.all (fun v => v.isFinite && v.geZero) = true := by simpa using hm.gains
  obtain ⟨r', hc, -⟩ := (Reader.f32_decodes.collect m.count).complete
    ⟨hm.length_gains, by simp⟩ hr
  have hcollect : collect Reader.f32
      (m.points[0].toNat * m.points[1].toNat * m.mapPlanes.toNat) r = (some m.gains, r') := hc
  rw [gainMapGains, hv]
  simp [hcount, hcollect, hgains]

/-- **`gain_map` reads back every valid map**, whatever follows it. -/
theorem gainMap_encode {m : GainMap} (hm : m.Valid) (t : List UInt8) :
    gainMap (m.encode ++ t) = some m := by
  have hbody : (Reader.start (m.encode ++ t)).rest = u32be.encodeAll m.header ++
      (f64be.encodeAll m.grid ++ (u32be.encode m.mapPlanes ++ (f32be.encodeAll m.gains ++ t))) := by
    simp [GainMap.encode]
  obtain ⟨r₁, hhead, hr₁⟩ := Reader.u32_decodes.reads_complete m.header (by simp) hbody
  obtain ⟨r₂, hgrid, hr₂⟩ := Reader.f64_decodes.reads_complete m.grid (by simp) hr₁
  obtain ⟨r₃, hplanes, hr₃⟩ := Reader.u32_decodes.complete trivial hr₂
  have hhead' : reads Reader.u32 10 (.start (m.encode ++ t)) = (m.header.map some, r₁) := hhead
  have hgrid' : reads Reader.f64 4 r₁ = (m.grid.map some, r₂) := hgrid
  rw [gainMap]
  simp only [hhead', hgrid', hplanes, GainMap.header, GainMap.grid, List.map_cons, List.map_nil,
    vector_two_eq, vector_four_eq]
  exact gainMapGains_complete hm hr₃

/-- **What `gain_map` accepts is the encoding of a valid map**, up to a tail. -/
theorem gainMap_sound {body : List UInt8} {m : GainMap} (h : gainMap body = some m) :
    m.Valid ∧ ∃ t, body = m.encode ++ t := by
  rw [gainMap] at h
  rcases hhead : reads Reader.u32 10 (.start body) with ⟨head, r₁⟩
  rcases hgrid : reads Reader.f64 4 r₁ with ⟨grid, r₂⟩
  rcases hplanes : r₂.u32 with ⟨mapPlanes, r₃⟩
  simp only [hhead, hgrid, hplanes] at h
  split at h
  · next top left bottom right plane planes rowPitch columnPitch pointsV pointsH
      spacingV spacingH originV originH mapPlanes =>
    obtain ⟨gains, t, rfl, hm, hr₃⟩ := gainMapGains_sound h
    obtain ⟨-, -, hr₀⟩ := Reader.u32_decodes.reads_sound
      [top, left, bottom, right, plane, planes, rowPitch, columnPitch, pointsV, pointsH] hhead
    obtain ⟨-, -, hr₁⟩ := Reader.f64_decodes.reads_sound
      [spacingV, spacingH, originV, originH] hgrid
    obtain ⟨-, hr₂⟩ := Reader.u32_decodes.sound hplanes
    rw [hr₁, hr₂, hr₃, Reader.rest_start] at hr₀
    refine ⟨hm, t, ?_⟩
    rw [hr₀]
    simp [GainMap.encode, GainMap.header, GainMap.grid, Codec.encodeAll]
  · cases h

theorem gainMap_eq_some_iff {body : List UInt8} {m : GainMap} :
    gainMap body = some m ↔ m.Valid ∧ m.encode <+: body := by
  constructor
  · intro h
    obtain ⟨hm, t, rfl⟩ := gainMap_sound h
    exact ⟨hm, List.prefix_append _ _⟩
  · rintro ⟨hm, t, rfl⟩
    exact gainMap_encode hm t

/-! ### The maps of a list -/

/-- The opcode is a GainMap whose body starts with the encoding of the valid map. -/
def IsGainMap (op : UInt32 × List UInt8) (m : GainMap) : Prop :=
  op.1 = gainMapId ∧ m.Valid ∧ m.encode <+: op.2

/-- The gain map an opcode holds. -/
def gainMapOf (op : UInt32 × List UInt8) : Option GainMap :=
  if op.1 = gainMapId then gainMap op.2 else none

theorem gainMapOf_eq_some_iff {op : UInt32 × List UInt8} {m : GainMap} :
    gainMapOf op = some m ↔ IsGainMap op m := by
  rw [gainMapOf, IsGainMap]
  split
  · next hid => rw [gainMap_eq_some_iff]; simp [hid]
  · next hid => simp [hid]

theorem gainMaps_eq (list : List UInt8) :
    gainMaps list = ((each list).filterMap gainMapOf).take mapsMax := by
  have hof : gainMapOf = fun op => if op.1 = gainMapId then gainMap op.2 else none := rfl
  rw [gainMaps, List.filterMap_filter, hof]
  simp

open Classical in
/-- **`gain_map` accepts exactly the encodings of valid maps and `gain_maps`
loses none**: it returns the first sixteen maps of the opcodes that hold one. -/
theorem gainMaps_exact :
    (∀ (m : GainMap) (t : List UInt8), m.Valid → gainMap (m.encode ++ t) = some m) ∧
    (∀ (body : List UInt8) (m : GainMap), gainMap body = some m → m.Valid ∧ m.encode <+: body) ∧
    (∀ list : List UInt8, ∃ maps : List GainMap,
      List.Forall₂ IsGainMap ((each list).filter (fun op => ∃ m, IsGainMap op m)) maps ∧
        gainMaps list = maps.take 16) := by
  refine ⟨fun m t hm => gainMap_encode hm t, fun body m => gainMap_eq_some_iff.mp, ?_⟩
  intro list
  exact ⟨_, forall₂_filterMap (fun op m => gainMapOf_eq_some_iff) (each list), gainMaps_eq list⟩

/-- A map of one point whose gain is 1. -/
def unitMap : GainMap where
  area := #v[0, 0, 1, 1]
  plane := 0
  planes := 1
  pitch := #v[1, 1]
  points := #v[1, 1]
  spacing := #v[⟨0⟩, ⟨0⟩]
  origin := #v[⟨0⟩, ⟨0⟩]
  mapPlanes := 1
  gains := [⟨0x3F800000⟩]

theorem unitMap_valid : unitMap.Valid where
  rows := by decide
  columns := by decide
  plane_lt := by decide
  planes := by decide
  mapPlanes := by decide
  pitch := by simp [unitMap]
  points := by simp [unitMap]
  spacing_finite := by decide
  origin_finite := by decide
  spacing_nonneg := by decide
  length_gains := rfl
  length_le := by decide
  gains := by decide

theorem gainMaps_exact_unitMap :
    gainMap (unitMap.encode ++ [7]) = some unitMap ∧ unitMap.encode <+: unitMap.encode ++ [7] :=
  have h := gainMaps_exact.1 unitMap [7] unitMap_valid
  ⟨h, (gainMaps_exact.2.1 _ unitMap h).2⟩

end RawHelper.Corrections
