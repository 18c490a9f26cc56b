import RawHelper.Lib.Extended
import RawHelper.Helper.Opcodes
import RawHelper.Protocol.Messages

/-!
# Linearisation tables

The second half of `helper/src/opcodes.rs`: `linearization` composes the
MapPolynomial and MapTable opcodes of OpcodeList2 that cover the whole image into
one table per plane.

The code reads the area and the parameters of each opcode from one reader, the
missing fields of the area as the largest `u32`, and changes the tables in place
as it goes, making one when a plane first needs it.  It has its own copy of the
walk of `each`.

The arithmetic is a parameter: the meaning of the tables is the same whatever
adding and multiplying do.  `Accepts` is the shape of an opcode that counts,
`composition` the tables a list of them stands for, and
`linearization_eq_composition` says that is what the code returns, without an
index out of range.
-/

namespace RawHelper.Linearization

open ByteField Ieee Cursor Opcodes

def mapTableId : UInt32 := 7
def mapPolynomialId : UInt32 := 8

/-- Highest degree a MapPolynomial may have. -/
def degreeMax : UInt32 := 8

/-- Planes a sample may have. -/
def planesMax : UInt32 := 4

/-- The floating-point operations of the code, over `S` for `f32` and `D` for
`f64`.  `ofNat` makes the `f64` of a small integer: a literal, or a `u16`. -/
structure Arithmetic (S D : Type) where
  singleOfNat : Nat → S
  singleDiv : S → S → S
  widen : S → D
  narrow : D → S
  ofBits : Double → D
  ofNat : Nat → D
  add : D → D → D
  mul : D → D → D
  div : D → D → D
  lt : D → D → Bool
  round : D → D
  toUsize : D → Nat

/-! ## The code -/

/-- `u32::saturating_add`. -/
def saturatingAdd (a b : UInt32) : UInt32 := UInt32.ofNat (min (a.toNat + b.toNat) (2 ^ 32 - 1))

/-- The planes an opcode maps, when its area covers the whole image. -/
def wholeImage (width height : UInt32) (r : Reader) : Option (UInt32 × UInt32) × Reader :=
  let (fields, r) := reads Reader.u32 8 r
  match fields.map (fun v => v.getD 0xFFFFFFFF) with
  | [top, left, bottom, right, plane, planes, rowPitch, columnPitch] =>
    if top = 0 && left = 0 && height ≤ bottom && width ≤ right && rowPitch = 1 && columnPitch = 1
        && plane < planesMax && 1 ≤ planes then
      (some (plane, min (saturatingAdd plane planes) planesMax), r)
    else
      (none, r)
  | _ => (none, r)

/-- The coefficients of a MapPolynomial. -/
def coefficients (b : Reader) : Option (List Double) :=
  match b.u32 with
  | (none, _) => none
  | (some degree, b) =>
    if degree ≤ degreeMax then
      match collect Reader.f64 (degree.toNat + 1) b with
      | (none, _) => none
      | (some c, _) => if c.all Double.isFinite then some c else none
    else none

/-- The entries of a MapTable. -/
def entries (b : Reader) : Option (List UInt16) :=
  match b.u32 with
  | (none, _) => none
  | (some n, b) =>
    if 1 ≤ n && n ≤ 65536 then (collect Reader.u16 n.toNat b).1 else none

section Code

variable {S D : Type} (A : Arithmetic S D)

/-- `f64::clamp`. -/
def clamp (x lo hi : D) : D :=
  let x := if A.lt x lo then lo else x
  if A.lt hi x then hi else x

/-- `c.iter().rev().fold(0.0, |sum, k| sum * x + k)`. -/
def horner (c : List Double) (x : D) : D :=
  c.reverse.foldl (fun sum k => A.add (A.mul sum x) (A.ofBits k)) (A.ofNat 0)

def index (table : List UInt16) (x : D) : Nat :=
  min (A.toUsize (A.round (A.mul x (A.ofNat 65535)))) (table.length - 1)

/-- The entry a sample selects; `none` is an index out of range. -/
def lookup (table : List UInt16) (x : D) : Option D :=
  table[index A table x]?.map (fun v => A.div (A.ofNat v.toNat) (A.ofNat 65535))

/-- The identity at a table's `i`th point. -/
def point (i : Nat) : S := A.singleDiv (A.singleOfNat i) (A.singleOfNat (linearizationPoints - 1))

def identity : List S := (List.range linearizationPoints).map (point A)

def mapValue (map : D → Option D) (v : S) : Option S :=
  (map (A.widen v)).map (fun y => A.narrow (clamp A y (A.ofNat 0) (A.ofNat 1)))

/-- One turn of the loop of `apply`; `none` is an index out of range. -/
def applyPlane (map : D → Option D) (tables : List (List S)) (plane : Nat) :
    Option (List (List S)) :=
  -- `tables.resize(plane + 1, identity.to_vec())`
  let tables := if tables.length ≤ plane then
    tables ++ List.replicate (plane + 1 - tables.length) (identity A) else tables
  match tables[plane]? with
  | none => none
  | some table => (table.mapM (mapValue A map)).map (fun table => tables.set plane table)

/-- Maps the tables of `planes` through `map`. -/
def apply (planes : UInt32 × UInt32) (map : D → Option D) (tables : List (List S)) :
    Option (List (List S)) :=
  (List.range' planes.1.toNat (planes.2.toNat - planes.1.toNat)).foldlM (applyPlane A map) tables

/-- What the loop does with one opcode; `some tables` is a `continue`. -/
def mapOpcode (width height : UInt32) (tables : List (List S)) (op : UInt32 × List UInt8) :
    Option (List (List S)) :=
  let b := Reader.start op.2
  if op.1 = mapPolynomialId then
    match wholeImage width height b with
    | (none, _) => some tables
    | (some planes, b) =>
      match coefficients b with
      | none => some tables
      | some c => apply A planes (fun x => some (horner A c x)) tables
  else if op.1 = mapTableId then
    match wholeImage width height b with
    | (none, _) => some tables
    | (some planes, b) =>
      match entries b with
      | none => some tables
      | some table => apply A planes (lookup A table) tables
  else some tables

/-- The loop over the list, with `count` turns left. -/
def mapOpcodes (width height : UInt32) : Nat → Reader → List (List S) → Option (List (List S))
  | 0, _, tables => some tables
  | count + 1, r, tables =>
    match opcodeHeader r with
    | (none, _) => some tables
    | (some (id, _version, _flags, size), r) =>
      match r.take size.toNat with
      | (none, _) => some tables
      | (some body, r) =>
        match mapOpcode A width height tables (id, body) with
        | none => none
        | some tables => mapOpcodes width height count r tables

/-- The linearisation of an image of `width` × `height` samples by the opcode
`list`; `none` is a panic. -/
def linearization (list : List UInt8) (width height : UInt32) : Option (List (List S)) :=
  match (Reader.start list).u32 with
  | (none, _) => some []
  | (some count, r) => mapOpcodes A width height count.toNat r []

end Code

/-! ## What an opcode means -/

/-- A mapping of the values between 0 and 1, as an opcode stores it. -/
inductive Mapping where
  | polynomial (c : List Double)
  | table (t : List UInt16)

namespace Mapping

def id : Mapping → UInt32
  | polynomial _ => mapPolynomialId
  | table _ => mapTableId

/-- Complete and legal parameters. -/
def Legal : Mapping → Prop
  | polynomial c => 1 ≤ c.length ∧ c.length ≤ 9 ∧ ∀ v ∈ c, v.isFinite
  | table t => 1 ≤ t.length ∧ t.length ≤ 65536

def encode : Mapping → List UInt8
  | polynomial c => u32be.encode (UInt32.ofNat (c.length - 1)) ++ f64be.encodeAll c
  | table t => u32be.encode (UInt32.ofNat t.length) ++ u16be.encodeAll t

/-- The value before it is clipped. -/
def eval {S D : Type} (A : Arithmetic S D) : Mapping → D → D
  | polynomial c, x => horner A c x
  | table t, x => A.div (A.ofNat (t.getD (index A t x) 0).toNat) (A.ofNat 65535)

end Mapping

/-- The planes `plane .. stop` and what they are mapped through. -/
structure PlaneMapping where
  plane : Nat
  stop : Nat
  mapping : Mapping

namespace PlaneMapping

def covers (a : PlaneMapping) (p : Nat) : Prop := a.plane ≤ p ∧ p < a.stop

instance (a : PlaneMapping) (p : Nat) : Decidable (a.covers p) := by
  unfold covers; infer_instance

def map {S D : Type} (A : Arithmetic S D) (a : PlaneMapping) (v : S) : S :=
  A.narrow (clamp A (a.mapping.eval A (A.widen v)) (A.ofNat 0) (A.ofNat 1))

end PlaneMapping

/-- The fields of an area, in the order they are stored. -/
def area (bottom right plane planes : UInt32) : List UInt32 :=
  [0, 0, bottom, right, plane, planes, 1, 1]

/-- The opcode maps the planes `a.plane .. a.stop` of the whole image through
`a.mapping`: its body starts with an area that covers the image and with complete
and legal parameters. -/
def Accepts (width height : UInt32) (op : UInt32 × List UInt8) (a : PlaneMapping) : Prop :=
  op.1 = a.mapping.id ∧ a.mapping.Legal ∧
    ∃ bottom right plane planes : UInt32,
      (height ≤ bottom ∧ width ≤ right ∧ plane < 4 ∧ 1 ≤ planes) ∧
      (a.plane = plane.toNat ∧ a.stop = min (plane.toNat + planes.toNat) 4) ∧
      u32be.encodeAll (area bottom right plane planes) ++ a.mapping.encode <+: op.2

/-- One past the last plane any of the mappings covers. -/
def planeCount (ops : List PlaneMapping) : Nat := (ops.map PlaneMapping.stop).foldr max 0

/-- The value of the table of plane `p` at its `i`th point: `i / 127`, through
every mapping that covers the plane, in order. -/
def value {S D : Type} (A : Arithmetic S D) (ops : List PlaneMapping) (p i : Nat) : S :=
  ops.foldl (fun v a => if a.covers p then a.map A v else v) (point A i)

/-- **The tables a list of mappings stands for.** -/
def composition {S D : Type} (A : Arithmetic S D) (ops : List PlaneMapping) : List (List S) :=
  (List.range (planeCount ops)).map fun p =>
    (List.range linearizationPoints).map fun i => value A ops p i

/-! ## Reading an opcode -/

theorem u32_fixed (s s' : Reader) (h : s.u32 = (none, s')) : s' = s := by
  rw [Reader.u32, Reader.field] at h
  by_cases hlen : u32be.width ≤ s.rest.length
  · obtain ⟨s₁, ht, -⟩ := Reader.take_of_le hlen
    rw [ht] at h
    simp at h
  · rw [Reader.take_of_lt (Nat.not_le.mp hlen)] at h
    exact (Prod.mk.inj h).2.symm

theorem toNat_saturatingAdd_min (a b : UInt32) :
    (min (saturatingAdd a b) planesMax).toNat = min (a.toNat + b.toNat) 4 := by
  have hsat : (saturatingAdd a b).toNat = min (a.toNat + b.toNat) (2 ^ 32 - 1) :=
    UInt32.toNat_ofNat_of_lt' (by rw [UInt32.size]; omega)
  have h4 : planesMax.toNat = 4 := rfl
  rw [UInt32.min_def]
  split
  · next h =>
    rw [UInt32.le_iff_toNat_le, hsat, h4] at h
    omega
  · next h =>
    rw [UInt32.le_iff_toNat_le, hsat, h4] at h
    omega

/-- The missing fields of an area end with its last one, and a missing pitch is
not 1. -/
theorem wholeImage_sound {width height : UInt32} {r r' : Reader} {p : UInt32 × UInt32}
    (h : wholeImage width height r = (some p, r')) :
    ∃ bottom right plane planes : UInt32,
      (height ≤ bottom ∧ width ≤ right ∧ plane < 4 ∧ 1 ≤ planes) ∧
      (p.1.toNat = plane.toNat ∧ p.2.toNat = min (plane.toNat + planes.toNat) 4) ∧
      r.rest = u32be.encodeAll (area bottom right plane planes) ++ r'.rest := by
  rw [wholeImage] at h
  rcases hreads : reads Reader.u32 8 r with ⟨fields, r₁⟩
  simp only [hreads] at h
  split at h
  · next top left bottom right plane planes rowPitch columnPitch heq =>
    split at h
    · next hwhole =>
      simp only [Bool.and_eq_true, decide_eq_true_eq] at hwhole
      obtain ⟨⟨⟨⟨⟨⟨⟨rfl, rfl⟩, hbottom⟩, hright⟩, rfl⟩, rfl⟩, hplane⟩, hplanes⟩ := hwhole
      obtain ⟨hp, rfl⟩ := Prod.mk.inj h
      obtain rfl := Option.some.inj hp
      have hlast : fields.getLast? = some (some 1) := by
        have hl := congrArg List.getLast? heq
        rw [List.getLast?_map] at hl
        obtain ⟨x, hx, hx1⟩ := Option.map_eq_some_iff.mp hl
        cases x with
        | none => cases hx1
        | some x => rw [hx]; exact congrArg (fun y => some (some y)) hx1
      obtain ⟨as, has⟩ := exists_reads_eq_some u32_fixed 8 r 1 (by rw [hreads]; exact hlast)
      rw [hreads] at has
      obtain rfl : fields = as.map some := has
      rw [List.map_map] at heq
      obtain rfl : as = [0, 0, bottom, right, plane, planes, 1, 1] := by simpa using heq
      obtain ⟨-, -, hrest⟩ := Reader.u32_decodes.reads_sound _ hreads
      exact ⟨bottom, right, plane, planes, ⟨hbottom, hright, hplane, hplanes⟩,
        ⟨rfl, toNat_saturatingAdd_min plane planes⟩, hrest⟩
    · cases h
  · cases h

theorem wholeImage_complete {width height bottom right plane planes : UInt32} {r : Reader}
    {t : List UInt8} (hbottom : height ≤ bottom) (hright : width ≤ right) (hplane : plane < 4)
    (hplanes : 1 ≤ planes)
    (hr : r.rest = u32be.encodeAll (area bottom right plane planes) ++ t) :
    ∃ (p : UInt32 × UInt32) (r' : Reader), wholeImage width height r = (some p, r') ∧
      (p.1.toNat = plane.toNat ∧ p.2.toNat = min (plane.toNat + planes.toNat) 4) ∧
      r'.rest = t := by
  obtain ⟨r', hreads, hrest⟩ :=
    Reader.u32_decodes.reads_complete (area bottom right plane planes) (by simp) hr
  have hreads' : reads Reader.u32 8 r = ((area bottom right plane planes).map some, r') := hreads
  have hlt : plane < planesMax := hplane
  refine ⟨(plane, min (saturatingAdd plane planes) planesMax), r', ?_,
    ⟨rfl, toNat_saturatingAdd_min plane planes⟩, hrest⟩
  rw [wholeImage, hreads']
  simp [area, hbottom, hright, hlt, hplanes]

theorem coefficients_eq_some_iff {b : Reader} {c : List Double} :
    coefficients b = some c ↔
      (Mapping.polynomial c).Legal ∧ (Mapping.polynomial c).encode <+: b.rest := by
  constructor
  · intro h
    rw [coefficients] at h
    split at h
    · cases h
    · next degree b₁ hdegree =>
      obtain ⟨-, hrest⟩ := Reader.u32_decodes.sound hdegree
      split at h
      · next hmax =>
        split at h
        · cases h
        · next c' b₂ hc =>
          split at h
          · next hall =>
            obtain rfl := Option.some.inj h
            obtain ⟨⟨hlen, -⟩, hrest₁⟩ := (Reader.f64_decodes.collect _).sound hc
            have hmax' : degree.toNat ≤ 8 := UInt32.le_iff_toNat_le.mp hmax
            refine ⟨⟨by omega, by omega, by simpa using hall⟩, b₂.rest, ?_⟩
            rw [hrest, hrest₁, Mapping.encode, hlen, Nat.add_sub_cancel, UInt32.ofNat_toNat,
              List.append_assoc]
            rfl
          · cases h
      · cases h
  · rintro ⟨⟨h1, h9, hfinite⟩, t, ht⟩
    rw [Mapping.encode, List.append_assoc] at ht
    obtain ⟨b₁, hdegree, hb₁⟩ := Reader.u32_decodes.complete trivial ht.symm
    have hn : (UInt32.ofNat (c.length - 1)).toNat = c.length - 1 :=
      UInt32.toNat_ofNat_of_lt' (by rw [UInt32.size]; omega)
    have hmax : UInt32.ofNat (c.length - 1) ≤ degreeMax := by
      rw [UInt32.le_iff_toNat_le, hn]
      exact Nat.sub_le_of_le_add h9
    obtain ⟨b₂, hc, -⟩ := (Reader.f64_decodes.collect ((c.length - 1) + 1)).complete
      ⟨by omega, by simp⟩ hb₁
    have hall : c.all Double.isFinite = true := by simpa using hfinite
    rw [coefficients, hdegree]
    simp only [if_pos hmax, hn, hc, hall, if_true]

theorem entries_eq_some_iff {b : Reader} {t : List UInt16} :
    entries b = some t ↔ (Mapping.table t).Legal ∧ (Mapping.table t).encode <+: b.rest := by
  constructor
  · intro h
    rw [entries] at h
    split at h
    · cases h
    · next n b₁ hn =>
      obtain ⟨-, hrest⟩ := Reader.u32_decodes.sound hn
      split at h
      · next hmax =>
        rcases hc : collect Reader.u16 n.toNat b₁ with ⟨t', b₂⟩
        rw [hc] at h
        obtain rfl : t' = some t := h
        obtain ⟨⟨hlen, -⟩, hrest₁⟩ := (Reader.u16_decodes.collect _).sound hc
        simp only [Bool.and_eq_true, decide_eq_true_eq, UInt32.le_iff_toNat_le] at hmax
        refine ⟨⟨hlen ▸ hmax.1, hlen ▸ hmax.2⟩, b₂.rest, ?_⟩
        rw [hrest, hrest₁, Mapping.encode, hlen, UInt32.ofNat_toNat, List.append_assoc]
        rfl
      · cases h
  · rintro ⟨⟨h1, hmax⟩, rest, hrest⟩
    rw [Mapping.encode, List.append_assoc] at hrest
    obtain ⟨b₁, hn, hb₁⟩ := Reader.u32_decodes.complete trivial hrest.symm
    have hlen : (UInt32.ofNat t.length).toNat = t.length :=
      UInt32.toNat_ofNat_of_lt' (by rw [UInt32.size]; omega)
    have hlegal : (1 ≤ UInt32.ofNat t.length && UInt32.ofNat t.length ≤ 65536) = true := by
      simp only [Bool.and_eq_true, decide_eq_true_eq, UInt32.le_iff_toNat_le, hlen]
      exact ⟨h1, hmax⟩
    obtain ⟨b₂, hc, -⟩ := (Reader.u16_decodes.collect t.length).complete ⟨rfl, by simp⟩ hb₁
    rw [entries, hn]
    simp only [if_pos hlegal, hlen, hc]

/-- What the opcode is read as. -/
def accepted (width height : UInt32) (op : UInt32 × List UInt8) : Option PlaneMapping :=
  match wholeImage width height (.start op.2) with
  | (none, _) => none
  | (some (plane, stop), b) =>
    if op.1 = mapPolynomialId then
      (coefficients b).map fun c => ⟨plane.toNat, stop.toNat, .polynomial c⟩
    else if op.1 = mapTableId then
      (entries b).map fun t => ⟨plane.toNat, stop.toNat, .table t⟩
    else none

theorem accepted_sound {width height : UInt32} {op : UInt32 × List UInt8} {a : PlaneMapping}
    (h : accepted width height op = some a) : Accepts width height op a := by
  unfold accepted at h
  split at h
  · cases h
  · next plane stop b hwhole =>
    obtain ⟨bottom, right, plane', planes, hfields, hrange, hrest⟩ := wholeImage_sound hwhole
    rw [Reader.rest_start] at hrest
    split at h
    · next hid =>
      obtain ⟨c, hc, rfl⟩ := Option.map_eq_some_iff.mp h
      obtain ⟨hlegal, hpre⟩ := coefficients_eq_some_iff.mp hc
      refine ⟨hid, hlegal, bottom, right, plane', planes, hfields, hrange, ?_⟩
      rw [hrest]
      exact (List.prefix_append_right_inj _).mpr hpre
    · split at h
      · next hid =>
        obtain ⟨t, ht, rfl⟩ := Option.map_eq_some_iff.mp h
        obtain ⟨hlegal, hpre⟩ := entries_eq_some_iff.mp ht
        refine ⟨hid, hlegal, bottom, right, plane', planes, hfields, hrange, ?_⟩
        rw [hrest]
        exact (List.prefix_append_right_inj _).mpr hpre
      · cases h

theorem accepted_complete {width height : UInt32} {op : UInt32 × List UInt8} {a : PlaneMapping}
    (h : Accepts width height op a) : accepted width height op = some a := by
  obtain ⟨hid, hlegal, bottom, right, plane, planes, ⟨hbottom, hright, hplane, hplanes⟩,
    ⟨hp, hs⟩, t, ht⟩ := h
  rw [List.append_assoc] at ht
  obtain ⟨p, b, hwhole, ⟨hp', hs'⟩, hb⟩ := wholeImage_complete hbottom hright hplane hplanes
    (r := .start op.2) ht.symm
  obtain ⟨aplane, astop, mapping⟩ := a
  obtain rfl : aplane = p.1.toNat := hp.trans hp'.symm
  obtain rfl : astop = p.2.toNat := hs.trans hs'.symm
  have hpre : mapping.encode <+: b.rest := ⟨t, hb.symm⟩
  unfold accepted
  rw [hwhole]
  cases mapping with
  | polynomial c =>
    have hc := coefficients_eq_some_iff.mpr ⟨hlegal, hpre⟩
    have hid' : op.1 = mapPolynomialId := hid
    simp only [if_pos hid', hc, Option.map_some]
  | table e =>
    have he := entries_eq_some_iff.mpr ⟨hlegal, hpre⟩
    have hid' : op.1 = mapTableId := hid
    have hne : op.1 ≠ mapPolynomialId := by rw [hid']; decide
    simp only [if_neg hne, if_pos hid', he, Option.map_some]

theorem accepted_eq_some_iff {width height : UInt32} {op : UInt32 × List UInt8}
    {a : PlaneMapping} : accepted width height op = some a ↔ Accepts width height op a :=
  ⟨accepted_sound, accepted_complete⟩

/-! ## Mapping the tables -/

section Mapping

variable {S D : Type} (A : Arithmetic S D)

/-- Tables for the planes below `n`. -/
def tablesOf (n : Nat) (f : Nat → List S) : List (List S) := (List.range n).map f

/-- A table through a mapping, clipped. -/
def mapped (g : D → D) (table : List S) : List S :=
  table.map fun v => A.narrow (clamp A (g (A.widen v)) (A.ofNat 0) (A.ofNat 1))

/-- The lookups of a legal table are never out of range. -/
theorem lookup_eq {t : List UInt16} (ht : 1 ≤ t.length) (x : D) :
    lookup A t x = some ((Mapping.table t).eval A x) := by
  have hlt : index A t x < t.length := by
    rw [index]
    omega
  rw [lookup, Mapping.eval, List.getElem?_eq_getElem hlt, List.getD_eq_getElem?_getD,
    List.getElem?_eq_getElem hlt]
  rfl

theorem mapM_mapValue (g : D → D) (table : List S) :
    table.mapM (mapValue A (fun x => some (g x))) = some (mapped A g table) :=
  List.mapM_pure

theorem tablesOf_resize {n : Nat} {f : Nat → List S} (hf : ∀ p, n ≤ p → f p = identity A)
    {m : Nat} (h : n ≤ m) :
    tablesOf n f ++ List.replicate (m - n) (identity A) = tablesOf m f := by
  obtain ⟨k, rfl⟩ := Nat.exists_eq_add_of_le h
  rw [tablesOf, tablesOf, List.range_add, List.map_append, Nat.add_sub_cancel_left, List.map_map]
  congr 1
  refine (List.eq_replicate_iff.mpr ⟨by simp, ?_⟩).symm
  intro table htable
  obtain ⟨p, -, rfl⟩ := List.mem_map.mp htable
  exact hf (n + p) (Nat.le_add_right n p)

/-- **One plane is mapped**, and every plane below it has a table from then on. -/
theorem applyPlane_tablesOf (g : D → D) {n : Nat} {f : Nat → List S}
    (hf : ∀ p, n ≤ p → f p = identity A) (plane : Nat) :
    applyPlane A (fun x => some (g x)) (tablesOf n f) plane =
      some (tablesOf (max n (plane + 1)) fun p => if p = plane then mapped A g (f p) else f p) := by
  have hresize : (if (tablesOf n f).length ≤ plane then
      tablesOf n f ++ List.replicate (plane + 1 - (tablesOf n f).length) (identity A)
      else tablesOf n f) = tablesOf (max n (plane + 1)) f := by
    have hlen : (tablesOf n f).length = n := by simp [tablesOf]
    rw [hlen]
    split
    · rw [tablesOf_resize A hf (by omega), Nat.max_eq_right (by omega)]
    · rw [Nat.max_eq_left (by omega)]
  have hget : (tablesOf (max n (plane + 1)) f)[plane]? = some (f plane) := by
    simp [tablesOf]
  rw [applyPlane]
  simp only [hresize, hget, mapM_mapValue, Option.map_some]
  congr 1
  refine List.ext_getElem (by simp [tablesOf]) fun p h₁ h₂ => ?_
  rw [List.getElem_set]
  by_cases hp : plane = p
  · subst hp
    simp [tablesOf]
  · rw [if_neg hp]
    simp [tablesOf, Ne.symm hp]

theorem foldlM_applyPlane (g : D → D) {n : Nat} {f : Nat → List S}
    (hf : ∀ p, n ≤ p → f p = identity A) (first : Nat) : ∀ k : Nat,
    (List.range' first (k + 1)).foldlM (applyPlane A fun x => some (g x)) (tablesOf n f) =
      some (tablesOf (max n (first + k + 1)) fun p =>
        if first ≤ p ∧ p < first + k + 1 then mapped A g (f p) else f p) := by
  intro k
  induction k with
  | zero =>
    have h := applyPlane_tablesOf A g hf first
    have hp : ∀ p, (first ≤ p ∧ p < first + 0 + 1) = (p = first) := fun p => by
      rw [eq_iff_iff]; omega
    simp only [hp, Nat.add_zero]
    simpa using h
  | succ k ih =>
    have hf' : ∀ p, max n (first + k + 1) ≤ p →
        (if first ≤ p ∧ p < first + k + 1 then mapped A g (f p) else f p) = identity A := by
      intro p hp
      rw [if_neg (by omega), hf p (by omega)]
    have h := applyPlane_tablesOf A g hf' (first + (k + 1))
    have hmax : max (max n (first + k + 1)) (first + (k + 1) + 1) = max n (first + (k + 1) + 1) := by
      omega
    rw [List.range'_concat, List.foldlM_append, ih, Nat.one_mul]
    simp only [Option.bind_eq_bind, Option.bind_some, List.foldlM_cons, List.foldlM_nil, h, hmax]
    congr 2
    funext p
    by_cases hp : p = first + (k + 1)
    · rw [if_pos hp, if_neg (by omega), if_pos (by omega)]
    · rw [if_neg hp]
      have : (first ≤ p ∧ p < first + k + 1) ↔ (first ≤ p ∧ p < first + (k + 1) + 1) := by omega
      simp only [this]

/-- **The planes of a range are mapped**, each once. -/
theorem apply_tablesOf (g : D → D) {n : Nat} {f : Nat → List S}
    (hf : ∀ p, n ≤ p → f p = identity A) (planes : UInt32 × UInt32)
    (h : planes.1.toNat < planes.2.toNat) :
    apply A planes (fun x => some (g x)) (tablesOf n f) =
      some (tablesOf (max n planes.2.toNat) fun p =>
        if planes.1.toNat ≤ p ∧ p < planes.2.toNat then mapped A g (f p) else f p) := by
  obtain ⟨k, hk⟩ := Nat.exists_eq_add_of_lt h
  have hlen : planes.1.toNat + k + 1 - planes.1.toNat = k + 1 := by omega
  rw [apply, hk, hlen]
  exact foldlM_applyPlane A g hf planes.1.toNat k

end Mapping

/-! ## The composition -/

section Composition

variable {S D : Type} (A : Arithmetic S D)

theorem planeCount_append (ops : List PlaneMapping) (a : PlaneMapping) :
    planeCount (ops ++ [a]) = max (planeCount ops) a.stop := by
  induction ops with
  | nil => simp [planeCount]
  | cons b ops ih =>
    have hcons : ∀ l, planeCount (b :: l) = max b.stop (planeCount l) := fun l => rfl
    rw [List.cons_append, hcons, hcons, ih, Nat.max_assoc]

theorem value_append (ops : List PlaneMapping) (a : PlaneMapping) (p i : Nat) :
    value A (ops ++ [a]) p i =
      if a.covers p then a.map A (value A ops p i) else value A ops p i := by
  rw [value, List.foldl_append]
  rfl

/-- A plane no mapping covers keeps the identity. -/
theorem value_of_planeCount_le {ops : List PlaneMapping} {p : Nat} (h : planeCount ops ≤ p)
    (i : Nat) : value A ops p i = point A i := by
  induction ops using List.reverseRecOn with
  | nil => rfl
  | append_singleton ops a ih =>
    rw [planeCount_append] at h
    have hcovers : ¬ a.covers p := by
      rw [PlaneMapping.covers]
      omega
    rw [value_append, if_neg hcovers, ih (by omega)]

/-- The composition with one more mapping. -/
theorem apply_composition {a : PlaneMapping} {planes : UInt32 × UInt32}
    (hplane : a.plane = planes.1.toNat) (hstop : a.stop = planes.2.toNat) (h : a.plane < a.stop)
    (ops : List PlaneMapping) :
    apply A planes (fun x => some (a.mapping.eval A x)) (composition A ops) =
      some (composition A (ops ++ [a])) := by
  have hid : ∀ p, planeCount ops ≤ p →
      ((List.range linearizationPoints).map fun i => value A ops p i) = identity A := by
    intro p hp
    rw [identity]
    exact List.map_congr_left fun i _ => value_of_planeCount_le A hp i
  have happly := apply_tablesOf A (a.mapping.eval A) hid planes
    (by rw [← hplane, ← hstop]; exact h)
  rw [← hplane, ← hstop] at happly
  refine happly.trans ?_
  rw [composition, planeCount_append]
  congr 1
  refine List.map_congr_left fun p _ => ?_
  by_cases hp : a.covers p
  · have hp' : a.plane ≤ p ∧ p < a.stop := hp
    simp only [value_append, if_pos hp, if_pos hp', mapped, List.map_map]
    rfl
  · have hp' : ¬ (a.plane ≤ p ∧ p < a.stop) := hp
    simp only [value_append, if_neg hp, if_neg hp']

theorem Accepts.plane_lt_stop {width height : UInt32} {op : UInt32 × List UInt8}
    {a : PlaneMapping} (h : Accepts width height op a) : a.plane < a.stop := by
  obtain ⟨-, -, _, _, plane, planes, ⟨-, -, hplane, hplanes⟩, ⟨hp, hs⟩, -⟩ := h
  rw [UInt32.lt_iff_toNat_lt] at hplane
  rw [UInt32.le_iff_toNat_le] at hplanes
  have h4 : (4 : UInt32).toNat = 4 := rfl
  have h1 : (1 : UInt32).toNat = 1 := rfl
  omega

/-- What the loop does with an opcode, with the reading apart from the mapping. -/
theorem mapOpcode_eq (width height : UInt32) (tables : List (List S)) (op : UInt32 × List UInt8) :
    (accepted width height op = none ∧ mapOpcode A width height tables op = some tables) ∨
    ∃ (a : PlaneMapping) (planes : UInt32 × UInt32),
      accepted width height op = some a ∧
      (a.plane = planes.1.toNat ∧ a.stop = planes.2.toNat) ∧
      mapOpcode A width height tables op =
        apply A planes (fun x => some (a.mapping.eval A x)) tables := by
  unfold accepted mapOpcode
  rcases hwhole : wholeImage width height (.start op.2) with ⟨_ | planes, b⟩
  · refine Or.inl ⟨rfl, ?_⟩
    dsimp only
    rw [hwhole]
    split
    · rfl
    · split <;> rfl
  · dsimp only
    rw [hwhole]
    dsimp only
    split
    · cases coefficients b with
      | none => exact Or.inl ⟨rfl, rfl⟩
      | some c => exact Or.inr ⟨_, planes, rfl, ⟨rfl, rfl⟩, rfl⟩
    · split
      · cases ht : entries b with
        | none => exact Or.inl ⟨rfl, rfl⟩
        | some t =>
          have hlegal := (entries_eq_some_iff.mp ht).1
          refine Or.inr ⟨_, planes, rfl, ⟨rfl, rfl⟩, ?_⟩
          exact congrArg (fun map => apply A planes map tables) (funext (lookup_eq A hlegal.1))
      · exact Or.inl ⟨rfl, rfl⟩

theorem mapOpcode_composition (width height : UInt32) (ops : List PlaneMapping)
    (op : UInt32 × List UInt8) :
    mapOpcode A width height (composition A ops) op =
      some (composition A (ops ++ (accepted width height op).toList)) := by
  rcases mapOpcode_eq A width height (composition A ops) op with
    ⟨hnone, heq⟩ | ⟨a, planes, hsome, ⟨hplane, hstop⟩, heq⟩
  · rw [heq, hnone, Option.toList_none, List.append_nil]
  · have hlt := (accepted_sound hsome).plane_lt_stop
    rw [heq, hsome, Option.toList_some, apply_composition A hplane hstop hlt]

/-- **The loop visits the opcodes of `walk`.** -/
theorem mapOpcodes_composition (width height : UInt32) :
    ∀ (count : Nat) (r : Reader) (ops : List PlaneMapping),
      mapOpcodes A width height count r (composition A ops) =
        some (composition A (ops ++ (walk count r).filterMap (accepted width height))) := by
  intro count
  induction count with
  | zero => intro r ops; simp [mapOpcodes, walk]
  | succ count ih =>
    intro r ops
    rw [mapOpcodes, walk]
    rcases hheader : opcodeHeader r with ⟨_ | ⟨id, version, flags, size⟩, r₁⟩
    · simp
    · rcases hbody : r₁.take size.toNat with ⟨_ | body, r₂⟩
      · simp [hbody]
      · simp only [hbody, mapOpcode_composition, ih]
        cases h : accepted width height (id, body) with
        | none => rw [List.filterMap_cons_none h]; simp
        | some a => rw [List.filterMap_cons_some h]; simp

theorem linearization_eq (list : List UInt8) (width height : UInt32) :
    linearization A list width height =
      some (composition A ((each list).filterMap (accepted width height))) := by
  rw [linearization, each]
  rcases (Reader.start list).u32 with ⟨_ | count, r⟩
  · rfl
  · exact mapOpcodes_composition A width height count.toNat r []

end Composition

/-! ## Exact arithmetic -/

/-- The operations on rationals, without rounding; the casts saturate. -/
def exact : Arithmetic ℚ ℚ where
  singleOfNat n := n
  singleDiv := (· / ·)
  widen := id
  narrow := id
  ofBits := Double.toRat
  ofNat n := n
  add := (· + ·)
  mul := (· * ·)
  div := (· / ·)
  lt p q := p < q
  round q := Extended.roundHalfAway q
  toUsize := Extended.saturate 64

theorem horner_eq_foldr {S D : Type} (A : Arithmetic S D) (c : List Double) (x : D) :
    horner A c x = c.foldr (fun k sum => A.add (A.mul sum x) (A.ofBits k)) (A.ofNat 0) :=
  List.foldl_reverse

theorem horner_exact (c : List Double) (x : ℚ) :
    horner exact c x = ∑ k : Fin c.length, (c.get k).toRat * x ^ (k : ℕ) := by
  rw [horner_eq_foldr]
  induction c with
  | nil => rfl
  | cons k c ih =>
    have hstep : (k :: c).foldr (fun k sum => exact.add (exact.mul sum x) (exact.ofBits k))
        (exact.ofNat 0) = (∑ j : Fin c.length, (c.get j).toRat * x ^ (j : ℕ)) * x + k.toRat := by
      rw [List.foldr_cons, ih]
      rfl
    have hsum : (∑ j : Fin (k :: c).length, ((k :: c).get j).toRat * x ^ (j : ℕ)) =
        k.toRat + ∑ j : Fin c.length, (c.get j).toRat * x ^ ((j : ℕ) + 1) := by
      have := Fin.sum_univ_succ fun j : Fin (k :: c).length => ((k :: c).get j).toRat * x ^ (j : ℕ)
      simpa using this
    rw [hstep, hsum, Finset.sum_mul, add_comm]
    simp only [pow_succ, mul_assoc]

theorem clamp_exact (x : ℚ) : clamp exact x 0 1 = max 0 (min x 1) := by
  have hlt : ∀ p q : ℚ, exact.lt p q = true ↔ p < q := fun p q => decide_eq_true_iff
  rw [clamp]
  simp only [hlt]
  by_cases h0 : x < 0
  · rw [if_pos h0, if_neg (by norm_num), min_eq_left (by linarith), max_eq_left (by linarith)]
  · rw [if_neg h0]
    by_cases h1 : 1 < x
    · rw [if_pos h1, min_eq_right h1.le, max_eq_right (by norm_num)]
    · rw [if_neg h1, min_eq_left (not_lt.mp h1), max_eq_right (not_lt.mp h0)]

open Classical in
/-- **The linearisation is the plain composition of the accepted opcodes.**  For
any arithmetic: the opcodes that count are the ones of `each` whose body starts
with a whole-image area and legal parameters, in order; the tables are those of
their composition, and no index is out of range.  When the arithmetic is exact, a
point starts at `i / 127`, a polynomial is its sum and the clipping is to
`[0, 1]`. -/
theorem linearization_eq_composition :
    (∀ (S D : Type) (A : Arithmetic S D) (list : List UInt8) (width height : UInt32),
      ∃ ops : List PlaneMapping,
        List.Forall₂ (Accepts width height)
          ((each list).filter (fun op => ∃ a, Accepts width height op a)) ops ∧
        linearization A list width height = some (composition A ops)) ∧
    (∀ i : ℕ, point exact i = i / 127) ∧
    (∀ (a : PlaneMapping) (v : ℚ), a.map exact v = max 0 (min (a.mapping.eval exact v) 1)) ∧
    (∀ (c : List Double) (x : ℚ), (Mapping.polynomial c).eval exact x =
      ∑ k : Fin c.length, (c.get k).toRat * x ^ (k : ℕ)) ∧
    (∀ (t : List UInt16) (x : ℚ), (Mapping.table t).eval exact x =
      (t.getD (min (Extended.saturate 64 (Extended.roundHalfAway (x * 65535))) (t.length - 1))
        0).toNat / 65535) := by
  refine ⟨?_, fun i => rfl, ?_, horner_exact, fun t x => rfl⟩
  · intro S D A list width height
    exact ⟨_, forall₂_filterMap (fun op a => accepted_eq_some_iff) (each list),
      linearization_eq A list width height⟩
  · intro a v
    have h0 : exact.ofNat 0 = 0 := Nat.cast_zero
    have h1 : exact.ofNat 1 = 1 := Nat.cast_one
    rw [PlaneMapping.map, h0, h1, clamp_exact]
    rfl

end RawHelper.Linearization
