import RawHelper.Lib.Counting
import RawHelper.Helper.Lens
import RawHelper.Helper.Linearization

/-!
# What a list costs

A list of opcodes is untrusted, and the counts it announces may be anything: how
many opcodes there are, how many entries a table has, how many gains a map.  The
readers of `helper/src/opcodes.rs` and `helper/src/corrections.rs` are fuzzed for
hangs and for memory (`fuzz/fuzz_targets/opcodes.rs`).

`eachCounted` and `linearizationCounted` are `each` and `linearization` with a counter,
for the turns of their loop and for the values that go through a mapping.
`opcodes_bounded` bounds by the bytes of the list what a list can cost: these two, and
the tables, coefficients and gains that are read.
-/

namespace RawHelper.Opcodes

open ByteField Ieee Cursor Counting

/-! ## The loop -/

/-- Turns of a loop over a list, and values that go through a mapping. -/
abbrev Cost := Nat × Nat

def oneTurn : Cost := (1, 0)

def oneValue : Cost := (0, 1)

/-- `walk`, counting its turns. -/
def walkCounted : Nat → Reader → Count Cost (List (UInt32 × List UInt8))
  | 0, _ => return []
  | count + 1, r => do
    spend oneTurn
    match opcodeHeader r with
    | (none, _) => return []
    | (some (id, _version, _flags, size), r) =>
      match r.take size.toNat with
      | (none, _) => return []
      | (some body, r) => do
        let ops ← walkCounted count r
        return (id, body) :: ops

/-- `each`, counting its turns. -/
def eachCounted (list : List UInt8) : Count Cost (List (UInt32 × List UInt8)) :=
  match (Reader.start list).u32 with
  | (none, _) => return []
  | (some count, r) => walkCounted count.toNat r

/-- What a turn takes that goes on to the next. -/
theorem length_rest_of_turn {r r₁ r₂ : Reader} {id version flags size : UInt32}
    {body : List UInt8} (hheader : opcodeHeader r = (some (id, version, flags, size), r₁))
    (hbody : r₁.take size.toNat = (some body, r₂)) :
    r.rest.length = 16 + body.length + r₂.rest.length := by
  obtain ⟨-, hrest⟩ := opcodeHeader_decodes.sound hheader
  obtain ⟨-, hrest₁⟩ := (Reader.take_decodes size.toNat).sound hbody
  rw [hrest, hrest₁]
  simp
  omega

/-- **Every turn but the last takes a whole header.** -/
theorem walkCounted_within : ∀ (count : Nat) (r : Reader),
    Within (walkCounted count r) (some (walk count r)) (r.rest.length / 16 + 1, 0) := by
  intro count
  induction count with
  | zero => intro r; exact (within_pure []).mono zero_le
  | succ count ih =>
    intro r
    rw [walkCounted, walk]
    have hturn : oneTurn ≤ (r.rest.length / 16 + 1, 0) := ⟨Nat.le_add_left 1 _, le_rfl⟩
    rcases hheader : opcodeHeader r with ⟨_ | ⟨id, version, flags, size⟩, r₁⟩
    · exact ((within_pure []).spend oneTurn).mono (by rwa [add_zero])
    · dsimp only
      rcases hbody : r₁.take size.toNat with ⟨_ | body, r₂⟩
      · exact ((within_pure []).spend oneTurn).mono (by rwa [add_zero])
      · have hlen := length_rest_of_turn hheader hbody
        refine (((ih r₂).map ((id, body) :: ·)).spend oneTurn).mono ⟨?_, le_rfl⟩
        show 1 + (r₂.rest.length / 16 + 1) ≤ r.rest.length / 16 + 1
        omega

theorem eachCounted_within (list : List UInt8) :
    Within (eachCounted list) (some (each list)) (list.length / 16 + 1, 0) := by
  rw [eachCounted, each]
  rcases hcount : (Reader.start list).u32 with ⟨_ | count, r⟩
  · exact (within_pure []).mono zero_le
  · obtain ⟨-, hrest⟩ := Reader.u32_decodes.sound hcount
    have hlen := congrArg List.length hrest
    rw [Reader.rest_start, List.length_append] at hlen
    refine (walkCounted_within count.toNat r).mono ⟨?_, le_rfl⟩
    show r.rest.length / 16 + 1 ≤ list.length / 16 + 1
    omega

/-! ## The opcodes -/

/-- The bytes opcodes take in a list. -/
def weight (ops : List (UInt32 × List UInt8)) : Nat := (ops.map fun op => 16 + op.2.length).sum

theorem weight_entries (ops : List Opcode) :
    weight (ops.map Opcode.entry) = (ops.flatMap Opcode.encode).length := by
  induction ops with
  | nil => rfl
  | cons op ops ih =>
    rw [List.flatMap_cons, List.length_append, op.length_encode, ← ih]
    rfl

/-- **The opcodes of a list fit in it.** -/
theorem weight_each_le (list : List UInt8) : weight (each list) ≤ list.length := by
  by_cases hlen : list.length < 4
  · rw [each_of_short hlen]
    exact Nat.zero_le _
  · obtain ⟨count, body, rfl⟩ := exists_count (not_lt.mp hlen)
    obtain ⟨r, hrest, heach⟩ := each_encode_append count body
    obtain ⟨ops, tail, hops, htail, -⟩ := walk_longest count.toNat r
    rw [heach, hops, weight_entries, ← hrest, htail, List.length_append, List.length_append]
    omega

/-- What is read of opcodes, measured, is at most the opcodes, when each part is. -/
theorem sum_filterMap_le {β : Type} {f : UInt32 × List UInt8 → Option β} {g : β → Nat} {k : Nat}
    (h : ∀ op b, f op = some b → g b ≤ k * (16 + op.2.length))
    (ops : List (UInt32 × List UInt8)) : ((ops.filterMap f).map g).sum ≤ k * weight ops := by
  induction ops with
  | nil => exact Nat.zero_le _
  | cons op ops ih =>
    have hweight : weight (op :: ops) = 16 + op.2.length + weight ops := rfl
    rw [hweight, Nat.mul_add]
    cases hop : f op with
    | none =>
      rw [List.filterMap_cons_none hop]
      omega
    | some b =>
      have := h op b hop
      rw [List.filterMap_cons_some hop, List.map_cons, List.sum_cons]
      omega

end RawHelper.Opcodes

namespace RawHelper.Linearization

open ByteField Ieee Opcodes Counting

/-! ## The mappings -/

/-- The parameters of a mapping, in bytes. -/
def Mapping.size : Mapping → Nat
  | polynomial c => 4 + 8 * c.length
  | table t => 4 + 2 * t.length

theorem Mapping.length_encode (m : Mapping) : m.encode.length = m.size := by
  cases m with
  | polynomial c =>
    show (u32be.encode (UInt32.ofNat (c.length - 1)) ++ f64be.encodeAll c).length = 4 + 8 * c.length
    simp [Nat.mul_comm]
  | table t =>
    show (u32be.encode (UInt32.ofNat t.length) ++ u16be.encodeAll t).length = 4 + 2 * t.length
    simp [Nat.mul_comm]

theorem Mapping.six_le_size {m : Mapping} (h : m.Legal) : 6 ≤ m.size := by
  cases m with
  | polynomial c =>
    have h1 : 1 ≤ c.length := h.1
    show 6 ≤ 4 + 8 * c.length
    omega
  | table t =>
    have h1 : 1 ≤ t.length := h.1
    show 6 ≤ 4 + 2 * t.length
    omega

/-- The body of a mapping holds its area and its parameters. -/
theorem size_le {width height : UInt32} {op : UInt32 × List UInt8} {a : PlaneMapping}
    (h : accepted width height op = some a) : 32 + a.mapping.size ≤ op.2.length := by
  obtain ⟨-, -, _, _, _, _, -, -, hpre⟩ := accepted_sound h
  have hlen := hpre.length_le
  rw [List.length_append, Mapping.length_encode] at hlen
  simpa [area] using hlen

/-- At most four planes, for a body of 38 bytes or more. -/
theorem values_le {width height : UInt32} {op : UInt32 × List UInt8} {a : PlaneMapping}
    (h : accepted width height op = some a) :
    (a.stop - a.plane) * linearizationPoints ≤ 10 * (16 + op.2.length) := by
  have hsize := size_le h
  obtain ⟨-, hlegal, _, _, _, _, -, ⟨-, hstop⟩, -⟩ := accepted_sound h
  have hsix := Mapping.six_le_size hlegal
  have hplanes : a.stop - a.plane ≤ 4 := by omega
  have hvalues : (a.stop - a.plane) * 128 ≤ 4 * 128 := Nat.mul_le_mul_right 128 hplanes
  show (a.stop - a.plane) * 128 ≤ _
  omega

/-! ## The loop of `linearization` -/

section Counted

variable {S D : Type} (A : Arithmetic S D)

def mapValueCounted (map : D → Option D) (v : S) : Count Cost S := do
  spend oneValue
  StateT.lift (mapValue A map v)

/-- `applyPlane`, counting the values. -/
def applyPlaneCounted (map : D → Option D) (tables : List (List S)) (plane : Nat) :
    Count Cost (List (List S)) :=
  let tables := if tables.length ≤ plane then
    tables ++ List.replicate (plane + 1 - tables.length) (identity A) else tables
  match tables[plane]? with
  | none => StateT.lift none
  | some table => do
    let table ← table.mapM (mapValueCounted A map)
    return tables.set plane table

def applyCounted (planes : UInt32 × UInt32) (map : D → Option D) (tables : List (List S)) :
    Count Cost (List (List S)) :=
  (List.range' planes.1.toNat (planes.2.toNat - planes.1.toNat)).foldlM
    (applyPlaneCounted A map) tables

/-- `mapOpcode`, counting the values. -/
def mapOpcodeCounted (width height : UInt32) (tables : List (List S)) (op : UInt32 × List UInt8) :
    Count Cost (List (List S)) :=
  let b := Reader.start op.2
  if op.1 = mapPolynomialId then
    match wholeImage width height b with
    | (none, _) => return tables
    | (some planes, b) =>
      match coefficients b with
      | none => return tables
      | some c => applyCounted A planes (fun x => some (horner A c x)) tables
  else if op.1 = mapTableId then
    match wholeImage width height b with
    | (none, _) => return tables
    | (some planes, b) =>
      match entries b with
      | none => return tables
      | some table => applyCounted A planes (lookup A table) tables
  else return tables

/-- `mapOpcodes`, counting the turns and the values. -/
def mapOpcodesCounted (width height : UInt32) :
    Nat → Reader → List (List S) → Count Cost (List (List S))
  | 0, _, tables => return tables
  | count + 1, r, tables => do
    spend oneTurn
    match opcodeHeader r with
    | (none, _) => return tables
    | (some (id, _version, _flags, size), r) =>
      match r.take size.toNat with
      | (none, _) => return tables
      | (some body, r) => do
        let tables ← mapOpcodeCounted A width height tables (id, body)
        mapOpcodesCounted width height count r tables

/-- `linearization`, counting the turns and the values. -/
def linearizationCounted (list : List UInt8) (width height : UInt32) :
    Count Cost (List (List S)) :=
  match (Reader.start list).u32 with
  | (none, _) => return []
  | (some count, r) => mapOpcodesCounted A width height count.toNat r []

/-! ### The values -/

/-- Every table has its points. -/
def Full (tables : List (List S)) : Prop := ∀ table ∈ tables, table.length = linearizationPoints

theorem length_of_mapM {α β : Type} {f : α → Option β} : ∀ {l : List α} {l' : List β},
    l.mapM f = some l' → l'.length = l.length := by
  intro l
  induction l with
  | nil =>
    intro l' h
    obtain rfl := Option.some.inj h
    rfl
  | cons a l ih =>
    intro l' h
    rw [List.mapM_cons] at h
    obtain ⟨b, -, h⟩ := Option.bind_eq_some_iff.mp h
    obtain ⟨bs, hbs, h⟩ := Option.bind_eq_some_iff.mp h
    obtain rfl := Option.some.inj h
    rw [List.length_cons, List.length_cons, ih hbs]

theorem full_resized {tables : List (List S)} (h : Full tables) (plane : Nat) :
    Full (if tables.length ≤ plane then
      tables ++ List.replicate (plane + 1 - tables.length) (identity A) else tables) := by
  split
  · intro table htable
    rcases List.mem_append.mp htable with htable | htable
    · exact h table htable
    · rw [List.eq_of_mem_replicate htable]
      simp [identity]
  · exact h

theorem applyPlaneCounted_within (map : D → Option D) {tables : List (List S)} (h : Full tables)
    (plane : Nat) :
    Within (applyPlaneCounted A map tables plane) (applyPlane A map tables plane)
      (0, linearizationPoints) := by
  rw [applyPlaneCounted, applyPlane]
  have hfull := full_resized A h plane
  generalize (if tables.length ≤ plane then _ else tables) = resized at hfull ⊢
  cases htable : resized[plane]? with
  | none => exact (within_lift none).mono zero_le
  | some table =>
    have hlen := hfull table (List.mem_of_getElem? htable)
    have hvalue : ∀ v, Within (mapValueCounted A map v) (mapValue A map v) oneValue := fun v =>
      ((within_lift (mapValue A map v)).spend oneValue).mono (by rw [add_zero])
    refine ((within_mapM zero_le hvalue table).map (resized.set plane ·)).mono ?_
    rw [hlen]
    exact ⟨by simp [oneValue], by simp [oneValue]⟩

theorem full_applyPlane {map : D → Option D} {tables tables' : List (List S)} (h : Full tables)
    {plane : Nat} (happly : applyPlane A map tables plane = some tables') : Full tables' := by
  rw [applyPlane] at happly
  have hfull := full_resized A h plane
  generalize (if tables.length ≤ plane then _ else tables) = resized at hfull happly
  cases htable : resized[plane]? with
  | none => simp only [htable] at happly; cases happly
  | some table =>
    simp only [htable] at happly
    obtain ⟨table', hmap, rfl⟩ := Option.map_eq_some_iff.mp happly
    intro t ht
    rcases List.mem_or_eq_of_mem_set ht with ht | rfl
    · exact hfull t ht
    · rw [length_of_mapM hmap]
      exact hfull table (List.mem_of_getElem? htable)

theorem applyCounted_within (planes : UInt32 × UInt32) (map : D → Option D)
    {tables : List (List S)} (h : Full tables) :
    Within (applyCounted A planes map tables) (apply A planes map tables)
      (0, (planes.2.toNat - planes.1.toNat) * linearizationPoints) := by
  refine (within_foldlM (I := Full) zero_le
    (fun tables plane h => applyPlaneCounted_within A map h plane)
    (fun tables plane tables' h => full_applyPlane A h) _ tables h).mono ?_
  rw [List.length_range']
  exact ⟨by simp, by simp⟩

/-- The values of an opcode, with the bytes it takes in the list. -/
theorem mapOpcodeCounted_within (width height : UInt32) {tables : List (List S)}
    (h : Full tables) (op : UInt32 × List UInt8) :
    Within (mapOpcodeCounted A width height tables op) (mapOpcode A width height tables op)
      (0, 10 * (16 + op.2.length)) := by
  have hskip : Within (pure tables : Count Cost _) (some tables) (0, 10 * (16 + op.2.length)) :=
    (within_pure tables).mono zero_le
  have happly : ∀ (planes : UInt32 × UInt32) (map : D → Option D) {mapping : Mapping},
      accepted width height op = some ⟨planes.1.toNat, planes.2.toNat, mapping⟩ →
      Within (applyCounted A planes map tables) (apply A planes map tables)
        (0, 10 * (16 + op.2.length)) := by
    intro planes map mapping haccepted
    have hvalues := values_le haccepted
    dsimp only at hvalues
    exact (applyCounted_within A planes map h).mono (Prod.mk_le_mk.mpr ⟨le_rfl, hvalues⟩)
  unfold mapOpcodeCounted mapOpcode
  dsimp only
  rcases hwhole : wholeImage width height (.start op.2) with ⟨_ | ⟨plane, stop⟩, b⟩
  · dsimp only
    split
    · exact hskip
    · split <;> exact hskip
  · dsimp only
    split
    · next hid =>
      cases hc : coefficients b with
      | none => exact hskip
      | some c =>
        have haccepted : accepted width height op =
            some ⟨plane.toNat, stop.toNat, .polynomial c⟩ := by
          unfold accepted
          simp only [hwhole, if_pos hid, hc, Option.map_some]
        exact happly (plane, stop) _ haccepted
    · next hne =>
      split
      · next hid =>
        cases ht : entries b with
        | none => exact hskip
        | some t =>
          have haccepted : accepted width height op =
              some ⟨plane.toNat, stop.toNat, .table t⟩ := by
            unfold accepted
            simp only [hwhole, if_neg hne, if_pos hid, ht, Option.map_some]
          exact happly (plane, stop) _ haccepted
      · exact hskip

theorem full_composition (ops : List PlaneMapping) : Full (composition A ops) := by
  intro table htable
  obtain ⟨p, -, rfl⟩ := List.mem_map.mp htable
  simp

/-- **Turns and values are paid for** by the bytes that are read. -/
theorem mapOpcodesCounted_within (width height : UInt32) :
    ∀ (count : Nat) (r : Reader) (ops : List PlaneMapping),
      Within (mapOpcodesCounted A width height count r (composition A ops))
        (mapOpcodes A width height count r (composition A ops))
        (r.rest.length / 16 + 1, 10 * r.rest.length) := by
  intro count
  induction count with
  | zero => intro r ops; exact (within_pure _).mono zero_le
  | succ count ih =>
    intro r ops
    rw [mapOpcodesCounted, mapOpcodes]
    have hturn : oneTurn ≤ (r.rest.length / 16 + 1, 10 * r.rest.length) :=
      ⟨Nat.le_add_left 1 _, Nat.zero_le _⟩
    rcases hheader : opcodeHeader r with ⟨_ | ⟨id, version, flags, size⟩, r₁⟩
    · exact ((within_pure _).spend oneTurn).mono (by rwa [add_zero])
    · dsimp only
      rcases hbody : r₁.take size.toNat with ⟨_ | body, r₂⟩
      · exact ((within_pure _).spend oneTurn).mono (by rwa [add_zero])
      · have hlen := length_rest_of_turn hheader hbody
        have hop := mapOpcodeCounted_within A width height (full_composition A ops) (id, body)
        rw [mapOpcode_composition] at hop
        dsimp only
        rw [mapOpcode_composition]
        have hnext : ∀ tables,
            some (composition A (ops ++ (accepted width height (id, body)).toList)) = some tables →
            Within (mapOpcodesCounted A width height count r₂ tables)
              (mapOpcodes A width height count r₂ tables)
              (r₂.rest.length / 16 + 1, 10 * r₂.rest.length) := by
          rintro tables ⟨⟩
          exact ih r₂ _
        refine ((hop.bind zero_le hnext).spend oneTurn).mono ⟨?_, ?_⟩
        · show 1 + (0 + (r₂.rest.length / 16 + 1)) ≤ r.rest.length / 16 + 1
          omega
        · show 0 + (10 * (16 + body.length) + 10 * r₂.rest.length) ≤ 10 * r.rest.length
          omega

theorem linearizationCounted_within (list : List UInt8) (width height : UInt32) :
    Within (linearizationCounted A list width height) (linearization A list width height)
      (list.length / 16 + 1, 10 * list.length) := by
  rw [linearizationCounted, linearization]
  rcases hcount : (Reader.start list).u32 with ⟨_ | count, r⟩
  · exact (within_pure _).mono zero_le
  · obtain ⟨-, hrest⟩ := Reader.u32_decodes.sound hcount
    have hlen := congrArg List.length hrest
    rw [Reader.rest_start, List.length_append] at hlen
    refine (mapOpcodesCounted_within A width height count.toNat r []).mono ⟨?_, ?_⟩
    · show r.rest.length / 16 + 1 ≤ list.length / 16 + 1
      omega
    · show 10 * r.rest.length ≤ 10 * list.length
      omega

end Counted

end RawHelper.Linearization

namespace RawHelper.Corrections

open ByteField Ieee Opcodes Linearization

/-! ## The corrections -/

theorem length_gains_le {op : UInt32 × List UInt8} {m : GainMap} (h : gainMapOf op = some m) :
    76 + 4 * m.gains.length ≤ op.2.length := by
  obtain ⟨-, -, hpre⟩ := gainMapOf_eq_some_iff.mp h
  have hlen := hpre.length_le
  rwa [GainMap.length_encode] at hlen

theorem length_planes_le {op : UInt32 × List UInt8} {w : Warp} (h : warpOf op = some w) :
    20 + 48 * w.planes.length ≤ op.2.length := by
  obtain ⟨-, -, hpre⟩ := warpOf_eq_some_iff.mp h
  have hlen := hpre.length_le
  rw [Warp.encode, List.length_append, List.length_append, List.length_flatMap] at hlen
  simp at hlen
  omega

/-- **No list makes the readers hang or take more memory than it has itself**, whatever
it announces: for a list of `n` bytes,

* the loop over it, in `each` and in `linearization`, begins at most `n / 16 + 1` turns;
* at most `10 * n` values go through a mapping, with one lookup or one polynomial of at
  most degree 8 each;
* the opcodes it yields, the tables and coefficients of the mappings that count, the
  maps and gains of `gain_maps`, and all warps that are read on the way to the last,
  each take at most the bytes they have in the list. -/
theorem opcodes_bounded (list : List UInt8) :
    (∃ cost : Cost, (eachCounted list).run 0 = some (each list, cost) ∧
      cost.1 ≤ list.length / 16 + 1) ∧
    (∀ (S D : Type) (A : Arithmetic S D) (width height : UInt32), ∃ (tables : List (List S))
      (cost : Cost), linearization A list width height = some tables ∧
        (linearizationCounted A list width height).run 0 = some (tables, cost) ∧
        cost.1 ≤ list.length / 16 + 1 ∧ cost.2 ≤ 10 * list.length) ∧
    ((each list).map fun op => 16 + op.2.length).sum ≤ list.length ∧
    ((gainMaps list).map fun m => 92 + 4 * m.gains.length).sum ≤ list.length ∧
    (((each list).filterMap warpOf).map fun w => 36 + 48 * w.planes.length).sum ≤ list.length ∧
    ∀ width height : UInt32,
      (((each list).filterMap (accepted width height)).map
        fun a => 48 + a.mapping.size).sum ≤ list.length := by
  have hlist := weight_each_le list
  refine ⟨?_, fun S D A width height => ?_, hlist, ?_, ?_, fun width height => ?_⟩
  · obtain ⟨cost, ⟨hturns, -⟩, hrun⟩ := eachCounted_within list
    refine ⟨cost, ?_, hturns⟩
    have := hrun 0
    rwa [zero_add] at this
  · obtain ⟨cost, ⟨hturns, hvalues⟩, hrun⟩ := linearizationCounted_within A list width height
    refine ⟨_, cost, linearization_eq A list width height, ?_, hturns, hvalues⟩
    have := hrun 0
    rwa [zero_add, linearization_eq] at this
  · have hmaps := sum_filterMap_le (k := 1) (f := gainMapOf) (g := fun m => 92 + 4 * m.gains.length)
      (fun op m h => by have := length_gains_le h; omega) (each list)
    rw [gainMaps_eq, List.map_take]
    have htake := List.Sublist.sum_le_sum (List.take_sublist mapsMax
      (((each list).filterMap gainMapOf).map fun m => 92 + 4 * m.gains.length))
      fun _ _ => Nat.zero_le _
    omega
  · have := sum_filterMap_le (k := 1) (f := warpOf) (g := fun w => 36 + 48 * w.planes.length)
      (fun op w h => by have := length_planes_le h; omega) (each list)
    omega
  · have := sum_filterMap_le (k := 1) (f := accepted width height)
      (g := fun a => 48 + a.mapping.size) (fun op a h => by have := size_le h; omega) (each list)
    omega

end RawHelper.Corrections
