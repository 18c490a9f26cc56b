import RawHelper.Helper.Corrections

/-!
# Lens corrections

The second half of `helper/src/corrections.rs`: `lens` reads the
FixVignetteRadial and WarpRectilinear opcodes of OpcodeList3 and keeps the last
of each that decodes.

`vignette_eq_some_iff` and `warp_eq_some_iff` say which bodies decode, and to
what: the ones that start with the big-endian encoding of a finite correction.
The loop of `lens` overwrites what it found, so a fold is the last match of a
list (`foldl_lastOf`), for the two kinds at once (`lens_eq`).
-/

namespace RawHelper.Corrections

open ByteField Ieee Cursor Opcodes

def warpRectilinear : UInt32 := 1
def fixVignetteRadial : UInt32 := 3

/-- Two values as an array. -/
abbrev pair {α : Type} (a b : α) : Vector α 2 := #v[a, b]

/-- The FixVignetteRadial branch of `lens`: the seven values, when all are there
and finite. -/
def vignette (body : List UInt8) : Option RadialVignette :=
  let (values, _) := reads Reader.f64 7 (.start body)
  match values with
  | [some k0, some k1, some k2, some k3, some k4, some cx, some cy] =>
    if [k0, k1, k2, k3, k4, cx, cy].all Double.isFinite then
      some { k := #v[k0, k1, k2, k3, k4], centre := pair cx cy }
    else
      none
  | _ => none

/-- The coefficients of one plane of a warp. -/
def warpPlane (r : Reader) : Option (Vector Double 6) × Reader :=
  let (c, r) := reads Reader.f64 6 r
  match c with
  | [some c0, some c1, some c2, some c3, some c4, some c5] =>
    (some #v[c0, c1, c2, c3, c4, c5], r)
  | _ => (none, r)

/-- The WarpRectilinear branch of `lens`: the centre is read even when the planes
were cut short. -/
def warp (body : List UInt8) : Option Warp :=
  let (n, r) := (Reader.start body).u32
  match n.filter (fun n => 1 ≤ n ∧ n ≤ planesMax) with
  | none => none
  | some n =>
    let (planes, r) := collect warpPlane n.toNat r
    let (cx, r) := r.f64
    let (cy, _) := r.f64
    match planes, cx, cy with
    | some planes, some cx, some cy =>
      if planes.all (fun c => c.all Double.isFinite) && (cx.isFinite && cy.isFinite) then
        some { planes, centre := pair cx cy }
      else
        none
    | _, _, _ => none

/-- One turn of the loop of `lens`. -/
def lensStep (found : Option RadialVignette × Option Warp) (op : UInt32 × List UInt8) :
    Option RadialVignette × Option Warp :=
  if op.1 = fixVignetteRadial then
    match vignette op.2 with
    | some v => (some v, found.2)
    | none => found
  else if op.1 = warpRectilinear then
    match warp op.2 with
    | some w => (found.1, some w)
    | none => found
  else
    found

/-- FixVignetteRadial and WarpRectilinear of OpcodeList3 (the last of each, when
several). -/
def lens (list : List UInt8) : Option RadialVignette × Option Warp :=
  (each list).foldl lensStep (none, none)

end RawHelper.Corrections

/-! ## Encodings -/

namespace RawHelper.RadialVignette

open ByteField Ieee

def Finite (v : RadialVignette) : Prop :=
  (∀ x ∈ v.k, x.isFinite) ∧ (∀ x ∈ v.centre, x.isFinite)

/-- `k0` to `k4`, then the centre. -/
def encode (v : RadialVignette) : List UInt8 :=
  f64be.encodeAll (v.k.toList ++ v.centre.toList)

end RawHelper.RadialVignette

namespace RawHelper.Warp

open ByteField Ieee

/-- One to four planes, all numbers finite. -/
structure Valid (w : Warp) : Prop where
  planes : 1 ≤ w.planes.length ∧ w.planes.length ≤ 4
  coefficients : ∀ c ∈ w.planes, ∀ x ∈ c, x.isFinite
  centre : ∀ x ∈ w.centre, x.isFinite

/-- The plane count, each plane's coefficients, then the centre. -/
def encode (w : Warp) : List UInt8 :=
  u32be.encode (UInt32.ofNat w.planes.length) ++
    (w.planes.flatMap (fun c => f64be.encodeAll c.toList) ++ f64be.encodeAll w.centre.toList)

end RawHelper.Warp

namespace RawHelper.Corrections

open ByteField Ieee Cursor Opcodes

theorem exists_vector_two {α : Type} (v : Vector α 2) : ∃ a b, v = #v[a, b] :=
  ⟨_, _, (vector_two_eq v).symm⟩

theorem exists_vector_five {α : Type} (v : Vector α 5) : ∃ a b c d e, v = #v[a, b, c, d, e] := by
  refine ⟨v[0], v[1], v[2], v[3], v[4], ?_⟩
  ext i hi
  interval_cases i <;> rfl

theorem exists_vector_six {α : Type} (v : Vector α 6) :
    ∃ a b c d e f, v = #v[a, b, c, d, e, f] := by
  refine ⟨v[0], v[1], v[2], v[3], v[4], v[5], ?_⟩
  ext i hi
  interval_cases i <;> rfl

/-! ### Vignettes -/

theorem vignette_sound {body : List UInt8} {v : RadialVignette} (h : vignette body = some v) :
    v.Finite ∧ v.encode <+: body := by
  rw [vignette] at h
  rcases hvalues : reads Reader.f64 7 (.start body) with ⟨values, r⟩
  simp only [hvalues] at h
  split at h
  · next k0 k1 k2 k3 k4 cx cy =>
    split at h
    · next hall =>
      obtain rfl := Option.some.inj h
      obtain ⟨-, -, hbody⟩ := Reader.f64_decodes.reads_sound
        [k0, k1, k2, k3, k4, cx, cy] hvalues
      refine ⟨?_, r.rest, hbody.symm⟩
      simpa [RadialVignette.Finite, and_assoc] using hall
    · cases h
  · cases h

theorem vignette_encode {v : RadialVignette} (hv : v.Finite) (t : List UInt8) :
    vignette (v.encode ++ t) = some v := by
  obtain ⟨k, centre⟩ := v
  obtain ⟨k0, k1, k2, k3, k4, rfl⟩ := exists_vector_five k
  obtain ⟨cx, cy, rfl⟩ := exists_vector_two centre
  obtain ⟨r, hr, -⟩ := Reader.f64_decodes.reads_complete [k0, k1, k2, k3, k4, cx, cy]
    (s := .start (f64be.encodeAll [k0, k1, k2, k3, k4, cx, cy] ++ t)) (by simp) rfl
  have hvalues : reads Reader.f64 7 (.start (RadialVignette.encode
      ⟨#v[k0, k1, k2, k3, k4], #v[cx, cy]⟩ ++ t)) =
        ([some k0, some k1, some k2, some k3, some k4, some cx, some cy], r) := hr
  have hall : [k0, k1, k2, k3, k4, cx, cy].all Double.isFinite = true := by
    simpa [RadialVignette.Finite, and_assoc] using hv
  rw [vignette, hvalues]
  simp only [hall, if_true]

/-- **A vignette decodes from the bodies that start with its encoding.** -/
theorem vignette_eq_some_iff {body : List UInt8} {v : RadialVignette} :
    vignette body = some v ↔ v.Finite ∧ v.encode <+: body := by
  constructor
  · exact vignette_sound
  · rintro ⟨hv, t, rfl⟩
    exact vignette_encode hv t

/-! ### Warps -/

theorem warpPlane_decodes :
    Decodes Reader.rest warpPlane (fun _ => True) (fun c => f64be.encodeAll c.toList) where
  sound {r r' c} h := by
    rw [warpPlane] at h
    rcases hc : reads Reader.f64 6 r with ⟨values, r₁⟩
    simp only [hc] at h
    split at h
    · next c0 c1 c2 c3 c4 c5 =>
      obtain ⟨hv, rfl⟩ := Prod.mk.inj h
      obtain rfl := Option.some.inj hv
      obtain ⟨-, -, hrest⟩ := Reader.f64_decodes.reads_sound
        [c0, c1, c2, c3, c4, c5] hc
      exact ⟨trivial, hrest⟩
    · simp at h
  complete {r c t} _ h := by
    obtain ⟨c0, c1, c2, c3, c4, c5, rfl⟩ := exists_vector_six c
    obtain ⟨r', hr, hrest⟩ := Reader.f64_decodes.reads_complete [c0, c1, c2, c3, c4, c5]
      (s := r) (t := t) (by simp) h
    have hreads : reads Reader.f64 6 r =
        ([some c0, some c1, some c2, some c3, some c4, some c5], r') := hr
    exact ⟨r', by rw [warpPlane, hreads], hrest⟩

theorem warp_finite_iff {planes : List (Vector Double 6)} {cx cy : Double} :
    (planes.all (fun c => c.all Double.isFinite) && (cx.isFinite && cy.isFinite)) = true ↔
      (∀ c ∈ planes, ∀ x ∈ c, x.isFinite) ∧ ∀ x ∈ #v[cx, cy], x.isFinite := by
  simp only [Bool.and_eq_true, List.all_eq_true, Vector.all_eq_true_iff_forall_mem]
  simp

theorem warp_sound {body : List UInt8} {w : Warp} (h : warp body = some w) :
    w.Valid ∧ w.encode <+: body := by
  rw [warp] at h
  rcases hn : (Reader.start body).u32 with ⟨n, r₀⟩
  simp only [hn] at h
  split at h
  · cases h
  · next n hfilter =>
    obtain ⟨rfl, hrange⟩ := Option.filter_eq_some_iff.mp hfilter
    rcases hplanes : collect warpPlane n.toNat r₀ with ⟨planes, r₁⟩
    rcases hcx : r₁.f64 with ⟨cx, r₂⟩
    rcases hcy : r₂.f64 with ⟨cy, r₃⟩
    simp only [hplanes, hcx, hcy] at h
    split at h
    · next planes cx cy =>
      split at h
      · next hall =>
        obtain rfl := Option.some.inj h
        obtain ⟨-, hr⟩ := Reader.u32_decodes.sound hn
        obtain ⟨⟨hlen, -⟩, hr₀⟩ := (warpPlane_decodes.collect n.toNat).sound hplanes
        obtain ⟨-, hr₁⟩ := Reader.f64_decodes.sound hcx
        obtain ⟨-, hr₂⟩ := Reader.f64_decodes.sound hcy
        rw [hr₀, hr₁, hr₂, Reader.rest_start] at hr
        simp only [planesMax, decide_eq_true_eq, UInt32.le_iff_toNat_le] at hrange
        obtain ⟨hcoeff, hcentre⟩ := warp_finite_iff.mp hall
        refine ⟨⟨?_, hcoeff, hcentre⟩, r₃.rest, ?_⟩
        · simpa [hlen] using hrange
        · rw [hr]
          simp [Warp.encode, hlen]
      · cases h
    · cases h

theorem warp_encode {w : Warp} (hw : w.Valid) (t : List UInt8) :
    warp (w.encode ++ t) = some w := by
  obtain ⟨planes, centre⟩ := w
  obtain ⟨cx, cy, rfl⟩ := exists_vector_two centre
  obtain ⟨hlen, hcoeff, hcentre⟩ := hw
  simp only at hlen hcoeff hcentre
  have hn : (UInt32.ofNat planes.length).toNat = planes.length :=
    UInt32.toNat_ofNat_of_lt' (by rw [UInt32.size]; omega)
  obtain ⟨r₀, hcount, hr₀⟩ := Reader.u32_decodes.complete (a := UInt32.ofNat planes.length)
    (s := .start (Warp.encode ⟨planes, #v[cx, cy]⟩ ++ t))
    (t := planes.flatMap (fun c => f64be.encodeAll c.toList) ++
      (f64be.encode cx ++ (f64be.encode cy ++ t))) trivial (by simp [Warp.encode])
  obtain ⟨r₁, hplanes, hr₁⟩ := (warpPlane_decodes.collect planes.length).complete
    (a := planes) ⟨rfl, by simp⟩ hr₀
  obtain ⟨r₂, hcx, hr₂⟩ := Reader.f64_decodes.complete trivial hr₁
  obtain ⟨r₃, hcy, -⟩ := Reader.f64_decodes.complete trivial hr₂
  have hfilter : (some (UInt32.ofNat planes.length)).filter
      (fun n => decide (1 ≤ n ∧ n ≤ planesMax)) = some (UInt32.ofNat planes.length) := by
    rw [Option.filter_some, if_pos]
    simpa [planesMax, UInt32.le_iff_toNat_le, hn] using hlen
  have hall := warp_finite_iff.mpr ⟨hcoeff, hcentre⟩
  rw [warp, hcount]
  simp only [hfilter, hn, hplanes, hcx, hcy, hall, if_true]

/-- **A warp decodes from the bodies that start with its encoding.** -/
theorem warp_eq_some_iff {body : List UInt8} {w : Warp} :
    warp body = some w ↔ w.Valid ∧ w.encode <+: body := by
  constructor
  · exact warp_sound
  · rintro ⟨hw, t, rfl⟩
    exact warp_encode hw t

/-! ### The last of each -/

/-- `o` is what `R` makes of the last element of `l` it applies to. -/
def LastOf {α β : Type} (R : α → β → Prop) (l : List α) : Option β → Prop
  | none => ∀ a ∈ l, ∀ b, ¬ R a b
  | some b => ∃ pre a post, l = pre ++ a :: post ∧ R a b ∧ ∀ a' ∈ post, ∀ b', ¬ R a' b'

/-- **Overwriting what was found keeps the last match.** -/
theorem foldl_lastOf {α β : Type} {R : α → β → Prop} {f : α → Option β}
    (hf : ∀ a b, f a = some b ↔ R a b) (l : List α) :
    LastOf R l (l.foldl (fun found a => (f a).or found) none) := by
  induction l using List.reverseRecOn with
  | nil => intro a ha; simp at ha
  | append_singleton l a ih =>
    rw [List.foldl_append, List.foldl_cons, List.foldl_nil]
    cases ha : f a with
    | some b =>
      exact ⟨l, a, [], rfl, (hf a b).mp ha, by simp⟩
    | none =>
      have hno : ∀ b, ¬ R a b := fun b hb => by simp [(hf a b).mpr hb] at ha
      rw [Option.none_or]
      cases hfound : l.foldl (fun found a => (f a).or found) none with
      | none =>
        rw [hfound] at ih
        intro a' ha' b
        rcases List.mem_append.mp ha' with h | h
        · exact ih a' h b
        · obtain rfl := List.mem_singleton.mp h
          exact hno b
      | some b =>
        rw [hfound] at ih
        obtain ⟨pre, a', post, rfl, hR, hpost⟩ := ih
        refine ⟨pre, a', post ++ [a], by simp, hR, ?_⟩
        intro a'' ha'' b'
        rcases List.mem_append.mp ha'' with h | h
        · exact hpost a'' h b'
        · obtain rfl := List.mem_singleton.mp h
          exact hno b'

/-- What one opcode contributes to each half of `lens`. -/
def vignetteOf (op : UInt32 × List UInt8) : Option RadialVignette :=
  if op.1 = fixVignetteRadial then vignette op.2 else none

def warpOf (op : UInt32 × List UInt8) : Option Warp :=
  if op.1 = warpRectilinear then warp op.2 else none

/-- The opcode holds the vignette: its body starts with the encoding. -/
def IsVignette (op : UInt32 × List UInt8) (v : RadialVignette) : Prop :=
  op.1 = fixVignetteRadial ∧ v.Finite ∧ v.encode <+: op.2

/-- The opcode holds the warp. -/
def IsWarp (op : UInt32 × List UInt8) (w : Warp) : Prop :=
  op.1 = warpRectilinear ∧ w.Valid ∧ w.encode <+: op.2

theorem vignetteOf_eq_some_iff {op : UInt32 × List UInt8} {v : RadialVignette} :
    vignetteOf op = some v ↔ IsVignette op v := by
  rw [vignetteOf, IsVignette]
  split
  · next hid => rw [vignette_eq_some_iff]; simp [hid]
  · next hid => simp [hid]

theorem warpOf_eq_some_iff {op : UInt32 × List UInt8} {w : Warp} :
    warpOf op = some w ↔ IsWarp op w := by
  rw [warpOf, IsWarp]
  split
  · next hid => rw [warp_eq_some_iff]; simp [hid]
  · next hid => simp [hid]

/-- **The two kinds do not touch each other.** -/
theorem lensStep_eq (found : Option RadialVignette × Option Warp) (op : UInt32 × List UInt8) :
    lensStep found op = ((vignetteOf op).or found.1, (warpOf op).or found.2) := by
  rw [lensStep, vignetteOf, warpOf]
  by_cases hv : op.1 = fixVignetteRadial
  · have hw : op.1 ≠ warpRectilinear := by rw [hv]; decide
    rw [if_pos hv, if_pos hv, if_neg hw]
    cases vignette op.2 <;> rfl
  · by_cases hw : op.1 = warpRectilinear
    · rw [if_neg hv, if_pos hw, if_neg hv, if_pos hw]
      cases warp op.2 <;> rfl
    · rw [if_neg hv, if_neg hw, if_neg hv, if_neg hw]
      rfl

theorem lens_eq (list : List UInt8) :
    lens list = ((each list).foldl (fun found op => (vignetteOf op).or found) none,
      (each list).foldl (fun found op => (warpOf op).or found) none) := by
  rw [lens]
  generalize (none : Option RadialVignette) = v
  generalize (none : Option Warp) = w
  induction each list generalizing v w with
  | nil => rfl
  | cons op ops ih => rw [List.foldl_cons, lensStep_eq, ih]; rfl

/-- **`lens` returns the last vignette and the last warp the list holds**: each
is what the last opcode of its kind whose body starts with a finite encoding
encodes, and no other opcode has a say in it. -/
theorem lens_last :
    (∀ (body : List UInt8) (v : RadialVignette),
      vignette body = some v ↔ v.Finite ∧ v.encode <+: body) ∧
    (∀ (body : List UInt8) (w : Warp), warp body = some w ↔ w.Valid ∧ w.encode <+: body) ∧
    (∀ list : List UInt8, LastOf IsVignette (each list) (lens list).1 ∧
      LastOf IsWarp (each list) (lens list).2) := by
  refine ⟨fun _ _ => vignette_eq_some_iff, fun _ _ => warp_eq_some_iff, ?_⟩
  intro list
  rw [lens_eq]
  exact ⟨foldl_lastOf (fun op v => vignetteOf_eq_some_iff) _,
    foldl_lastOf (fun op w => warpOf_eq_some_iff) _⟩

end RawHelper.Corrections
