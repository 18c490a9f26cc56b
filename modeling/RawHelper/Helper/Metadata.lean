import RawHelper.Helper.Develop

/-!
# What the system says of a file

`helper/src/system/macos.rs`: `open` recognises a file with ImageIO and `file_info`
takes its headers from ImageIO's properties.  What ImageIO and the raw filter make
of the bytes is a parameter (`ImageIo`).

The one thing computed is the exposure time.  ImageIO gives a double and the
protocol wants a fraction, so a time below a second becomes one over a whole number
and any other a number of tenths.  `exposure_exact` says that this undoes what
rounding to a double did: for the speeds cameras have, which are such fractions, it
gives the fraction itself.  It goes through every other number too, those that do not
fit and those that are no time.
-/

namespace RawHelper.Render

open Extended Value Binary

/-! ## What ImageIO reads -/

structure TiffProperties where
  make : Option String
  model : Option String

structure ExifProperties where
  /-- The first of its ratings. -/
  isoSpeed : Option UInt32
  exposureTime : Option Value
  fNumber : Option Value
  focalLength : Option Value
  lensModel : Option String
  dateTimeOriginal : Option String

structure Properties where
  orientation : Option Value
  tiff : Option TiffProperties
  exif : Option ExifProperties

/-- A file as ImageIO reads it. -/
structure ImageSource where
  count : UInt64
  /-- Its uniform type identifier. -/
  type : Option String
  properties : Option Properties
  /-- A thumbnail, by its longest side. -/
  thumbnailAtIndex : ℕ → Option Extent
  imageAtIndex : Option Extent

/-- What the system makes of an extension, and of bytes with a type hint: ImageIO, and
the raw filter with its output. -/
structure ImageIo where
  typeWithFilenameExtension : String → Option String
  withData : List UInt8 → Option String → Option ImageSource
  rawFilter : List UInt8 → Option String → Option (Option Extent)

/-! ## The code -/

/-- Longest side of a thumbnail produced by the system. -/
def thumbnailMaxSide : ℕ := 2560

/-- Type identifier for a file extension; only short alphanumeric extensions are
considered. -/
def typeHint (io : ImageIo) (extension : Option String) : Option String :=
  (extension.filter fun e =>
    1 ≤ e.utf8ByteSize && e.utf8ByteSize ≤ 8 && e.toList.all Char.isAlphanum).bind
      io.typeWithFilenameExtension

/-- A time in seconds as a fraction. -/
def exposure (F : Format) (t : Value) : UInt32 × UInt32 :=
  if (finite 0).lt t && t.lt (finite 1) then
    (1, UInt32.ofNat ((F.div (finite 1) t).roundInt.toNat 32))
  else
    (UInt32.ofNat ((F.mul t (finite 10)).roundInt.toNat 32), 10)

def fileInfo {F32 : Type} (F : Format) (narrow : Value → F32) (source : ImageSource)
    (raw : Bool) : FileInfo F32 where
  decoder := .system
  raw := raw
  make := ((source.properties.bind (·.tiff)).bind (·.make)).getD ""
  model := ((source.properties.bind (·.tiff)).bind (·.model)).getD ""
  orientation := orientation (source.properties.bind (·.orientation))
  exif := match source.properties.bind (·.exif) with
    | none => ⟨none, none, none, none, none, none⟩
    | some exif => {
      iso := exif.isoSpeed
      exposureTime := exif.exposureTime.map (exposure F)
      fNumber := exif.fNumber.map narrow
      focalLength := exif.focalLength.map narrow
      lensModel := exif.lensModel
      dateTimeOriginal := exif.dateTimeOriginal }

/-- Recognises the file with ImageIO and reads its headers. -/
def SystemFile.open {F32 : Type} (io : ImageIo) (F : Format) (narrow : Value → F32)
    (bytes : List UInt8) (extension : Option String) :
    Except String (SystemFile × FileInfo F32) :=
  let hint := typeHint io extension
  match io.withData bytes hint with
  | none => .error "format not recognised"
  | some source =>
    if source.count = 0 then
      .error "no image in file"
    else
      let raw := source.type.any fun uti => uti.endsWith "raw-image"
      let file : SystemFile := {
        raw
        thumbnail := source.thumbnailAtIndex thumbnailMaxSide
        imageAtIndex := source.imageAtIndex
        rawFilter := io.rawFilter bytes hint
        orientation := source.properties.bind (·.orientation) }
      .ok (file, fileInfo F narrow source raw)

theorem open_ok {F32 : Type} {io : ImageIo} {F : Format} {narrow : Value → F32}
    {bytes : List UInt8} {extension : Option String} {file : SystemFile} {info : FileInfo F32}
    (h : SystemFile.open io F narrow bytes extension = .ok (file, info)) :
    ∃ source, io.withData bytes (typeHint io extension) = some source ∧
      file.thumbnail = source.thumbnailAtIndex thumbnailMaxSide ∧
      info.decoder = .system ∧ info.raw = file.raw := by
  rw [SystemFile.open] at h
  split at h
  · cases h
  · next source hsource =>
    split at h
    · cases h
    · obtain ⟨rfl, rfl⟩ := Prod.mk.inj (Except.ok.inj h)
      exact ⟨source, hsource, rfl, rfl, rfl⟩

/-! ## Exposure times -/

theorem normal_binary64_le : binary64.normal ≤ 1 / 2 ^ 64 := by
  decide +kernel

theorem round_close {q : ℚ} (h : 1 / 2 ^ 64 ≤ q) (hlt : q ≤ 2 ^ 64) :
    ∃ r, f64.round q = finite r ∧ Close (1 / 2 ^ 53) r q := by
  have hclose := binary64.close_nearest (normal_binary64_le.trans h)
  rw [unit_binary64] at hclose
  have hbound : binary64.nearest q < 2 ^ binary64.bound := by
    have hupper := hclose.upper
    have hpow : (2 : ℚ) ^ (66 : ℤ) < 2 ^ binary64.bound := by decide +kernel
    norm_num at hupper hpow
    linarith
  refine ⟨binary64.nearest q, ?_, hclose⟩
  exact binary64.round_of_lt ((by positivity : (0 : ℚ) ≤ 1 / 2 ^ 64).trans h) hbound

theorem ofNat_roundInt {q : ℚ} (hq : 0 ≤ q) {n : ℕ} (hn : n < 2 ^ 32) (h : |q - n| < 1 / 2) :
    UInt32.ofNat ((finite q).roundInt.toNat 32) = UInt32.ofNat n := by
  show UInt32.ofNat (saturate 32 (roundHalfAway q)) = UInt32.ofNat n
  rw [roundHalfAway_eq hq h]
  rw [Int.cast_natCast, saturate_natCast hn]

theorem abs_sub_le_of_close {c v : ℚ} (hc : 0 ≤ c)
    (h₁ : (1 - 1 / 2 ^ 53) * c ≤ (1 + 1 / 2 ^ 53) * v)
    (h₂ : (1 - 1 / 2 ^ 53) * v ≤ (1 + 1 / 2 ^ 53) * c) : |v - c| ≤ c / 2 ^ 51 := by
  norm_num at h₁ h₂ ⊢
  rw [abs_le]
  constructor <;> linarith

theorem exposure_of_lt_one {t : ℚ} (h0 : 0 < t) (h1 : t < 1) {v : Value}
    (hv : f64.round (1 / t) = v) :
    exposure f64 (finite t) = (1, UInt32.ofNat (v.roundInt.toNat 32)) := by
  rw [exposure, if_pos (by simp [lt, h0, h1]), Format.div, if_neg h0.ne', hv]

theorem exposure_of_one_le {t : ℚ} (h1 : 1 ≤ t) {v : Value} (hv : f64.round (t * 10) = v) :
    exposure f64 (finite t) = (UInt32.ofNat (v.roundInt.toNat 32), 10) := by
  rw [exposure, if_neg (by simp [lt, h1]), Format.mul, hv]

/-- **One over a whole number**, of at least two. -/
theorem exposure_reciprocal {n : ℕ} (h2 : 2 ≤ n) (hn : n < 2 ^ 32) :
    exposure f64 (f64.round (1 / n)) = (1, UInt32.ofNat n) := by
  have hn2 : (2 : ℚ) ≤ n := by exact_mod_cast h2
  have hn32 : (n : ℚ) ≤ 4294967296 := by exact_mod_cast hn.le
  have hn0 : (0 : ℚ) ≤ n := n.cast_nonneg
  have hlow : 1 / 4294967296 ≤ 1 / (n : ℚ) := one_div_le_one_div_of_le (by linarith) hn32
  have hhigh : 1 / (n : ℚ) ≤ 1 / 2 := one_div_le_one_div_of_le (by norm_num) hn2
  obtain ⟨t, ht, htclose⟩ := round_close (q := 1 / (n : ℚ))
    ((by norm_num : (1 : ℚ) / 2 ^ 64 ≤ 1 / 4294967296).trans hlow) (hhigh.trans (by norm_num))
  obtain ⟨hlower, hupper⟩ := htclose
  have ht0 : 0 < t := by
    norm_num at hlower hlow
    linarith
  have ht1 : t < 1 := by
    norm_num at hupper hhigh
    linarith
  have hinv : 1 ≤ 1 / t ∧ 1 / t ≤ 2 ^ 64 := by
    refine ⟨(one_le_div ht0).mpr ht1.le, ?_⟩
    rw [div_le_iff₀ ht0]
    norm_num at hlower hlow
    linarith
  -- the reciprocal of the rounded reciprocal, rounded
  obtain ⟨v, hv, hvclose⟩ := round_close ((by norm_num : (1 : ℚ) / 2 ^ 64 ≤ 1).trans hinv.1) hinv.2
  obtain ⟨h₁, h₂⟩ := quotient_of_close (by norm_num) zero_le_one ht0 ⟨hlower, hupper⟩ hvclose
  have hmul : v * (1 / n) * n = v := by
    field_simp
  have h₁ := mul_le_mul_of_nonneg_right h₁ hn0
  have h₂ := mul_le_mul_of_nonneg_right h₂ hn0
  rw [mul_one, mul_assoc, hmul] at h₁ h₂
  have hv0 : 0 ≤ v := by
    norm_num at h₁
    linarith
  have hnear : |v - n| < 1 / 2 := by
    refine (abs_sub_le_of_close hn0 h₁ h₂).trans_lt ?_
    norm_num
    linarith
  rw [ht, exposure_of_lt_one ht0 ht1 hv, ofNat_roundInt hv0 hn hnear]

/-- **Tenths**, of at least a second. -/
theorem exposure_tenths {k : ℕ} (h10 : 10 ≤ k) (hk : k < 2 ^ 32) :
    exposure f64 (f64.round (k / 10)) = (UInt32.ofNat k, 10) := by
  have hk10 : (10 : ℚ) ≤ k := by exact_mod_cast h10
  have hk32 : (k : ℚ) ≤ 4294967296 := by exact_mod_cast hk.le
  have hk0 : (0 : ℚ) ≤ k := k.cast_nonneg
  obtain ⟨t, ht, htclose⟩ := round_close (q := (k : ℚ) / 10)
    (by norm_num; linarith) (by norm_num; linarith)
  have ht1 : 1 ≤ t := by
    have hone := f64.mono (by linarith : (1 : ℚ) ≤ k / 10)
    rw [f64.round_one, ht] at hone
    rcases hone.finite_left with h | ⟨r, h, hr⟩
    · cases h
    · cases h
      exact hr
  have hmul := htclose.mul_right (by norm_num : (0 : ℚ) ≤ 10)
  rw [div_mul_cancel₀ _ (by norm_num)] at hmul
  obtain ⟨hlower, hupper⟩ := hmul
  have hbound : t * 10 ≤ 2 ^ 64 := by
    norm_num at hupper ⊢
    linarith
  obtain ⟨v, hv, hvclose⟩ := round_close (q := t * 10) (by norm_num; linarith) hbound
  obtain ⟨hvlower, hvupper⟩ := hvclose
  have hv0 : 0 ≤ v := by
    norm_num at hvlower
    linarith
  have hnear : |v - k| < 1 / 2 := by
    norm_num at hlower hupper hvlower hvupper
    rw [abs_lt]
    norm_num
    constructor <;> linarith
  rw [ht, exposure_of_one_le ht1 hv, ofNat_roundInt hv0 hk hnear]

theorem ofNat_roundInt_ne_zero {v : Value} (h : (finite 1).Le v) :
    UInt32.ofNat (v.roundInt.toNat 32) ≠ 0 := by
  have hpos : 0 < v.roundInt.toNat 32 ∧ v.roundInt.toNat 32 < 2 ^ 32 := by
    rcases h.finite_left with rfl | ⟨q, rfl, hq⟩
    · exact ⟨by decide, by decide⟩
    · have hle : (1 : ℚ) ≤ (roundHalfAway q : ℤ) := by
        rw [roundHalfAway, if_pos (by linarith)]
        exact_mod_cast Int.le_floor.mpr (by push_cast; linarith)
      exact ⟨saturate_pos hle (by omega), saturate_lt _ _⟩
  intro h0
  have := congrArg UInt32.toNat h0
  rw [UInt32.toNat_ofNat', UInt32.toNat_zero] at this
  omega

/-- **No fraction has a zero denominator**, whatever the time. -/
theorem exposure_ne_zero (t : Value) : (exposure f64 t).2 ≠ 0 := by
  rw [exposure]
  split
  · next h =>
    rw [Bool.and_eq_true] at h
    cases t with
    | finite q =>
      have h0 : 0 < q := by simpa [lt] using h.1
      have h1 : q < 1 := by simpa [lt] using h.2
      rw [Format.div, if_neg h0.ne']
      have hone := f64.mono ((one_le_div h0).mpr h1.le)
      rw [f64.round_one] at hone
      exact ofNat_roundInt_ne_zero hone
    | inf negative => cases negative <;> simp [lt] at h
    | nan => cases h.1
  · show (10 : UInt32) ≠ 0
    decide

theorem abs_cast_sub_le {x : ℚ} (h1 : 1 ≤ x) (hx : x ≤ 2 ^ 32 - 1) :
    ∃ v, f64.round x = v ∧
      |((UInt32.ofNat (v.roundInt.toNat 32)).toNat : ℚ) - x| ≤ 1 / 2 + x / 2 ^ 53 := by
  obtain ⟨r, hr, hlower, hupper⟩ := round_close (q := x) (by norm_num; linarith)
    (by norm_num at hx ⊢; linarith)
  have hr0 : 0 ≤ r := by
    norm_num at hlower
    linarith
  have hround := abs_roundHalfAway_sub_le hr0
  obtain ⟨h₁, h₂⟩ := abs_le.mp hround
  have hnonneg : 0 ≤ roundHalfAway r := by
    rw [roundHalfAway, if_pos hr0]
    exact Int.floor_nonneg.mpr (by linarith)
  obtain ⟨n, hn⟩ := Int.eq_ofNat_of_zero_le hnonneg
  rw [hn, Int.cast_natCast] at h₁ h₂
  have hlt : n < 2 ^ 32 := by
    have hlt : (n : ℚ) < 4294967296 := by
      norm_num at hupper hx
      linarith
    exact_mod_cast hlt
  have hcast : (UInt32.ofNat ((finite r).roundInt.toNat 32)).toNat = n := by
    show (UInt32.ofNat (saturate 32 (roundHalfAway r))).toNat = n
    rw [hn, Int.cast_natCast, saturate_natCast hlt, UInt32.toNat_ofNat']
    exact Nat.mod_eq_of_lt hlt
  refine ⟨finite r, hr, ?_⟩
  rw [hcast, abs_le]
  norm_num at hlower hupper ⊢
  constructor <;> linarith

theorem round_most : f64.round (2 ^ 32 - 1) = finite (2 ^ 32 - 1) := by
  decide +kernel

theorem cast_of_most_le {v : Value} (h : (finite (2 ^ 32 - 1)).Le v) :
    UInt32.ofNat (v.roundInt.toNat 32) = 4294967295 := by
  rcases h.finite_left with rfl | ⟨q, rfl, hq⟩
  · rfl
  · have hq0 : 0 ≤ q := (by norm_num : (0 : ℚ) ≤ 2 ^ 32 - 1).trans hq
    have hround : (2 ^ 32 - 1 : ℕ) ≤ ⌊((roundHalfAway q : ℤ) : ℚ)⌋₊ := by
      refine Nat.le_floor ?_
      rw [roundHalfAway, if_pos hq0]
      exact_mod_cast Int.le_floor.mpr (by push_cast; linarith)
    show UInt32.ofNat (saturate 32 (roundHalfAway q)) = 4294967295
    rw [saturate, min_eq_right hround]
    rfl

theorem cast_of_not_pos {v : Value} (h : (finite 0).lt v = false) :
    UInt32.ofNat (v.roundInt.toNat 32) = 0 := by
  cases v with
  | finite q =>
    have hq : q ≤ 0 := by simpa [lt] using h
    have hround : ((roundHalfAway q : ℤ) : ℚ) ≤ 0 := by
      rw [Int.cast_nonpos, roundHalfAway]
      split
      · next h0 =>
        rw [le_antisymm hq h0]
        norm_num
      · exact Int.ceil_le.mpr (by push_cast; linarith)
    show UInt32.ofNat (saturate 32 (roundHalfAway q)) = 0
    rw [saturate, Nat.floor_of_nonpos hround, Nat.zero_min]
    rfl
  | inf negative => cases negative with
    | false => cases h
    | true => rfl
  | nan => rfl

/-- No time at all, or none that is positive. -/
theorem exposure_of_not_pos {t : Value} (h : (finite 0).lt t = false) :
    exposure f64 t = (0, 10) := by
  rw [exposure, h, Bool.false_and, if_neg Bool.false_ne_true, cast_of_not_pos]
  cases t with
  | finite q =>
    have hq : q * 10 ≤ 0 := by
      have : q ≤ 0 := by simpa [lt] using h
      linarith
    have hmono := f64.mono hq
    rw [f64.round_zero] at hmono
    exact hmono.2.2
  | inf negative => cases negative with
    | false => cases h
    | true => decide
  | nan => rfl

/-- A time of too many tenths. -/
theorem exposure_of_most_lt {t : Value} (h : (finite ((2 ^ 32 - 1) / 10)).lt t) :
    exposure f64 t = (4294967295, 10) := by
  cases t with
  | finite q =>
    have hq : (2 ^ 32 - 1) / 10 < q := by simpa [lt] using h
    have hmono := f64.mono ((div_lt_iff₀ (by norm_num)).mp hq).le
    rw [round_most] at hmono
    rw [exposure_of_one_le (by norm_num at hq ⊢; linarith) rfl, cast_of_most_le hmono]
  | inf negative => cases negative with
    | false => decide
    | true => cases h
  | nan => cases h

/-- **Exposure times survive the double they are read as.**  One over a whole number
of at least two, and a whole number of tenths of at least ten, rounded to a double,
come out as that very fraction.  Any other positive time that fits comes out within half
a unit of its denominator or of its tenths, rounding apart; one that is too short or too
long, as the largest number there is; and what is not positive, NaN among it, as no
tenths.  No denominator is ever zero. -/
theorem exposure_exact :
    (∀ n : ℕ, 2 ≤ n → n < 2 ^ 32 → exposure f64 (f64.round (1 / n)) = (1, UInt32.ofNat n)) ∧
    (∀ k : ℕ, 10 ≤ k → k < 2 ^ 32 → exposure f64 (f64.round (k / 10)) = (UInt32.ofNat k, 10)) ∧
    (∀ t : ℚ, 0 < t → t < 1 → 1 / t ≤ 2 ^ 32 - 1 →
      ∃ d : UInt32, exposure f64 (finite t) = (1, d) ∧
        |(d.toNat : ℚ) - 1 / t| ≤ 1 / 2 + 1 / t / 2 ^ 53) ∧
    (∀ t : ℚ, 1 ≤ t → t * 10 ≤ 2 ^ 32 - 1 →
      ∃ n : UInt32, exposure f64 (finite t) = (n, 10) ∧
        |(n.toNat : ℚ) - t * 10| ≤ 1 / 2 + t * 10 / 2 ^ 53) ∧
    (∀ t : ℚ, 0 < t → 2 ^ 32 - 1 < 1 / t → exposure f64 (finite t) = (1, 4294967295)) ∧
    (∀ t : Value, (finite ((2 ^ 32 - 1) / 10)).lt t → exposure f64 t = (4294967295, 10)) ∧
    (∀ t : Value, (finite 0).lt t = false → exposure f64 t = (0, 10)) ∧
    ∀ t : Value, (exposure f64 t).2 ≠ 0 := by
  refine ⟨fun n => exposure_reciprocal, fun k => exposure_tenths, ?_, ?_, ?_,
    fun t => exposure_of_most_lt, fun t => exposure_of_not_pos, exposure_ne_zero⟩
  · intro t h0 h1 ht
    obtain ⟨v, hv, hnear⟩ := abs_cast_sub_le ((one_le_div h0).mpr h1.le) ht
    exact ⟨_, exposure_of_lt_one h0 h1 hv, hnear⟩
  · intro t h1 ht
    obtain ⟨v, hv, hnear⟩ := abs_cast_sub_le (by linarith) ht
    exact ⟨_, exposure_of_one_le h1 hv, hnear⟩
  · intro t h0 ht
    have h1 : t < 1 := (one_lt_div h0).mp ((by norm_num : (1 : ℚ) < 2 ^ 32 - 1).trans ht)
    have hmono := f64.mono ht.le
    rw [round_most] at hmono
    rw [exposure_of_lt_one h0 h1 rfl, cast_of_most_le hmono]

/-- A hundred and twenty-fifth of a second, two and a half seconds, two times that are
no such fraction, and three that are out of range. -/
theorem exposure_exact_speeds :
    exposure f64 (f64.round (1 / (125 : ℕ))) = (1, 125) ∧
    exposure f64 (f64.round ((25 : ℕ) / 10)) = (25, 10) ∧
    (∃ d : UInt32, exposure f64 (finite (2 / 5)) = (1, d) ∧
      |(d.toNat : ℚ) - 1 / (2 / 5)| ≤ 1 / 2 + 1 / (2 / 5) / 2 ^ 53) ∧
    (∃ n : UInt32, exposure f64 (finite (5 / 4)) = (n, 10) ∧
      |(n.toNat : ℚ) - 5 / 4 * 10| ≤ 1 / 2 + 5 / 4 * 10 / 2 ^ 53) ∧
    exposure f64 (finite (1 / 10 ^ 10)) = (1, 4294967295) ∧
    exposure f64 (finite (10 ^ 9)) = (4294967295, 10) ∧
    exposure f64 (finite (-5)) = (0, 10) := by
  obtain ⟨hreciprocal, htenths, hbelow, habove, hshort, hlong, hnone, -⟩ := exposure_exact
  exact ⟨hreciprocal 125 (by decide) (by decide), htenths 25 (by decide) (by decide),
    hbelow (2 / 5) (by norm_num) (by norm_num) (by norm_num),
    habove (5 / 4) (by norm_num) (by norm_num), hshort _ (by norm_num) (by norm_num),
    hlong _ (by norm_num [lt]), hnone _ (by norm_num [lt])⟩

end RawHelper.Render
