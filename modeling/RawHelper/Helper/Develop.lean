import RawHelper.Lib.Accuracy
import RawHelper.Helper.Render

/-!
# The size of a developed image

`helper/src/system/macos.rs`: `develop` scales an image of more than
`MAX_DEVELOPED_PIXELS` pixels down to about as many.  The number of pixels, the
quotient and its root are rounded, so the scaled image may have a little more, or
a little less; then its sides are truncated.

`scaled_product` puts the four roundings together: what the scaled image has is
less than a pixel away from the limit.  So the truncated sides, being integers, are
within it exactly, and one pixel more of each would reach it or go beyond
(`develop_bounded`).  With that no product wraps and no side is cut, and the
layout is that of the buffer.

The operations round to nearest, ties to even; what Core Image makes of the scale,
the scaled extent, is taken as exact.
-/

namespace RawHelper.Render

open Extended Value Shm Binary

/-! ## The scale -/

theorem round_maxDevelopedPixels : f64.round maxDevelopedPixels = finite maxDevelopedPixels := by
  decide +kernel

theorem round_succ_maxDevelopedPixels :
    f64.round (maxDevelopedPixels + 1) = finite (maxDevelopedPixels + 1) := by
  decide +kernel

/-- `f64::sqrt`. -/
def f64Sqrt : Value → Value := binary64.sqrt

variable {image : Extent} {p q s : ℚ}

theorem round_div_between {X : ℚ} (h : maxDevelopedPixels < X) :
    f64.div (finite maxDevelopedPixels) (finite X) =
        finite (binary64.nearest (maxDevelopedPixels / X)) ∧
      (0 ≤ binary64.nearest (maxDevelopedPixels / X) ∧
        binary64.nearest (maxDevelopedPixels / X) ≤ 1) := by
  have hX : (0 : ℚ) < X := lt_of_le_of_lt (Nat.cast_nonneg _) h
  have h0 : (0 : ℚ) ≤ maxDevelopedPixels / X := div_nonneg (Nat.cast_nonneg _) hX.le
  obtain ⟨r, hr, hr0, hr1⟩ :=
    f64.round_between f64.round_zero f64.round_one h0 ((div_le_one hX).mpr h.le)
  obtain ⟨rfl, -⟩ := binary64.round_eq_finite h0 hr
  refine ⟨?_, hr0, hr1⟩
  rw [Format.div, if_neg hX.ne', hr]

/-- **The scale is between 0 and 1**, whatever the image. -/
theorem scale_between (image : Extent) : (scale f64 f64Sqrt image).Between 0 1 := by
  have hone : (finite 1).Between 0 1 := ⟨1, rfl, by norm_num, le_rfl⟩
  rw [scale]
  simp only [round_maxDevelopedPixels]
  split
  · next hlt =>
    cases hX : f64.mul image.width image.height with
    | finite X =>
      rw [hX] at hlt
      obtain ⟨hdiv, h0, h1⟩ := round_div_between (by simpa [lt] using hlt : _ < X)
      rw [hdiv]
      exact (binary64.sqrt_between h0 h1).2
    | inf negative =>
      exact (binary64.sqrt_between le_rfl (by norm_num)).2
    | nan =>
      rw [hX] at hlt
      cases hlt
  · exact hone

/-- Close to a limit over `x`, where `x` is close to `y`: with `y` it gives the
limit, up to both parts and up to those of the root. -/
theorem limit_of_close {u limit x y d : ℚ} (hu0 : 0 ≤ u) (hu1 : u < 1) (hlimit : 0 ≤ limit)
    (hx0 : 0 < x) (hy0 : 0 < y) (hx : Close u x y) (hd : Close u d (limit / x))
    (hs : (1 - u) ^ 2 * d ≤ s ^ 2 ∧ s ^ 2 ≤ (1 + u) ^ 2 * d) :
    (1 - u) ^ 3 * limit ≤ (1 + u) * (s ^ 2 * y) ∧
      (1 - u) * (s ^ 2 * y) ≤ (1 + u) ^ 3 * limit := by
  obtain ⟨hlower, hupper⟩ := quotient_of_close hu1 hlimit hx0 hx hd
  refine ⟨?_, ?_⟩
  · calc (1 - u) ^ 3 * limit = (1 - u) ^ 2 * ((1 - u) * limit) := by ring
      _ ≤ (1 - u) ^ 2 * ((1 + u) * (d * y)) := mul_le_mul_of_nonneg_left hlower (by positivity)
      _ = (1 + u) * ((1 - u) ^ 2 * d * y) := by ring
      _ ≤ (1 + u) * (s ^ 2 * y) :=
          mul_le_mul_of_nonneg_left (mul_le_mul_of_nonneg_right hs.1 hy0.le) (by linarith)
  · calc (1 - u) * (s ^ 2 * y) ≤ (1 - u) * ((1 + u) ^ 2 * d * y) :=
          mul_le_mul_of_nonneg_left (mul_le_mul_of_nonneg_right hs.2 hy0.le) (by linarith)
      _ = (1 + u) ^ 2 * ((1 - u) * (d * y)) := by ring
      _ ≤ (1 + u) ^ 2 * ((1 + u) * limit) := mul_le_mul_of_nonneg_left hupper (by positivity)
      _ = (1 + u) ^ 3 * limit := by ring

/-- The square of the scale of too many pixels, all but their product being rounded. -/
theorem sq_scale_near {y X : ℚ} (hy : maxDevelopedPixels < y) (hX : f64.round y = finite X)
    (hlt : maxDevelopedPixels < X) :
    ∃ s : ℚ, f64Sqrt (f64.div (finite maxDevelopedPixels) (finite X)) = finite s ∧
      (maxDevelopedPixels : ℚ) - 1 < s ^ 2 * y ∧ s ^ 2 * y < maxDevelopedPixels + 1 := by
  have hy0 : 0 < y := lt_of_le_of_lt (Nat.cast_nonneg _) hy
  obtain ⟨rfl, hbound⟩ := binary64.round_eq_finite hy0.le hX
  have hX0 : 0 < binary64.nearest y := lt_of_le_of_lt (Nat.cast_nonneg _) hlt
  obtain ⟨hdiv, h0, h1⟩ := round_div_between hlt
  refine ⟨_, by rw [hdiv, f64Sqrt, (binary64.sqrt_between h0 h1).1], ?_⟩
  have hnormal : binary64.normal < 1 := by decide +kernel
  have hx : Close binary64.unit (binary64.nearest y) y :=
    binary64.close_nearest (by
      have : (1 : ℚ) ≤ maxDevelopedPixels := by norm_num [maxDevelopedPixels]
      linarith)
  have hquot : (2 : ℚ) ^ (-1000 : ℤ) ≤ maxDevelopedPixels / binary64.nearest y := by
    rw [le_div_iff₀ hX0]
    calc (2 : ℚ) ^ (-1000 : ℤ) * binary64.nearest y
        ≤ 2 ^ (-1000 : ℤ) * 2 ^ (1024 : ℤ) :=
          mul_le_mul_of_nonneg_left hbound.le (by positivity)
      _ = 2 ^ (24 : ℤ) := by rw [← zpow_add₀ (by norm_num)]; norm_num
      _ ≤ maxDevelopedPixels := by norm_num [maxDevelopedPixels]
  have hd : Close binary64.unit _ (maxDevelopedPixels / binary64.nearest y) :=
    binary64.close_nearest ((by decide +kernel : binary64.normal ≤ 2 ^ (-1000 : ℤ)).trans hquot)
  have hroot := binary64.close_sq_sqrt
    (((by decide +kernel : binary64.normal ^ 2 ≤ (1 - binary64.unit) * 2 ^ (-1000 : ℤ)).trans
      (mul_le_mul_of_nonneg_left hquot (by linarith [binary64.unit_lt_one]))).trans hd.lower)
  obtain ⟨hlower, hupper⟩ := limit_of_close binary64.unit_pos.le binary64.unit_lt_one
    (Nat.cast_nonneg _) hX0 hy0 hx hd hroot
  rw [unit_binary64] at hlower hupper
  generalize binary64.sqrtPos _ ^ 2 * y = product at hlower hupper ⊢
  norm_num [maxDevelopedPixels] at hlower hupper ⊢
  constructor <;> linarith

/-- **What is left of the pixels** after scaling: less than one more than the
limit and, when there were more, less than one below. -/
theorem scaled_product (hp : 0 < p) (hq : 0 < q) (hs : 0 < s)
    (hscale : scale f64 f64Sqrt ⟨finite p, finite q⟩ = finite s) :
    (p * q ≤ maxDevelopedPixels → s = 1) ∧
      s ^ 2 * (p * q) < maxDevelopedPixels + 1 ∧
      (maxDevelopedPixels < p * q → (maxDevelopedPixels : ℚ) - 1 < s ^ 2 * (p * q)) := by
  have hpq : 0 < p * q := mul_pos hp hq
  rw [scale] at hscale
  simp only [round_maxDevelopedPixels, Format.mul] at hscale
  split at hscale
  · next hlt =>
    have hmore : (maxDevelopedPixels : ℚ) < p * q := by
      by_contra hcon
      have hmono := (f64.mono (not_lt.mp hcon)).2.2
      rw [round_maxDevelopedPixels, hlt] at hmono
      cases hmono
    cases hX : f64.round (p * q) with
    | finite X =>
      rw [hX] at hlt hscale
      have hlt : (maxDevelopedPixels : ℚ) < X := by simpa [lt] using hlt
      obtain ⟨r, hr, hlower, hupper⟩ := sq_scale_near hmore hX hlt
      rw [hr] at hscale
      obtain ⟨rfl⟩ := hscale
      exact ⟨fun hle => absurd hle (not_le.mpr hmore), hupper, fun _ => hlower⟩
    | inf negative =>
      rw [hX] at hscale
      have hzero : ∀ negative, f64Sqrt (f64.div (finite maxDevelopedPixels) (inf negative)) =
          finite 0 := by
        decide +kernel
      rw [hzero negative] at hscale
      obtain ⟨rfl⟩ := hscale
      exact absurd hs (lt_irrefl 0)
    | nan => exact absurd hX (f64.round_ne_nan _)
  · next hlt =>
    obtain ⟨rfl⟩ := hscale
    rw [one_pow, one_mul]
    refine ⟨fun _ => rfl, ?_, fun h => by linarith⟩
    by_contra hcon
    have hmono := f64.mono (not_lt.mp hcon)
    rw [round_succ_maxDevelopedPixels] at hmono
    apply hlt
    rcases hmono.finite_left with h | ⟨r, h, hr⟩
    · rw [h]
      rfl
    · rw [h]
      simp only [lt, decide_eq_true_eq]
      linarith

theorem scaled_eq_finite {p' q' : ℚ} (h : scaled f64 f64Sqrt image = ⟨finite p', finite q'⟩)
    (hp : 1 ≤ p') (hq : 1 ≤ q') :
    ∃ p q s : ℚ, image = ⟨finite p, finite q⟩ ∧ scale f64 f64Sqrt image = finite s ∧
      (0 < p ∧ 0 < q ∧ 0 < s ∧ s ≤ 1) ∧ p' = s * p ∧ q' = s * q := by
  obtain ⟨s, hs, hs0, hs1⟩ := scale_between image
  rw [scaled, hs] at h
  obtain ⟨width, height⟩ := image
  dsimp only at h
  split at h
  · obtain ⟨hw, hh⟩ := Extent.mk.inj h
    cases width with
    | finite p =>
      cases height with
      | finite q =>
        obtain ⟨rfl⟩ := hw
        obtain ⟨rfl⟩ := hh
        have hspos : 0 < s := hs0.lt_of_ne (by rintro rfl; linarith)
        have hpos : ∀ a : ℚ, 1 ≤ s * a → 0 < a := fun a ha =>
          pos_of_mul_pos_right (by linarith) hs0
        exact ⟨p, q, s, rfl, hs, ⟨hpos p hp, hpos q hq, hspos, hs1⟩, rfl, rfl⟩
      | inf negative => rw [Format.mul] at hh; split at hh <;> cases hh
      | nan => cases hh
    | inf negative => rw [Format.mul] at hw; split at hw <;> cases hw
    | nan => cases hw
  · next hlt =>
    obtain ⟨rfl, rfl⟩ := Extent.mk.inj h
    have hone : s = 1 := by
      have : 1 ≤ s := by simpa [lt] using hlt
      linarith
    subst hone
    exact ⟨p', q', 1, rfl, hs, ⟨by linarith, by linarith, one_pos, le_rfl⟩, by ring, by ring⟩

/-! ## What is rendered -/

theorem floor_product {a b : ℚ} {m : ℕ} (ha : 0 ≤ a) (hb : 0 ≤ b) :
    (a * b < m + 1 → ⌊a⌋₊ * ⌊b⌋₊ ≤ m) ∧ ((m : ℚ) - 1 < a * b → m ≤ (⌊a⌋₊ + 1) * (⌊b⌋₊ + 1)) := by
  refine ⟨?_, ?_⟩
  · intro h
    have hle : ((⌊a⌋₊ * ⌊b⌋₊ : ℕ) : ℚ) ≤ a * b := by
      rw [Nat.cast_mul]
      exact mul_le_mul (Nat.floor_le ha) (Nat.floor_le hb) (Nat.cast_nonneg _) ha
    have hlt : ((⌊a⌋₊ * ⌊b⌋₊ : ℕ) : ℚ) < (m + 1 : ℕ) := by
      push_cast
      exact lt_of_le_of_lt (by exact_mod_cast hle) h
    exact Nat.lt_succ_iff.mp (by exact_mod_cast hlt)
  · intro h
    have hle : a * b ≤ (((⌊a⌋₊ + 1) * (⌊b⌋₊ + 1) : ℕ) : ℚ) := by
      push_cast
      exact mul_le_mul (Nat.lt_floor_add_one a).le (Nat.lt_floor_add_one b).le hb (by positivity)
    have hlt : (m : ℚ) < (((⌊a⌋₊ + 1) * (⌊b⌋₊ + 1) + 1 : ℕ) : ℚ) := by
      rw [Nat.cast_add, Nat.cast_one]
      linarith
    exact Nat.lt_succ_iff.mp (by exact_mod_cast hlt)

section Rendered

variable {sys : System} {width height : UInt32} {call : Call}

theorem render_sides {format : PixelFormat} {bytesPerPixel : UInt64} {colorSpace : ColorSpace}
    (h : render sys image format bytesPerPixel colorSpace = .ok (width, height, call)) :
    width = (UInt64.ofNat (image.width.toNat 64)).toUInt32 ∧
      height = (UInt64.ofNat (image.height.toNat 64)).toUInt32 ∧
      call.buffer.len = UInt64.ofNat (image.width.toNat 64) * UInt64.ofNat (image.height.toNat 64) *
        bytesPerPixel := by
  rw [render] at h
  split at h
  · cases h
  · split at h
    · cases h
    · next buffer hbuffer =>
      split at h
      · cases h
      · split at h
        · cases h
        · obtain ⟨rfl, hrest⟩ := Prod.mk.inj (Except.ok.inj h)
          obtain ⟨rfl, rfl⟩ := Prod.mk.inj hrest
          exact ⟨rfl, rfl, (SharedBuffer.create_ok hbuffer).1⟩

theorem toNat_side {a : ℚ} {v : Value} (hv : v = finite a) (h : ⌊a⌋₊ < 2 ^ 32) :
    (UInt64.ofNat (v.toNat 64)).toNat = ⌊a⌋₊ ∧
      (UInt64.ofNat (v.toNat 64)).toUInt32.toNat = ⌊a⌋₊ := by
  subst hv
  have hsaturate : saturate 64 a = ⌊a⌋₊ := min_eq_left (by omega)
  have hnat : (UInt64.ofNat (saturate 64 a)).toNat = ⌊a⌋₊ := by
    rw [hsaturate, UInt64.toNat_ofNat']
    omega
  refine ⟨hnat, ?_⟩
  rw [UInt64.toNat_toUInt32]
  show (UInt64.ofNat (saturate 64 a)).toNat % 2 ^ 32 = ⌊a⌋₊
  rw [hnat, Nat.mod_eq_of_lt h]

end Rendered

section Developed

variable {F32 : Type} {file : SystemFile} {narrow : Value → F32} {sys : System}
  {layout : SensorLayout} {info : SensorInfo F32} {call : Call}

/-- The sides of what is developed: those of the scaled image, truncated and no more. -/
theorem develop_sides (h : file.develop f64 f64Sqrt narrow sys = .ok (layout, info, call)) :
    ∃ p q s : ℚ, file.image = .ok ⟨finite p, finite q⟩ ∧ info.scale = narrow (finite s) ∧
      s ≤ 1 ∧ layout.width.toNat = ⌊s * p⌋₊ ∧ layout.height.toNat = ⌊s * q⌋₊ ∧
      (p * q ≤ maxDevelopedPixels → s = 1) ∧
      layout.width.toNat * layout.height.toNat ≤ maxDevelopedPixels ∧
      (maxDevelopedPixels < p * q →
        maxDevelopedPixels ≤ (layout.width.toNat + 1) * (layout.height.toNat + 1)) ∧
      call.buffer.len.toNat = layout.width.toNat * layout.height.toNat * 8 := by
  obtain ⟨image, width, height, himage, ⟨-, hinfo⟩, rfl, hrender⟩ := develop_rendered h
  obtain ⟨p', q', -, -, hscaled, hp', hq', -, -, -, -, -, -⟩ := render_ok hrender
  obtain ⟨p, q, s, rfl, hscale, ⟨hp, hq, hs, hs1⟩, rfl, rfl⟩ := scaled_eq_finite hscaled hp' hq'
  obtain ⟨hsame, hless, hmore⟩ := scaled_product hp hq hs hscale
  have hproduct : s ^ 2 * (p * q) = s * p * (s * q) := by ring
  rw [hproduct] at hless hmore
  obtain ⟨hmost, hleast⟩ :=
    floor_product (m := maxDevelopedPixels) (a := s * p) (b := s * q) (by linarith) (by linarith)
  have hmost := hmost hless
  have hp1 : 0 < ⌊s * p⌋₊ := Nat.floor_pos.mpr hp'
  have hq1 : 0 < ⌊s * q⌋₊ := Nat.floor_pos.mpr hq'
  -- neither side is longer than the product
  have hlimit : maxDevelopedPixels < 2 ^ 32 := by decide
  have hpl := (Nat.le_mul_of_pos_right ⌊s * p⌋₊ hq1).trans hmost
  have hql := (Nat.le_mul_of_pos_left ⌊s * q⌋₊ hp1).trans hmost
  obtain ⟨hwidth, hheight, hlen⟩ := render_sides hrender
  rw [hscaled] at hwidth hheight hlen
  obtain ⟨hw, hw'⟩ := toNat_side (rfl : finite (s * p) = _) (hpl.trans_lt hlimit)
  obtain ⟨hh, hh'⟩ := toNat_side (rfl : finite (s * q) = _) (hql.trans_lt hlimit)
  rw [← hwidth] at hw'
  rw [← hheight] at hh'
  have hbytes : call.buffer.len.toNat = ⌊s * p⌋₊ * ⌊s * q⌋₊ * 8 := by
    rw [hlen, toNat_product, hw, hh]
    show ⌊s * p⌋₊ * ⌊s * q⌋₊ * 8 % 2 ^ 64 = _
    exact Nat.mod_eq_of_lt (by omega)
  refine ⟨p, q, s, himage, by rw [hinfo, hscale], hs1, hw', hh', hsame, ?_, ?_, ?_⟩
  · rw [hw', hh']
    exact hmost
  · rw [hw', hh']
    exact fun hlarge => hleast (hmore hlarge)
  · rw [hbytes, hw', hh']

theorem develop_bytes (h : file.develop f64 f64Sqrt narrow sys = .ok (layout, info, call)) :
    (layout.components = 4 ∧ layout.sample = .f16) ∧ call.buffer.len = layout.bytes ∧
      layout.bytes.toNat = (Layout.sensor layout).exactBytes ∧
      layout.bytes.toNat ≤ 8 * maxDevelopedPixels := by
  obtain ⟨-, -, -, -, -, -, -, -, -, hmost, -, hlen⟩ := develop_sides h
  obtain ⟨image, width, height, -, -, rfl, -⟩ := develop_rendered h
  dsimp only at hmost hlen
  have hlimit : maxDevelopedPixels < 2 ^ 32 := by decide
  have hexact : (Layout.sensor ⟨width, height, 4, .f16⟩).exactBytes =
      width.toNat * height.toNat * 8 := by
    show width.toNat * height.toNat * 4 * 2 = _
    ring
  have hbytes : (SensorLayout.bytes ⟨width, height, 4, .f16⟩).toNat =
      width.toNat * height.toNat * 8 := by
    have hwrap := Layout.toNat_bytes (.sensor ⟨width, height, 4, .f16⟩)
    rw [hexact, Nat.mod_eq_of_lt (by omega)] at hwrap
    exact hwrap
  refine ⟨⟨rfl, rfl⟩, ?_, by rw [hbytes, hexact], by rw [hbytes]; omega⟩
  rw [← UInt64.toNat_inj, hbytes, hlen]

/-- **A developed image has at most the limit's pixels, and about as many if it has to
be scaled.**  It is the file's image at one scale, at most 1 and told in the record;
an image within the limit keeps its size, and one pixel more of each side of a larger
one would give the limit or more.  Its layout describes the buffer exactly, in at
most eight bytes a pixel. -/
theorem develop_bounded (h : file.develop f64 f64Sqrt narrow sys = .ok (layout, info, call)) :
    ∃ p q s : ℚ, file.image = .ok ⟨finite p, finite q⟩ ∧ info.scale = narrow (finite s) ∧
      s ≤ 1 ∧ layout.width.toNat = ⌊s * p⌋₊ ∧ layout.height.toNat = ⌊s * q⌋₊ ∧
      (p * q ≤ maxDevelopedPixels → s = 1) ∧
      layout.width.toNat * layout.height.toNat ≤ maxDevelopedPixels ∧
      (maxDevelopedPixels < p * q →
        maxDevelopedPixels ≤ (layout.width.toNat + 1) * (layout.height.toNat + 1)) ∧
      call.buffer.len = layout.bytes ∧
      layout.bytes.toNat = (Layout.sensor layout).exactBytes ∧
      layout.bytes.toNat ≤ 8 * maxDevelopedPixels := by
  obtain ⟨p, q, s, himage, hscale, hs1, hw, hh, hsame, hmost, hleast, -⟩ := develop_sides h
  obtain ⟨-, hlen, hexact, hbound⟩ := develop_bytes h
  exact ⟨p, q, s, himage, hscale, hs1, hw, hh, hsame, hmost, hleast, hlen, hexact, hbound⟩

end Developed

theorem scaled_f64Sqrt_large : scaled f64 f64Sqrt ⟨finite (15625 : ℕ), finite (25600 : ℕ)⟩ =
    ⟨finite (15625 / 2), finite (12800 : ℕ)⟩ := by
  decide +kernel

/-- An image of four times the limit, at one half. -/
theorem develop_bounded_large :
    ∃ layout info call, (fileOf 15625 25600).develop f64 f64Sqrt toF32 .reliable =
        .ok (layout, info, call) ∧
      (layout.width.toNat, layout.height.toNat) = (7812, 12800) ∧
      layout.width.toNat * layout.height.toNat ≤ maxDevelopedPixels ∧
      call.buffer.len = layout.bytes ∧ layout.bytes.toNat ≤ 8 * maxDevelopedPixels := by
  obtain ⟨buffer, hbuffer⟩ := create_reliable 799948800 (by decide) (by decide) (by decide)
  have hrender := render_reliable ⟨finite (15625 / 2), finite (12800 : ℕ)⟩ .rgbah
    .extendedLinearItur2020 (w := 7812) (h := 12800) (by decide +kernel) (by decide +kernel)
    (by decide) (by decide) rfl rfl hbuffer
  rw [← scaled_f64Sqrt_large] at hrender
  obtain ⟨info, hdevelop⟩ := develop_of_render (fileOf 15625 25600) toF32 rfl hrender
  obtain ⟨p, q, s, -, -, -, -, -, -, hmost, -, hlen, -, hbytes⟩ := develop_bounded hdevelop
  exact ⟨_, info, _, hdevelop, rfl, hmost, hlen, hbytes⟩

end RawHelper.Render
