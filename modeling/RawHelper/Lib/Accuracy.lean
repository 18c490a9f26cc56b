import RawHelper.Lib.Binary

/-!
# How far rounding to a binary format goes

A rounded number is at most half a step away, and in the normal range a step is a
fixed part of the number: `Close u x y` says that `x` is `y` up to a part `u`, and
`close_nearest` that rounding is close, for the format's own `unit`.

`Binary.sqrt` is the square root, rounded to nearest even like the other
operations: `sqrtHalfEven` compares the number with the square halfway between two
integers, so nothing is computed but squares.  `close_sq_sqrt` says that its
square is close to the number twice over, which is all that bounds on an image's
size need.
-/

namespace Extended

open Value

/-! ## Steps -/

theorem abs_roundHalfEven_sub_le (q : ℚ) : |(roundHalfEven q : ℚ) - q| ≤ 1 / 2 := by
  have hq : (⌊q⌋ : ℚ) + Int.fract q = q := Int.floor_add_fract q
  have h0 := Int.fract_nonneg q
  have h1 := Int.fract_lt_one q
  rw [roundHalfEven, abs_le]
  split_ifs <;> push_cast <;> constructor <;> linarith

theorem abs_toStep_sub_le {u : ℚ} (hu : 0 < u) (q : ℚ) : |toStep u q - q| ≤ u / 2 := by
  have hq : toStep u q - q = (roundHalfEven (q / u) - q / u) * u := by
    rw [toStep, sub_mul, div_mul_cancel₀ q hu.ne']
  rw [hq, abs_mul, abs_of_pos hu]
  calc |(roundHalfEven (q / u) : ℚ) - q / u| * u ≤ 1 / 2 * u :=
        mul_le_mul_of_nonneg_right (abs_roundHalfEven_sub_le (q / u)) hu.le
    _ = u / 2 := by ring

/-! ## Close numbers -/

/-- `x` is `y` up to a part `u` of it. -/
structure Close (u x y : ℚ) : Prop where
  lower : (1 - u) * y ≤ x
  upper : x ≤ (1 + u) * y

theorem close_of_abs_le {u x y : ℚ} (h : |x - y| ≤ u * y) : Close u x y := by
  obtain ⟨h₁, h₂⟩ := abs_le.mp h
  exact ⟨by linarith, by linarith⟩

theorem Close.pos {u x y : ℚ} (h : Close u x y) (hu : u < 1) (hy : 0 < y) : 0 < x :=
  lt_of_lt_of_le (mul_pos (by linarith) hy) h.lower

theorem Close.mul_right {u x y : ℚ} (h : Close u x y) {c : ℚ} (hc : 0 ≤ c) :
    Close u (x * c) (y * c) := by
  refine ⟨?_, ?_⟩
  · rw [← mul_assoc]
    exact mul_le_mul_of_nonneg_right h.lower hc
  · rw [← mul_assoc]
    exact mul_le_mul_of_nonneg_right h.upper hc

/-- A number close to a quotient by something close to `y`: with `y` it gives what
was divided, up to both parts. -/
theorem quotient_of_close {u c x y d : ℚ} (hu1 : u < 1) (hc : 0 ≤ c)
    (hx0 : 0 < x) (hx : Close u x y) (hd : Close u d (c / x)) :
    (1 - u) * c ≤ (1 + u) * (d * y) ∧ (1 - u) * (d * y) ≤ (1 + u) * c := by
  have hdx : (1 - u) * c ≤ d * x ∧ d * x ≤ (1 + u) * c := by
    obtain ⟨h₁, h₂⟩ := hd.mul_right hx0.le
    rw [div_mul_cancel₀ _ hx0.ne'] at h₁ h₂
    exact ⟨h₁, h₂⟩
  have hd0 : 0 ≤ d :=
    (mul_nonneg (by linarith) (div_nonneg hc hx0.le)).trans hd.lower
  refine ⟨?_, ?_⟩
  · calc (1 - u) * c ≤ d * x := hdx.1
      _ ≤ d * ((1 + u) * y) := mul_le_mul_of_nonneg_left hx.upper hd0
      _ = (1 + u) * (d * y) := by ring
  · calc (1 - u) * (d * y) = d * ((1 - u) * y) := by ring
      _ ≤ d * x := mul_le_mul_of_nonneg_left hx.lower hd0
      _ ≤ (1 + u) * c := hdx.2

/-! ## Nearest integers -/

theorem abs_roundHalfAway_sub_le {q : ℚ} (hq : 0 ≤ q) : |(roundHalfAway q : ℚ) - q| ≤ 1 / 2 := by
  have hle := Int.floor_le (q + 1 / 2)
  have hlt := Int.lt_floor_add_one (q + 1 / 2)
  rw [roundHalfAway, if_pos hq, abs_le]
  constructor <;> linarith

/-- Less than a half away from an integer, that integer is the nearest. -/
theorem roundHalfAway_eq {q : ℚ} (hq : 0 ≤ q) {n : ℕ} (h : |q - n| < 1 / 2) :
    roundHalfAway q = n := by
  obtain ⟨h₁, h₂⟩ := abs_lt.mp h
  rw [roundHalfAway, if_pos hq, Int.floor_eq_iff]
  push_cast
  constructor <;> linarith

/-! ## Rounded numbers -/

namespace Binary

variable (B : Binary)

/-- Half a step at `1`. -/
def unit : ℚ := 2 ^ (-(B.precision : ℤ))

/-- The smallest number from which steps are parts. -/
def normal : ℚ := 2 ^ (B.smallest + (B.precision - 1))

theorem unit_pos : 0 < B.unit := by
  rw [unit]
  positivity

theorem unit_lt_one : B.unit < 1 := by
  have := B.le_precision
  rw [unit]
  exact zpow_lt_one_of_neg₀ (by norm_num) (by omega)

theorem unit_binary64 : binary64.unit = 1 / 2 ^ 53 := by
  norm_num [unit, binary64, zpow_neg]

theorem half_step (k : ℤ) : (2 : ℚ) ^ (k - (B.precision - 1)) / 2 = B.unit * 2 ^ k := by
  rw [unit, ← zpow_add₀ (by norm_num), div_eq_mul_inv, ← zpow_neg_one, ← zpow_add₀ (by norm_num)]
  congr 1
  ring

/-- **Rounding is close**, in the normal range. -/
theorem close_nearest {q : ℚ} (h : B.normal ≤ q) : Close B.unit (B.nearest q) q := by
  have hpos : 0 < q := lt_of_lt_of_le (by rw [normal]; positivity) h
  have hlog : B.smallest + (B.precision - 1) ≤ Int.log 2 q :=
    (Int.zpow_le_iff_le_log (by norm_num) hpos).mp (by exact_mod_cast h)
  have hscale : B.scale q = Int.log 2 q - (B.precision - 1) := max_eq_left (by omega)
  have hle : (2 : ℚ) ^ Int.log 2 q ≤ q := by
    exact_mod_cast Int.zpow_log_le_self (b := 2) (by omega) hpos
  refine close_of_abs_le ((abs_toStep_sub_le (by positivity) q).trans ?_)
  rw [hscale, half_step]
  exact mul_le_mul_of_nonneg_left hle B.unit_pos.le

/-- Half the smallest step. -/
def tiny : ℚ := 2 ^ (B.smallest - 1)

theorem tiny_pos : 0 < B.tiny := by
  rw [tiny]
  positivity

/-- Below the normal range too. -/
theorem abs_nearest_sub_le {q : ℚ} (h : 0 ≤ q) : |B.nearest q - q| ≤ B.unit * q + B.tiny := by
  have htiny := B.tiny_pos
  rcases h.eq_or_lt with rfl | hpos
  · rw [nearest_zero, sub_zero, abs_zero, mul_zero, zero_add]
    exact htiny.le
  · have hle : (2 : ℚ) ^ Int.log 2 q ≤ q := by
      exact_mod_cast Int.zpow_log_le_self (b := 2) (by omega) hpos
    have hunit := mul_le_mul_of_nonneg_left hle B.unit_pos.le
    refine (abs_toStep_sub_le (by positivity) q).trans ?_
    rcases le_total B.smallest (Int.log 2 q - (B.precision - 1)) with hscale | hscale
    · rw [scale, max_eq_left hscale, half_step]
      linarith
    · have hhalf : (2 : ℚ) ^ B.smallest / 2 = B.tiny := by
        rw [tiny, zpow_sub_one₀ (by norm_num)]
        ring
      have := mul_nonneg B.unit_pos.le h
      rw [scale, max_eq_right hscale, hhalf]
      linarith

/-- A number that is not negative, rounded to a finite one. -/
theorem round_eq_finite {q r : ℚ} (hq : 0 ≤ q) (h : B.round q = finite r) :
    r = B.nearest q ∧ r < 2 ^ B.bound := by
  rw [round, if_neg (not_lt.mpr hq), roundPos] at h
  split at h
  · next hlt =>
    obtain ⟨rfl⟩ := h
    exact ⟨rfl, hlt⟩
  · cases h

theorem round_of_lt {q : ℚ} (hq : 0 ≤ q) (h : B.nearest q < 2 ^ B.bound) :
    B.round q = finite (B.nearest q) := by
  rw [round, if_neg (not_lt.mpr hq), roundPos, if_pos h]

theorem abs_nearest_sub_le_of_le {q : ℚ} {k : ℤ} (h0 : 0 ≤ q) (h : q ≤ 2 ^ k)
    (hk : B.smallest ≤ k - (B.precision - 1)) : |B.nearest q - q| ≤ B.unit * 2 ^ k := by
  rcases h0.eq_or_lt with rfl | hpos
  · rw [nearest_zero, sub_zero, abs_zero]
    exact mul_nonneg B.unit_pos.le (by positivity)
  · have hlog : Int.log 2 q ≤ k := by
      have hmono := Int.log_mono_right (b := 2) hpos h
      have hpower : Int.log 2 ((2 : ℚ) ^ k) = k := by
        exact_mod_cast Int.log_zpow (R := ℚ) (b := 2) (by omega) k
      rwa [hpower] at hmono
    have hscale : B.scale q ≤ k - (B.precision - 1) := max_le (by omega) hk
    calc |B.nearest q - q| ≤ 2 ^ B.scale q / 2 := abs_toStep_sub_le (by positivity) q
      _ ≤ 2 ^ (k - (B.precision - 1)) / 2 :=
          div_le_div_of_nonneg_right (zpow_le_zpow_right₀ (by norm_num) hscale) (by norm_num)
      _ = B.unit * 2 ^ k := B.half_step k

/-- **Rounding a number of either sign**, far from overflow. -/
theorem round_near {q : ℚ} (h : |q| ≤ 2 ^ (B.bound - 1)) :
    ∃ r, B.round q = finite r ∧ |r - q| ≤ B.unit * |q| + B.tiny := by
  have hfinite : B.nearest |q| < 2 ^ B.bound := by
    have hone : (1 : ℕ) < 2 ^ B.precision :=
      Nat.one_lt_two_pow (by have := B.le_precision; omega)
    have hpower := B.nearest_of_multiple hone
      (show B.smallest ≤ B.bound - 1 by have := B.le_bound; have := B.smallest_le; omega)
    rw [Nat.cast_one, one_mul] at hpower
    calc B.nearest |q| ≤ B.nearest (2 ^ (B.bound - 1)) := B.nearest_mono (abs_nonneg q) h
      _ = 2 ^ (B.bound - 1) := hpower
      _ < 2 ^ B.bound := zpow_lt_zpow_right₀ (by norm_num) (by omega)
  have hclose := B.abs_nearest_sub_le (abs_nonneg q)
  by_cases hq : q < 0
  · rw [abs_of_neg hq] at hfinite hclose ⊢
    refine ⟨-B.nearest (-q), ?_, ?_⟩
    · rw [round, if_pos hq, roundPos, if_pos hfinite, neg]
    · rw [← abs_neg, show -(-B.nearest (-q) - q) = B.nearest (-q) - -q by ring]
      exact hclose
  · rw [abs_of_nonneg (not_lt.mp hq)] at hfinite hclose ⊢
    exact ⟨_, B.round_of_lt (not_lt.mp hq) hfinite, hclose⟩

/-! ## Square roots -/

end Binary

/-- The integer nearest to the root of a number, halves to even. -/
def sqrtHalfEven (q : ℚ) : ℕ :=
  let n := Nat.sqrt ⌊q⌋₊
  if q < (n + 1 / 2) ^ 2 then n
  else if (n + 1 / 2) ^ 2 < q then n + 1
  else if Even n then n else n + 1

/-- **The root is at most a half away.** -/
theorem sqrtHalfEven_spec {q : ℚ} (hq : 0 ≤ q) :
    q ≤ (sqrtHalfEven q + 1 / 2) ^ 2 ∧
      (sqrtHalfEven q = 0 ∨ ((sqrtHalfEven q : ℚ) - 1 / 2) ^ 2 ≤ q) := by
  have hle : ((Nat.sqrt ⌊q⌋₊ : ℕ) : ℚ) ^ 2 ≤ q := by
    have h : Nat.sqrt ⌊q⌋₊ ^ 2 ≤ ⌊q⌋₊ := Nat.sqrt_le' _
    exact (by exact_mod_cast h : ((Nat.sqrt ⌊q⌋₊ : ℕ) : ℚ) ^ 2 ≤ ⌊q⌋₊).trans (Nat.floor_le hq)
  have hlt : q < ((Nat.sqrt ⌊q⌋₊ : ℕ) + 1 : ℚ) ^ 2 := by
    have h : ⌊q⌋₊ < (Nat.sqrt ⌊q⌋₊ + 1) ^ 2 := Nat.lt_succ_sqrt' _
    exact_mod_cast (Nat.floor_lt hq).mp h
  rw [sqrtHalfEven]
  generalize Nat.sqrt ⌊q⌋₊ = n at hle hlt
  have hn : (0 : ℚ) ≤ n := n.cast_nonneg
  have hdown : n = 0 ∨ ((n : ℚ) - 1 / 2) ^ 2 ≤ q := by
    rcases Nat.eq_zero_or_pos n with h0 | hpos
    · exact Or.inl h0
    · have h1 : (1 : ℚ) ≤ n := by exact_mod_cast hpos
      exact Or.inr (by nlinarith)
  split_ifs with h₁ h₂ _
  · exact ⟨h₁.le, hdown⟩
  · push_cast
    exact ⟨by nlinarith, Or.inr (by nlinarith)⟩
  · exact ⟨not_lt.mp h₂, hdown⟩
  · push_cast
    exact ⟨by nlinarith, Or.inr (by nlinarith)⟩

theorem sqrtHalfEven_le {q : ℚ} (hq : 0 ≤ q) {m : ℕ} (h : q ≤ m ^ 2) : sqrtHalfEven q ≤ m := by
  obtain ⟨-, h0 | hge⟩ := sqrtHalfEven_spec hq
  · omega
  · have hle : (sqrtHalfEven q : ℚ) - 1 / 2 ≤ m :=
      (abs_le_of_sq_le_sq' (hge.trans h) m.cast_nonneg).2
    have hlt : (sqrtHalfEven q : ℚ) < (m + 1 : ℕ) := by
      push_cast
      linarith
    exact Nat.lt_succ_iff.mp (by exact_mod_cast hlt)

namespace Binary

variable (B : Binary)

/-- The exponent of the step of a number's root. -/
def rootScale (q : ℚ) : ℤ := max (Int.log 2 q / 2 - (B.precision - 1)) B.smallest

/-- The number nearest to the root of one that is not negative. -/
def sqrtPos (q : ℚ) : ℚ :=
  sqrtHalfEven (q / (2 ^ B.rootScale q) ^ 2) * 2 ^ B.rootScale q

/-- **The square root**, rounded to nearest even. -/
def sqrt : Value → Value
  | finite q =>
    if q < 0 then nan
    else if B.sqrtPos q < 2 ^ B.bound then finite (B.sqrtPos q) else inf false
  | inf negative => if negative then nan else inf false
  | nan => nan

theorem sqrtPos_nonneg (q : ℚ) : 0 ≤ B.sqrtPos q := by
  rw [sqrtPos]
  positivity

theorem sqrtPos_le_one {q : ℚ} (h0 : 0 ≤ q) (h1 : q ≤ 1) : B.sqrtPos q ≤ 1 := by
  have hscale : B.rootScale q ≤ 0 := by
    have hlog : Int.log 2 q ≤ 0 := by
      rcases h0.eq_or_lt with rfl | hpos
      · rw [Int.log_zero_right]
      · refine (Int.log_mono_right hpos h1).trans ?_
        rw [Int.log_one_right]
    have hprec := B.le_precision
    have hsmallest := B.smallest_le
    rw [rootScale]
    omega
  have hone : ((2 ^ (-B.rootScale q).toNat : ℕ) : ℚ) * 2 ^ B.rootScale q = 1 := by
    rw [Nat.cast_pow, Nat.cast_ofNat, ← zpow_natCast, Int.toNat_of_nonneg (by omega),
      ← zpow_add₀ (by norm_num), neg_add_cancel, zpow_zero]
  have hu : (0 : ℚ) < 2 ^ B.rootScale q := by positivity
  rw [sqrtPos]
  generalize (2 : ℚ) ^ B.rootScale q = u at hone hu ⊢
  have hle : q / u ^ 2 ≤ ((2 ^ (-B.rootScale q).toNat : ℕ) : ℚ) ^ 2 := by
    rw [div_le_iff₀ (by positivity), ← mul_pow, hone, one_pow]
    exact h1
  calc (sqrtHalfEven (q / u ^ 2) : ℚ) * u ≤ (2 ^ (-B.rootScale q).toNat : ℕ) * u := by
        have hn := sqrtHalfEven_le (by positivity) hle
        exact mul_le_mul_of_nonneg_right (by exact_mod_cast hn) hu.le
    _ = 1 := hone

/-- The root is at most half a step away. -/
theorem sqrtPos_spec {q : ℚ} (hq : 0 ≤ q) :
    q ≤ (B.sqrtPos q + 2 ^ B.rootScale q / 2) ^ 2 ∧
      (B.sqrtPos q = 0 ∨ (B.sqrtPos q - 2 ^ B.rootScale q / 2) ^ 2 ≤ q) := by
  have hu : (0 : ℚ) < 2 ^ B.rootScale q := by positivity
  have hu2 : (0 : ℚ) < (2 ^ B.rootScale q) ^ 2 := by positivity
  obtain ⟨hle, hge⟩ := sqrtHalfEven_spec (q := q / (2 ^ B.rootScale q) ^ 2) (by positivity)
  rw [sqrtPos]
  generalize sqrtHalfEven (q / (2 ^ B.rootScale q) ^ 2) = n at hle hge
  generalize (2 : ℚ) ^ B.rootScale q = u at hu hu2 hle hge
  refine ⟨?_, ?_⟩
  · calc q ≤ ((n : ℚ) + 1 / 2) ^ 2 * u ^ 2 := (div_le_iff₀ hu2).mp hle
      _ = (n * u + u / 2) ^ 2 := by ring
  · rcases hge with rfl | hge
    · exact Or.inl (by simp)
    · right
      calc (n * u - u / 2) ^ 2 = ((n : ℚ) - 1 / 2) ^ 2 * u ^ 2 := by ring
        _ ≤ q := (le_div_iff₀ hu2).mp hge

/-- **The square of the root is close twice over.** -/
theorem close_sq_sqrt {q : ℚ} (h : B.normal ^ 2 ≤ q) :
    (1 - B.unit) ^ 2 * q ≤ B.sqrtPos q ^ 2 ∧ B.sqrtPos q ^ 2 ≤ (1 + B.unit) ^ 2 * q := by
  have hpos : 0 < q := lt_of_lt_of_le (by rw [normal]; positivity) h
  have hlog : 2 * (B.smallest + (B.precision - 1)) ≤ Int.log 2 q := by
    refine (Int.zpow_le_iff_le_log (by norm_num) hpos).mp ?_
    rw [normal, ← zpow_natCast, ← zpow_mul, mul_comm] at h
    exact_mod_cast h
  have hscale : B.rootScale q = Int.log 2 q / 2 - (B.precision - 1) := max_eq_left (by omega)
  have hlow : ((2 : ℚ) ^ (Int.log 2 q / 2)) ^ 2 ≤ q := by
    have hle : (2 : ℚ) ^ Int.log 2 q ≤ q := by
      exact_mod_cast Int.zpow_log_le_self (b := 2) (by omega) hpos
    rw [← zpow_natCast, ← zpow_mul]
    exact (zpow_le_zpow_right₀ (by norm_num) (by push_cast; omega)).trans hle
  have hhalf : (2 : ℚ) ^ B.rootScale q / 2 = B.unit * 2 ^ (Int.log 2 q / 2) := by
    rw [hscale, unit, ← zpow_add₀ (by norm_num), div_eq_mul_inv, ← zpow_neg_one,
      ← zpow_add₀ (by norm_num)]
    congr 1
    ring
  obtain ⟨hle, hge⟩ := B.sqrtPos_spec hpos.le
  have hs := B.sqrtPos_nonneg q
  have hu := B.unit_pos
  have hu1 := B.unit_lt_one
  rw [hhalf] at hle hge
  have hstep : (B.unit * 2 ^ (Int.log 2 q / 2)) ^ 2 ≤ B.unit ^ 2 * q := by
    rw [mul_pow]
    exact mul_le_mul_of_nonneg_left hlow (by positivity)
  have hstep0 : 0 < B.unit * 2 ^ (Int.log 2 q / 2) := by positivity
  generalize B.sqrtPos q = s at hle hge hs ⊢
  generalize B.unit * 2 ^ (Int.log 2 q / 2) = d at hle hge hstep hstep0
  generalize B.unit = u at hu hu1 hstep ⊢
  refine ⟨?_, ?_⟩
  · by_contra hcon
    rw [not_le] at hcon
    -- then twice the product of `s` and the half step is too small for `q`
    have hprod : (s * d) ^ 2 ≤ (u * (1 - u) * q) ^ 2 := by
      calc (s * d) ^ 2 = s ^ 2 * d ^ 2 := by ring
        _ ≤ ((1 - u) ^ 2 * q) * (u ^ 2 * q) :=
            mul_le_mul hcon.le hstep (by positivity) (by positivity)
        _ = (u * (1 - u) * q) ^ 2 := by ring
    have hsd : s * d ≤ u * (1 - u) * q :=
      (abs_le_of_sq_le_sq' hprod (mul_nonneg (mul_nonneg hu.le (by linarith)) hpos.le)).2
    nlinarith
  · rcases hge with rfl | hge
    · positivity
    · have hprod : ((s - d) * d) ^ 2 ≤ (u * q) ^ 2 := by
        calc ((s - d) * d) ^ 2 = (s - d) ^ 2 * d ^ 2 := by ring
          _ ≤ q * (u ^ 2 * q) := mul_le_mul hge hstep (by positivity) hpos.le
          _ = (u * q) ^ 2 := by ring
      have hsd : (s - d) * d ≤ u * q := (abs_le_of_sq_le_sq' hprod (by positivity)).2
      nlinarith

/-- The root of a part is a part. -/
theorem sqrt_between {q : ℚ} (h0 : 0 ≤ q) (h1 : q ≤ 1) :
    B.sqrt (finite q) = finite (B.sqrtPos q) ∧ (B.sqrt (finite q)).Between 0 1 := by
  have hle := B.sqrtPos_le_one h0 h1
  have hlt : B.sqrtPos q < 2 ^ B.bound :=
    hle.trans_lt (one_lt_zpow₀ (by norm_num) (by have := B.le_bound; omega))
  have heq : B.sqrt (finite q) = finite (B.sqrtPos q) := by
    rw [sqrt, if_neg (not_lt.mpr h0), if_pos hlt]
  exact ⟨heq, _, heq, B.sqrtPos_nonneg q, hle⟩

end Binary

/-- Four, and the halfway case of `2 ^ 2` and `(2 + 1 / 2) ^ 2`, which goes to the
even one. -/
example : sqrtHalfEven 4 = 2 ∧ sqrtHalfEven (25 / 4) = 2 ∧ sqrtHalfEven (49 / 4) = 4 := by
  decide +kernel

end Extended
