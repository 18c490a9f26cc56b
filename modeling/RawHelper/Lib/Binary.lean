import RawHelper.Lib.Extended
import RawHelper.Lib.Ieee
import Mathlib.Data.Int.Log

/-!
# The binary formats, rounded to nearest even

A binary format has a precision, a smallest step and a bound past which it
overflows.  A number is rounded to a multiple of its step, `2 ^ scale`, where the
scale is the one that leaves `precision` digits, or the smallest there is.

`nearest_mono` is the only point with an argument: within one scale rounding is
that of integers, and between two scales there is a power of two that is a
multiple of both steps.  So every binary format is a `Format` (`Binary.toFormat`), and
`nearest_of_multiple` says which numbers it holds; the finite patterns of
binary64 are among them (`binary64_toRat`).
-/

namespace Extended

open Value Ieee

/-! ## Rounding to an integer -/

/-- The nearest integer, halves to even. -/
def roundHalfEven (q : ℚ) : ℤ :=
  if Int.fract q < 1 / 2 then ⌊q⌋
  else if 1 / 2 < Int.fract q then ⌊q⌋ + 1
  else if Even ⌊q⌋ then ⌊q⌋ else ⌊q⌋ + 1

theorem floor_le_roundHalfEven (q : ℚ) : ⌊q⌋ ≤ roundHalfEven q ∧ roundHalfEven q ≤ ⌊q⌋ + 1 := by
  rw [roundHalfEven]
  split_ifs <;> omega

theorem roundHalfEven_intCast (n : ℤ) : roundHalfEven n = n := by
  rw [roundHalfEven, if_pos (by rw [Int.fract_intCast]; norm_num), Int.floor_intCast]

theorem roundHalfEven_mono {p q : ℚ} (h : p ≤ q) : roundHalfEven p ≤ roundHalfEven q := by
  rcases (Int.floor_mono h).lt_or_eq with hlt | heq
  · exact (floor_le_roundHalfEven p).2.trans
      ((Int.add_one_le_iff.mpr hlt).trans (floor_le_roundHalfEven q).1)
  · have hfract : Int.fract p ≤ Int.fract q := by
      rw [Int.fract, Int.fract, heq]
      linarith
    rw [roundHalfEven, roundHalfEven, heq]
    split_ifs <;> first | omega | (exfalso; linarith)

/-! ## Rounding to a multiple of a step -/

/-- The nearest multiple of `u`. -/
def toStep (u q : ℚ) : ℚ := roundHalfEven (q / u) * u

theorem toStep_mono {u : ℚ} (hu : 0 < u) {p q : ℚ} (h : p ≤ q) : toStep u p ≤ toStep u q := by
  have hdiv : p / u ≤ q / u := div_le_div_of_nonneg_right h hu.le
  have hint : (roundHalfEven (p / u) : ℚ) ≤ roundHalfEven (q / u) :=
    Int.cast_le.mpr (roundHalfEven_mono hdiv)
  exact mul_le_mul_of_nonneg_right hint hu.le

theorem toStep_multiple {u : ℚ} (hu : 0 < u) (n : ℤ) : toStep u (n * u) = n * u := by
  rw [toStep, mul_div_cancel_right₀ _ hu.ne', roundHalfEven_intCast]

/-- A power of two is a multiple of a smaller one. -/
theorem toStep_zpow {e k : ℤ} (h : e ≤ k) : toStep ((2 : ℚ) ^ e) (2 ^ k) = 2 ^ k := by
  have hk : (2 : ℚ) ^ k = ((2 ^ (k - e).toNat : ℤ) : ℚ) * 2 ^ e := by
    rw [Int.cast_pow, Int.cast_ofNat, ← zpow_natCast, Int.toNat_of_nonneg (by omega),
      ← zpow_add₀ (by norm_num)]
    congr 1
    ring
  rw [hk]
  exact toStep_multiple (by positivity) _

/-! ## Binary formats -/

/-- `precision` binary digits, steps of `2 ^ smallest` and up, overflow from
`2 ^ bound` on.  The integers up to 65535 are well inside. -/
structure Binary where
  precision : ℕ
  smallest : ℤ
  bound : ℤ
  le_precision : 16 ≤ precision
  smallest_le : smallest ≤ 0
  le_bound : 16 ≤ bound

namespace Binary

variable (B : Binary)

/-- The exponent of the step of a positive number. -/
def scale (q : ℚ) : ℤ := max (Int.log 2 q - (B.precision - 1)) B.smallest

/-- The number nearest to a non-negative one, without overflow. -/
def nearest (q : ℚ) : ℚ := toStep (2 ^ B.scale q) q

theorem nearest_zero : B.nearest 0 = 0 := by
  have := toStep_multiple (u := (2 : ℚ) ^ B.scale 0) (by positivity) 0
  simpa [nearest] using this

/-- **Rounding is monotone**, across the scales too. -/
theorem nearest_mono {p q : ℚ} (h0 : 0 ≤ p) (h : p ≤ q) : B.nearest p ≤ B.nearest q := by
  rcases h0.eq_or_lt with rfl | hp
  · rw [nearest_zero]
    have := toStep_mono (u := (2 : ℚ) ^ B.scale q) (by positivity) h
    have hzero := toStep_multiple (u := (2 : ℚ) ^ B.scale q) (by positivity) 0
    rw [Int.cast_zero, zero_mul] at hzero
    rwa [hzero] at this
  · have hlog := Int.log_mono_right (b := 2) hp h
    have hscale : B.scale p ≤ B.scale q := by
      rw [scale, scale]
      omega
    rcases hscale.eq_or_lt with heq | hlt
    · rw [nearest, nearest, heq]
      exact toStep_mono (by positivity) h
    · -- the power of two between them is a multiple of both steps
      have hlow : p ≤ 2 ^ Int.log 2 q := by
        have h₁ : p < (2 : ℕ) ^ (Int.log 2 p + 1) := Int.lt_zpow_succ_log_self (by omega) p
        have h₂ : Int.log 2 p + 1 ≤ Int.log 2 q := by
          rw [scale, scale] at hlt
          omega
        exact (le_of_lt (by exact_mod_cast h₁)).trans (zpow_le_zpow_right₀ (by norm_num) h₂)
      have hhigh : (2 : ℚ) ^ Int.log 2 q ≤ q := by
        exact_mod_cast Int.zpow_log_le_self (b := 2) (by omega) (hp.trans_le h)
      have hprec := B.le_precision
      have hq : B.scale q ≤ Int.log 2 q := by
        rw [scale, scale] at hlt
        rw [scale]
        omega
      calc B.nearest p ≤ toStep (2 ^ B.scale p) (2 ^ Int.log 2 q) :=
            toStep_mono (by positivity) hlow
        _ = toStep (2 ^ B.scale q) (2 ^ Int.log 2 q) := by
            rw [toStep_zpow (hlt.le.trans hq), toStep_zpow hq]
        _ ≤ B.nearest q := toStep_mono (by positivity) hhigh

/-- **The format holds every number of that many digits**, in steps no smaller
than its own. -/
theorem nearest_of_multiple {n : ℕ} {k : ℤ} (hn : n < 2 ^ B.precision) (hk : B.smallest ≤ k) :
    B.nearest (n * 2 ^ k) = n * 2 ^ k := by
  rcases Nat.eq_zero_or_pos n with rfl | hpos
  · simpa using B.nearest_zero
  · have hq : (0 : ℚ) < n * 2 ^ k := by positivity
    have hscale : B.scale (n * 2 ^ k) ≤ k := by
      have hlt : (n * 2 ^ k : ℚ) < (2 : ℕ) ^ ((B.precision : ℤ) + k) := by
        rw [Nat.cast_ofNat, zpow_add₀ (by norm_num), zpow_natCast]
        exact mul_lt_mul_of_pos_right (by exact_mod_cast hn) (by positivity)
      have hlog := (Int.lt_zpow_iff_log_lt (by omega) hq).mp hlt
      rw [scale]
      omega
    have hmul : (n * 2 ^ k : ℚ) =
        ((n * 2 ^ (k - B.scale (n * 2 ^ k)).toNat : ℤ) : ℚ) * 2 ^ B.scale (n * 2 ^ k) := by
      rw [Int.cast_mul, Int.cast_natCast, Int.cast_pow, Int.cast_ofNat, ← zpow_natCast,
        Int.toNat_of_nonneg (by omega), mul_assoc, ← zpow_add₀ (by norm_num)]
      congr 2
      ring
    rw [nearest]
    nth_rewrite 2 [hmul]
    rw [toStep_multiple (by positivity), ← hmul]

theorem nearest_nonneg {q : ℚ} (h : 0 ≤ q) : 0 ≤ B.nearest q := by
  have := B.nearest_mono le_rfl h
  rwa [nearest_zero] at this

/-- A non-negative number, rounded, or an infinity past the bound. -/
def roundPos (q : ℚ) : Value :=
  if B.nearest q < 2 ^ B.bound then finite (B.nearest q) else inf false

def neg : Value → Value
  | finite q => finite (-q)
  | inf s => inf (!s)
  | nan => nan

/-- **Rounding to nearest even**, the sign apart. -/
def round (q : ℚ) : Value := if q < 0 then neg (B.roundPos (-q)) else B.roundPos q

theorem roundPos_of_lt {q : ℚ} (h : B.nearest q = q) (hlt : q < 2 ^ B.bound) :
    B.roundPos q = finite q := by
  rw [roundPos, h, if_pos hlt]

theorem roundPos_mono {p q : ℚ} (h0 : 0 ≤ p) (h : p ≤ q) :
    (B.roundPos p).Le (B.roundPos q) := by
  have hmono := B.nearest_mono h0 h
  rw [roundPos, roundPos]
  split_ifs with h₁ h₂ h₂
  · exact ⟨Value.noConfusion, Value.noConfusion, by simpa [lt] using hmono⟩
  · exact ⟨Value.noConfusion, Value.noConfusion, rfl⟩
  · exact absurd (hmono.trans_lt h₂) h₁
  · exact ⟨Value.noConfusion, Value.noConfusion, rfl⟩

theorem neg_le_neg {a b : Value} (h : a.Le b) : (neg b).Le (neg a) := by
  obtain ⟨ha, hb, hlt⟩ := h
  rcases a with p | s | _ <;> rcases b with q | t | _
  · exact ⟨Value.noConfusion, Value.noConfusion, by simpa [neg, lt] using hlt⟩
  · exact ⟨Value.noConfusion, Value.noConfusion, by simpa [neg, lt] using hlt⟩
  · exact absurd rfl hb
  · exact ⟨Value.noConfusion, Value.noConfusion, by simpa [neg, lt] using hlt⟩
  · exact ⟨Value.noConfusion, Value.noConfusion, by
      cases s <;> cases t <;> simp_all [neg, lt]⟩
  · exact absurd rfl hb
  all_goals exact absurd rfl ha

/-- A negative number stays below a non-negative one. -/
theorem neg_roundPos_le {p q : ℚ} (hp : 0 ≤ p) (hq : 0 ≤ q) :
    (neg (B.roundPos p)).Le (B.roundPos q) := by
  have h₁ := B.nearest_nonneg hp
  have h₂ := B.nearest_nonneg hq
  rw [roundPos, roundPos]
  split_ifs
  · exact ⟨Value.noConfusion, Value.noConfusion, by simp [neg, lt]; linarith⟩
  all_goals exact ⟨Value.noConfusion, Value.noConfusion, rfl⟩

theorem round_mono {p q : ℚ} (h : p ≤ q) : (B.round p).Le (B.round q) := by
  rw [round, round]
  split_ifs with hp hq hq
  · exact neg_le_neg (B.roundPos_mono (by linarith) (by linarith))
  · exact B.neg_roundPos_le (by linarith) (not_lt.mp hq)
  · exact absurd (h.trans_lt hq) hp
  · exact B.roundPos_mono (not_lt.mp hp) h

/-- **The numbers of the format are left unchanged**, of either sign. -/
theorem round_of_multiple {n : ℕ} {k : ℤ} (hn : n < 2 ^ B.precision) (hk : B.smallest ≤ k)
    (hlt : (n * 2 ^ k : ℚ) < 2 ^ B.bound) (negative : Bool) :
    B.round (if negative then -(n * 2 ^ k) else n * 2 ^ k) =
      finite (if negative then -(n * 2 ^ k) else n * 2 ^ k) := by
  have hpos := B.roundPos_of_lt (B.nearest_of_multiple hn hk) hlt
  have hnonneg : (0 : ℚ) ≤ n * 2 ^ k := by positivity
  cases negative with
  | false => rw [if_neg (by simp), round, if_neg (not_lt.mpr hnonneg), hpos]
  | true =>
    rw [if_pos rfl, round]
    split_ifs with h
    · rw [neg_neg, hpos, neg]
    · have hzero : (n * 2 ^ k : ℚ) = 0 := by linarith
      rw [hzero] at hpos
      rw [hzero, neg_zero, hpos]

/-- A binary format is a format. -/
def toFormat : Format where
  round := B.round
  mono := B.round_mono
  round_natCast n hn := by
    have hdigits : n < 2 ^ B.precision :=
      calc n < 2 ^ 16 := by omega
        _ ≤ 2 ^ B.precision := Nat.pow_le_pow_right (by omega) B.le_precision
    have hbound : (n : ℚ) < 2 ^ B.bound :=
      calc (n : ℚ) < 2 ^ (16 : ℤ) := by
            have : (n : ℚ) ≤ 65535 := by exact_mod_cast hn
            norm_num
            linarith
        _ ≤ 2 ^ B.bound := zpow_le_zpow_right₀ (by norm_num) B.le_bound
    simpa using B.round_of_multiple (k := 0) hdigits B.smallest_le (by simpa using hbound) false

end Binary

/-! ## Single and double precision -/

def binary32 : Binary where
  precision := 24
  smallest := -149
  bound := 128
  le_precision := by omega
  smallest_le := by omega
  le_bound := by omega

def binary64 : Binary where
  precision := 53
  smallest := -1074
  bound := 1024
  le_precision := by omega
  smallest_le := by omega
  le_bound := by omega

/-- A finite pattern has 53 digits and an exponent within the format's. -/
theorem toRat_eq (d : Double) (h : d.isFinite) : ∃ (n : ℕ) (k : ℤ), n < 2 ^ 53 ∧ -1074 ≤ k ∧
    k ≤ 971 ∧ d.toRat = if d.negative then -(n * 2 ^ k : ℚ) else n * 2 ^ k := by
  have hfraction : d.fraction < 2 ^ 52 := Nat.mod_lt _ (by norm_num)
  have hexponent : d.exponent < 2 ^ 11 := Nat.mod_lt _ (by norm_num)
  have hfinite : d.exponent ≠ 2 ^ 11 - 1 := by simpa [Double.isFinite] using h
  by_cases h0 : d.exponent = 0
  · refine ⟨d.fraction, -1074, by omega, le_rfl, by omega, ?_⟩
    rw [Double.toRat, if_pos h0]
    norm_num [div_eq_mul_inv, zpow_neg]
  · refine ⟨2 ^ 52 + d.fraction, d.exponent - 1075, by omega, by omega, by omega, ?_⟩
    have hpow : (2 : ℚ) ^ ((d.exponent : ℤ) - 1075) = 2 ^ d.exponent / 2 ^ 1075 := by
      rw [zpow_sub₀ (by norm_num), zpow_natCast]
      norm_cast
    rw [Double.toRat, if_neg h0, hpow, Nat.cast_add, Nat.cast_pow, Nat.cast_ofNat, mul_div_assoc]

/-- **Binary64 holds every finite pattern.** -/
theorem binary64_toRat (d : Double) (h : d.isFinite) :
    binary64.round d.toRat = finite d.toRat := by
  obtain ⟨n, k, hn, hk, hk', heq⟩ := toRat_eq d h
  rw [heq]
  refine binary64.round_of_multiple hn hk ?_ d.negative
  calc (n * 2 ^ k : ℚ) < 2 ^ 53 * 2 ^ k :=
        mul_lt_mul_of_pos_right (by exact_mod_cast hn) (by positivity)
    _ ≤ 2 ^ 53 * 2 ^ (971 : ℤ) := by
        have := zpow_le_zpow_right₀ (a := (2 : ℚ)) (by norm_num) hk'
        linarith
    _ = 2 ^ (1024 : ℤ) := by rw [← zpow_natCast, ← zpow_add₀ (by norm_num)]; norm_num

end Extended
