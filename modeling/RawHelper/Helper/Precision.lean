import RawHelper.Lib.Accuracy
import RawHelper.Helper.Clipping

/-!
# How exact the linearisation tables are

`linearization` computes in `f64` and keeps `f32`.  `linearization_accurate` says how far
its tables are from those of exact arithmetic, for any list: `deviation` bounds the
distance by the mappings a plane goes through.

Each mapping adds the rounding to `f32`, and a polynomial the error of Horner's rule on
top of what its slope makes of the error before it (`map_polynomial_near`).  A table is a
step function, so an error may make it jump, and nothing is claimed of one that follows
other mappings.  The first mapping of a plane is different: its argument is a rounded
`i / 127`, and 65535 times that is never so near to a half that the rounding can change
the entry it selects (`index_point`).
-/

namespace RawHelper.Linearization

open Ieee Opcodes Extended Value

/-! ## The bound -/

/-- The sizes of the coefficients, added. -/
def mass : List Double → ℚ
  | [] => 0
  | k :: c => mass c + |k.toRat|

/-- The sizes of the coefficients of the derivative, added. -/
def slope : List Double → ℚ
  | [] => 0
  | _ :: c => slope c + mass c

/-- A bound on the error of a table, the mappings last first. -/
def deviation : List Mapping → ℚ
  | [] => 1 / 2 ^ 24
  | [.table _] => 1 / 2 ^ 24 + 1 / 2 ^ 53
  -- a step function of a number that is not exact
  | .table _ :: _ :: _ => 1
  | .polynomial c :: before =>
    1 / 2 ^ 24 + 1 / 2 ^ 47 * (mass c + 1) + slope c * deviation before

/-- The mappings of a plane, the last first. -/
def mappings (ops : List PlaneMapping) (p : ℕ) : List Mapping :=
  ((ops.filter fun a => a.covers p).map PlaneMapping.mapping).reverse

theorem mappings_append (ops : List PlaneMapping) (a : PlaneMapping) (p : ℕ) :
    mappings (ops ++ [a]) p =
      if a.covers p then a.mapping :: mappings ops p else mappings ops p := by
  rw [mappings, List.filter_append, List.map_append, List.reverse_append]
  by_cases h : a.covers p
  · rw [if_pos h, List.filter_cons_of_pos (by simpa using h)]
    rfl
  · rw [if_neg h, List.filter_cons_of_neg (by simpa using h)]
    rfl

theorem mass_nonneg (c : List Double) : 0 ≤ mass c := by
  induction c with
  | nil => exact le_rfl
  | cons k c ih => exact add_nonneg ih (abs_nonneg _)

theorem slope_nonneg (c : List Double) : 0 ≤ slope c := by
  induction c with
  | nil => exact le_rfl
  | cons k c ih => exact add_nonneg ih (mass_nonneg c)

/-! ## Polynomials -/

theorem horner_cons {S D : Type} (A : Arithmetic S D) (k : Double) (c : List Double) (x : D) :
    horner A (k :: c) x = A.add (A.mul (horner A c x) x) (A.ofBits k) := by
  rw [horner_eq_foldr, horner_eq_foldr, List.foldr_cons]

theorem horner_exact_cons (k : Double) (c : List Double) (x : ℚ) :
    horner exact (k :: c) x = horner exact c x * x + k.toRat :=
  horner_cons exact k c x

section Unit

variable {x v : ℚ}

theorem abs_mul_le_of_unit (hx : 0 ≤ x ∧ x ≤ 1) (s : ℚ) : |s * x| ≤ |s| := by
  rw [abs_mul, abs_of_nonneg hx.1]
  exact mul_le_of_le_one_right (abs_nonneg s) hx.2

theorem abs_horner_exact_le (hx : 0 ≤ x ∧ x ≤ 1) (c : List Double) :
    |horner exact c x| ≤ mass c := by
  induction c with
  | nil => exact (abs_zero (α := ℚ)).le
  | cons k c ih =>
    rw [horner_exact_cons, mass]
    exact (abs_add_le _ _).trans (add_le_add_left ((abs_mul_le_of_unit hx _).trans ih) _)

/-- Two arguments, and how steep the polynomial is. -/
theorem abs_horner_exact_sub_le (hx : 0 ≤ x ∧ x ≤ 1) (hv : 0 ≤ v ∧ v ≤ 1) (c : List Double) :
    |horner exact c v - horner exact c x| ≤ slope c * |v - x| := by
  induction c with
  | nil =>
    rw [slope, zero_mul]
    exact (abs_eq_zero.mpr (sub_self (exact.ofNat 0))).le
  | cons k c ih =>
    have hsplit : horner exact (k :: c) v - horner exact (k :: c) x =
        (horner exact c v - horner exact c x) * v + horner exact c x * (v - x) := by
      rw [horner_exact_cons, horner_exact_cons]
      ring
    have hsteep := (abs_mul_le_of_unit hv (horner exact c v - horner exact c x)).trans ih
    have hsize : |horner exact c x * (v - x)| ≤ mass c * |v - x| := by
      rw [abs_mul]
      exact mul_le_mul_of_nonneg_right (abs_horner_exact_le hx c) (abs_nonneg _)
    rw [hsplit, slope, add_mul]
    exact (abs_add_le _ _).trans (add_le_add hsteep hsize)

/-! ### In doubles -/

theorem tiny_binary64_le : binary64.tiny ≤ 1 / 2 ^ 60 := by
  have h : (2 : ℚ) ^ (binary64.smallest - 1) ≤ 2 ^ (-60 : ℤ) :=
    zpow_le_zpow_right₀ (by norm_num) (by decide)
  rw [Binary.tiny]
  exact h.trans (by norm_num)

/-- An operation on doubles that stays far from overflow. -/
theorem round64_near {q : ℚ} (h : |q| ≤ 2 ^ 64) :
    ∃ r, ieee.double.round q = finite r ∧ |r - q| ≤ 1 / 2 ^ 53 * |q| + 1 / 2 ^ 60 := by
  have hbound : (2 : ℚ) ^ 64 ≤ 2 ^ (binary64.bound - 1) := by
    rw [← zpow_natCast]
    exact zpow_le_zpow_right₀ (by norm_num) (by decide)
  obtain ⟨r, hr, hnear⟩ := binary64.round_near (h.trans hbound)
  refine ⟨r, hr, hnear.trans ?_⟩
  rw [Binary.unit_binary64]
  exact add_le_add_right tiny_binary64_le _

/-- **One step of Horner's rule**: both roundings and the error before. -/
theorem horner_step_near (hx : 0 ≤ x ∧ x ≤ 1) {s r M e K : ℚ} (hs : |s| ≤ M) (hr : |r - s| ≤ e)
    (hM : M ≤ 2 ^ 47) (he : e ≤ 1 / 2 ^ 40 * (M + 1)) {k : ℚ} (hk : |k| ≤ K) (hK : K ≤ 2 ^ 47) :
    ∃ r', ieee.double.add (ieee.double.mul (finite r) (finite x)) (finite k) = finite r' ∧
      |r' - (s * x + k)| ≤ e + 1 / 2 ^ 51 * (M + K + 1) := by
  have hM0 : 0 ≤ M := (abs_nonneg s).trans hs
  have hK0 : 0 ≤ K := (abs_nonneg k).trans hk
  have hrabs : |r| ≤ M + e := by
    have := abs_add_le s (r - s)
    rw [add_sub_cancel] at this
    linarith
  have hrx := (abs_mul_le_of_unit hx r).trans hrabs
  obtain ⟨m, hm, hmnear⟩ := round64_near (q := r * x) (by linarith)
  have hmabs : |m + k| ≤ |r * x| + |m - r * x| + |k| := by
    have := abs_add_three (r * x) (m - r * x) k
    rwa [show r * x + (m - r * x) + k = m + k by ring] at this
  obtain ⟨r', hr', hrnear⟩ := round64_near (q := m + k) (by linarith)
  refine ⟨r', ?_, ?_⟩
  · rw [Format.mul, hm, Format.add, hr']
  · have hold : |(r - s) * x| ≤ e := (abs_mul_le_of_unit hx _).trans hr
    have hsum := abs_add_three (r' - (m + k)) (m - r * x) ((r - s) * x)
    rw [show r' - (m + k) + (m - r * x) + (r - s) * x = r' - (s * x + k) by ring] at hsum
    linarith

/-- **Horner's rule in doubles**, for coefficients that do not overflow. -/
theorem horner_near (hx : 0 ≤ x ∧ x ≤ 1) : ∀ c : List Double, (∀ k ∈ c, k.isFinite) →
    c.length ≤ 9 → mass c ≤ 2 ^ 47 →
    ∃ r, horner ieee.arithmetic c (finite x) = finite r ∧
      |r - horner exact c x| ≤ c.length * (1 / 2 ^ 51 * (mass c + 1)) := by
  intro c
  induction c with
  | nil =>
    intro _ _ _
    refine ⟨0, ?_, ?_⟩
    · exact ieee.double.round_zero
    · rw [List.length_nil, Nat.cast_zero, zero_mul]
      exact (abs_eq_zero.mpr (sub_self (exact.ofNat 0))).le
  | cons k c ih =>
    intro hfinite hlength hmass
    rw [mass] at hmass ⊢
    have hk := abs_nonneg k.toRat
    have hM := mass_nonneg c
    rw [List.length_cons] at hlength
    obtain ⟨r, hr, hnear⟩ := ih (fun k hk => hfinite k (List.mem_cons_of_mem _ hk))
      (by omega) (by linarith)
    have hlen : (c.length : ℚ) ≤ 8 := by exact_mod_cast Nat.le_of_succ_le_succ hlength
    have hsmall : c.length * (1 / 2 ^ 51 * (mass c + 1)) ≤ 1 / 2 ^ 40 * (mass c + 1) := by
      have := mul_le_mul_of_nonneg_right hlen (show 0 ≤ 1 / 2 ^ 51 * (mass c + 1) by positivity)
      linarith
    obtain ⟨r', hr', hnear'⟩ := horner_step_near hx (abs_horner_exact_le hx c) hnear
      (by linarith) hsmall (le_refl |k.toRat|) (by linarith)
    refine ⟨r', ?_, ?_⟩
    · have hbits : ieee.arithmetic.ofBits k = finite k.toRat :=
        if_pos (hfinite k List.mem_cons_self)
      rw [horner_cons, hr, hbits]
      exact hr'
    · rw [horner_exact_cons, List.length_cons, Nat.cast_succ]
      have hgrow : c.length * (1 / 2 ^ 51 * (mass c + 1)) ≤
          c.length * (1 / 2 ^ 51 * (mass c + |k.toRat| + 1)) :=
        mul_le_mul_of_nonneg_left (by linarith) (Nat.cast_nonneg _)
      linarith

end Unit

/-! ## Clipping, and keeping an `f32` -/

/-- A number clipped to `[0, 1]`. -/
def clip (q : ℚ) : ℚ := max 0 (min q 1)

theorem clip_between (q : ℚ) : 0 ≤ clip q ∧ clip q ≤ 1 :=
  ⟨le_max_left _ _, max_le zero_le_one (min_le_right _ _)⟩

/-- Clipping brings numbers closer. -/
theorem abs_clip_sub_le (p q : ℚ) : |clip p - clip q| ≤ |p - q| := by
  have hmin := abs_min_sub_min_le_max p 1 q 1
  rw [sub_self, abs_zero, max_eq_left (abs_nonneg _)] at hmin
  have hmax := abs_max_sub_max_le_max 0 (min p 1) 0 (min q 1)
  rw [sub_self, abs_zero] at hmax
  exact hmax.trans (max_le (abs_nonneg _) hmin)

theorem map_exact (a : PlaneMapping) (x : ℚ) : a.map exact x = clip (a.mapping.eval exact x) := by
  have h0 : exact.ofNat 0 = 0 := Nat.cast_zero
  have h1 : exact.ofNat 1 = 1 := Nat.cast_one
  rw [PlaneMapping.map, h0, h1, clamp_exact]
  rfl

theorem clamp_ieee (q : ℚ) :
    clamp ieee.arithmetic (finite q) (ieee.arithmetic.ofNat 0) (ieee.arithmetic.ofNat 1) =
      finite (clip q) := by
  rw [ofNat_eq ieee (by omega), ofNat_eq ieee (by omega), Nat.cast_zero, Nat.cast_one]
  have hlt : ∀ p q : ℚ, ieee.arithmetic.lt (finite p) (finite q) = true ↔ p < q :=
    fun p q => decide_eq_true_iff
  have hclip := clamp_exact q
  have hlt' : ∀ p q : ℚ, exact.lt p q = true ↔ p < q := fun p q => decide_eq_true_iff
  rw [clamp] at hclip ⊢
  simp only [hlt'] at hclip
  rw [clip, ← hclip]
  by_cases h0 : q < 0
  · simp only [if_pos ((hlt q 0).mpr h0), if_pos h0]
    rw [if_neg (by rw [hlt]; norm_num), if_neg (by norm_num)]
  · simp only [if_neg ((hlt q 0).not.mpr h0), if_neg h0]
    by_cases h1 : 1 < q
    · rw [if_pos ((hlt 1 q).mpr h1), if_pos h1]
    · rw [if_neg ((hlt 1 q).not.mpr h1), if_neg h1]

/-- A number up to 1, rounded to a format of enough digits. -/
theorem round_unit_near (B : Binary) (hsmallest : B.smallest ≤ 0 - (B.precision - 1)) {q : ℚ}
    (h : 0 ≤ q ∧ q ≤ 1) :
    ∃ r, B.round q = finite r ∧ (0 ≤ r ∧ r ≤ 1) ∧ |r - q| ≤ B.unit := by
  have hnear := B.abs_nearest_sub_le_of_le (k := 0) h.1 (by simpa using h.2) hsmallest
  rw [zpow_zero, mul_one] at hnear
  obtain ⟨r, hr, h0, h1⟩ :=
    B.toFormat.round_between B.toFormat.round_zero B.toFormat.round_one h.1 h.2
  obtain ⟨rfl, -⟩ := B.round_eq_finite h.1 hr
  exact ⟨_, hr, ⟨h0, h1⟩, hnear⟩

theorem unit_binary32 : binary32.unit = 1 / 2 ^ 24 := by
  norm_num [Binary.unit, binary32, zpow_neg]

theorem round32_near {q : ℚ} (h : 0 ≤ q ∧ q ≤ 1) :
    ∃ r, ieee.single.round q = finite r ∧ (0 ≤ r ∧ r ≤ 1) ∧ |r - q| ≤ 1 / 2 ^ 24 := by
  have hround := round_unit_near binary32 (by decide) h
  rwa [unit_binary32] at hround

/-- **A value mapped**, when the mapping gives a number near the exact one. -/
theorem map_near {a : PlaneMapping} {v x r e : ℚ}
    (heval : a.mapping.eval ieee.arithmetic (finite v) = finite r)
    (hnear : |r - a.mapping.eval exact x| ≤ e) :
    ∃ q, a.map ieee.arithmetic (finite v) = finite q ∧ (0 ≤ q ∧ q ≤ 1) ∧
      |q - a.map exact x| ≤ 1 / 2 ^ 24 + e := by
  obtain ⟨q, hq, hq01, hnarrow⟩ := round32_near (clip_between r)
  refine ⟨q, ?_, hq01, ?_⟩
  · have hwiden : ieee.arithmetic.widen (finite v) = finite v := rfl
    rw [PlaneMapping.map, hwiden, heval, clamp_ieee]
    exact hq
  · rw [map_exact]
    have hclip := (abs_clip_sub_le r (a.mapping.eval exact x)).trans hnear
    have hsum := abs_add_le (q - clip r) (clip r - clip (a.mapping.eval exact x))
    rw [sub_add_sub_cancel] at hsum
    linarith

/-- **A polynomial**, of a number that is not exact. -/
theorem map_polynomial_near {a : PlaneMapping} {c : List Double} (ha : a.mapping = .polynomial c)
    (hlegal : a.mapping.Legal) {v x e : ℚ} (hv : 0 ≤ v ∧ v ≤ 1) (hx : 0 ≤ x ∧ x ≤ 1)
    (hnear : |v - x| ≤ e) :
    ∃ q, a.map ieee.arithmetic (finite v) = finite q ∧ (0 ≤ q ∧ q ≤ 1) ∧
      |q - a.map exact x| ≤ 1 / 2 ^ 24 + 1 / 2 ^ 47 * (mass c + 1) + slope c * e := by
  have hsteep := mul_le_mul_of_nonneg_left hnear (slope_nonneg c)
  have hmass := mass_nonneg c
  rcases le_or_gt (mass c) (2 ^ 47) with hsmall | hlarge
  · have hlegal' : (Mapping.polynomial c).Legal := ha ▸ hlegal
    obtain ⟨r, hr, hhorner⟩ := horner_near hv c hlegal'.2.2 hlegal'.2.1 hsmall
    have hlength : (c.length : ℚ) ≤ 9 := by exact_mod_cast hlegal'.2.1
    have hhorner' : |r - horner exact c v| ≤ 1 / 2 ^ 47 * (mass c + 1) := by
      have := mul_le_mul_of_nonneg_right hlength
        (show 0 ≤ 1 / 2 ^ 51 * (mass c + 1) by positivity)
      linarith
    have hlipschitz := abs_horner_exact_sub_le hx hv c
    have hsum := abs_add_le (r - horner exact c v) (horner exact c v - horner exact c x)
    rw [sub_add_sub_cancel] at hsum
    obtain ⟨q, hq, hq01, hq'⟩ := map_near (a := a) (x := x)
      (e := 1 / 2 ^ 47 * (mass c + 1) + slope c * e) (by rw [ha]; exact hr)
      (by rw [ha]; exact hsum.trans (by linarith))
    exact ⟨q, hq, hq01, by linarith⟩
  · -- it may overflow, but then nothing is claimed
    obtain ⟨q, hq, h0, h1⟩ := map_between ieee hlegal ⟨v, rfl, hv.1, hv.2⟩
    refine ⟨q, hq, ⟨h0, h1⟩, ?_⟩
    have hx' := clip_between (a.mapping.eval exact x)
    have hone : |q - a.map exact x| ≤ 1 := by
      rw [map_exact, abs_le]
      constructor <;> linarith
    have he := mul_nonneg (slope_nonneg c) ((abs_nonneg _).trans hnear)
    linarith

/-! ## Tables -/

/-- The points a plane starts from. -/
theorem point_near {i : ℕ} (hi : i < linearizationPoints) :
    ∃ v, point ieee.arithmetic i = finite v ∧ (0 ≤ v ∧ v ≤ 1) ∧
      |v - point exact i| ≤ 1 / 2 ^ 24 := by
  have hi' : (i : ℚ) ≤ 127 := by exact_mod_cast Nat.le_of_lt_succ hi
  have h127 : linearizationPoints - 1 = 127 := rfl
  have hpoint : point ieee.arithmetic i = ieee.single.round (i / (127 : ℕ)) := by
    have hdiv : point ieee.arithmetic i = ieee.single.div (finite i) (finite (127 : ℕ)) :=
      congrArg₂ ieee.single.div (ieee.single.round_natCast i (by omega))
        (ieee.single.round_natCast 127 (by omega))
    rw [hdiv, Format.div, if_neg (by norm_num)]
  rw [hpoint]
  exact round32_near ⟨by positivity, by rw [div_le_one (by norm_num)]; exact_mod_cast hi'⟩

/-- **The entry a point selects is the one it selects exactly**: 65535 times it is at
least 1/254 away from a half. -/
theorem index_point (t : List UInt16) {i : ℕ} (hi : i < linearizationPoints) :
    index ieee.arithmetic t (point ieee.arithmetic i) = index exact t (point exact i) := by
  obtain ⟨v, hv, ⟨h0, h1⟩, hnear⟩ := point_near hi
  have hpoint : point exact i = i / 127 := rfl
  rw [hpoint] at hnear ⊢
  -- the integer nearest to `65535 * i / 127`
  obtain ⟨n, hlow, hhigh⟩ : ∃ n, 127 * n ≤ 65535 * i + 63 ∧ 65535 * i + 63 < 127 * n + 127 :=
    ⟨(65535 * i + 63) / 127, Nat.mul_div_le _ _, by omega⟩
  have hn : |(i / 127 * 65535 : ℚ) - n| ≤ 63 / 127 := by
    have hlow' : (127 * n : ℚ) ≤ 65535 * i + 63 := by exact_mod_cast hlow
    have hhigh' : (65535 * i + 63 : ℚ) + 1 ≤ 127 * n + 127 := by exact_mod_cast hhigh
    rw [abs_le]
    constructor <;> linarith
  have hsize : |v * 65535| ≤ 2 ^ 64 := by
    rw [abs_of_nonneg (by positivity)]
    linarith
  obtain ⟨q, hq, hqnear⟩ := round64_near hsize
  have hq0 : 0 ≤ q := by
    have hlast : ieee.double.round (65535 : ℕ) = finite (65535 : ℕ) :=
      ieee.double.round_natCast 65535 le_rfl
    obtain ⟨q', hq', hle, -⟩ := ieee.double.round_between ieee.double.round_zero hlast
      (show 0 ≤ v * 65535 by positivity) (by push_cast; linarith)
    rw [hq] at hq'
    obtain ⟨rfl⟩ := hq'
    exact hle
  have hqn : |q - n| < 1 / 2 := by
    rw [abs_of_nonneg (show 0 ≤ v * 65535 by positivity)] at hqnear
    have hscaled : |v * 65535 - i / 127 * 65535| ≤ 1 / 2 ^ 24 * 65535 := by
      rw [← sub_mul, abs_mul, abs_of_pos (show (0 : ℚ) < 65535 by norm_num)]
      exact mul_le_mul_of_nonneg_right hnear (by norm_num)
    have hsum := abs_add_three (q - v * 65535) (v * 65535 - i / 127 * 65535)
      (i / 127 * 65535 - n)
    rw [show q - v * 65535 + (v * 65535 - i / 127 * 65535) + (i / 127 * 65535 - n) = q - n by
      ring] at hsum
    linarith
  have hexact : |(i / 127 * 65535 : ℚ) - n| < 1 / 2 := lt_of_le_of_lt hn (by norm_num)
  have hieee : ieee.arithmetic.round (ieee.arithmetic.mul (finite v) (ieee.arithmetic.ofNat 65535)) =
      finite ((n : ℤ) : ℚ) := by
    rw [ofNat_eq ieee le_rfl]
    show roundInt (ieee.double.round (v * (65535 : ℕ))) = _
    rw [Nat.cast_ofNat, hq, roundInt, roundHalfAway_eq hq0 hqn]
  have hround : exact.round (exact.mul (i / 127) (exact.ofNat 65535)) = ((n : ℤ) : ℚ) := by
    show ((roundHalfAway (i / 127 * (65535 : ℕ)) : ℤ) : ℚ) = _
    rw [Nat.cast_ofNat, roundHalfAway_eq (by positivity) hexact]
  rw [index, index, hv, hieee, hround]
  rfl

/-- **The first mapping of a plane, a table.** -/
theorem map_table_near {a : PlaneMapping} {t : List UInt16} (ha : a.mapping = .table t) {i : ℕ}
    (hi : i < linearizationPoints) :
    ∃ q, a.map ieee.arithmetic (point ieee.arithmetic i) = finite q ∧ (0 ≤ q ∧ q ≤ 1) ∧
      |q - a.map exact (point exact i)| ≤ 1 / 2 ^ 24 + 1 / 2 ^ 53 := by
  obtain ⟨v, hv, -, -⟩ := point_near hi
  have hindex := index_point t hi
  rw [hv] at hindex ⊢
  generalize hentry : t.getD (index exact t (point exact i)) 0 = entry
  have hle : entry.toNat ≤ 65535 := Nat.le_of_lt_succ entry.toNat_lt
  have hle' : (entry.toNat : ℚ) ≤ 65535 := by exact_mod_cast hle
  have hunit : 0 ≤ (entry.toNat / 65535 : ℚ) ∧ (entry.toNat / 65535 : ℚ) ≤ 1 :=
    ⟨by positivity, by rw [div_le_one (by norm_num)]; exact hle'⟩
  obtain ⟨r, hr, -, hnear⟩ := round_unit_near binary64 (by decide) hunit
  rw [Binary.unit_binary64] at hnear
  refine map_near (r := r) ?_ ?_
  · rw [ha, Mapping.eval, hindex, hentry, ofNat_eq ieee hle, ofNat_eq ieee le_rfl]
    show ieee.double.div (finite entry.toNat) (finite (65535 : ℕ)) = finite r
    rw [Format.div, if_neg (by norm_num), Nat.cast_ofNat]
    exact hr
  · have hexact : a.mapping.eval exact (point exact i) = entry.toNat / 65535 := by
      rw [ha, Mapping.eval, hentry]
      rfl
    rw [hexact]
    exact hnear

/-! ## All mappings of a plane -/

theorem value_of_mappings_nil {S D : Type} (A : Arithmetic S D) {ops : List PlaneMapping} {p : ℕ}
    (h : mappings ops p = []) (i : ℕ) : value A ops p i = point A i := by
  induction ops using List.reverseRecOn with
  | nil => rfl
  | append_singleton ops a ih =>
    rw [mappings_append] at h
    rw [value_append]
    split at h
    · cases h
    · next hcovers => rw [if_neg hcovers, ih h]

theorem value_exact_between (ops : List PlaneMapping) (p : ℕ) {i : ℕ}
    (hi : i < linearizationPoints) : 0 ≤ value exact ops p i ∧ value exact ops p i ≤ 1 := by
  induction ops using List.reverseRecOn with
  | nil =>
    have hi' : (i : ℚ) ≤ 127 := by exact_mod_cast Nat.le_of_lt_succ hi
    have hpoint : value exact [] p i = i / 127 := rfl
    rw [hpoint, div_le_one (by norm_num)]
    exact ⟨by positivity, hi'⟩
  | append_singleton ops a ih =>
    rw [value_append]
    split
    · rw [map_exact]
      exact clip_between _
    · exact ih

/-- **One mapping more**: from what bounds the error before to what bounds it after. -/
theorem map_deviation {ops : List PlaneMapping} {a : PlaneMapping} (ha : a.mapping.Legal) {p i : ℕ}
    (hi : i < linearizationPoints) {v : ℚ} (hvalue : value ieee.arithmetic ops p i = finite v)
    (hv : 0 ≤ v ∧ v ≤ 1)
    (hnear : |v - value exact ops p i| ≤ deviation (mappings ops p)) :
    ∃ q, a.map ieee.arithmetic (finite v) = finite q ∧ (0 ≤ q ∧ q ≤ 1) ∧
      |q - a.map exact (value exact ops p i)| ≤ deviation (a.mapping :: mappings ops p) := by
  cases hmapping : a.mapping with
  | polynomial c =>
    rw [deviation]
    exact map_polynomial_near hmapping ha hv (value_exact_between ops p hi) hnear
  | table t =>
    cases hbefore : mappings ops p with
    | nil =>
      rw [value_of_mappings_nil exact hbefore]
      rw [value_of_mappings_nil ieee.arithmetic hbefore] at hvalue
      rw [← hvalue]
      exact map_table_near hmapping hi
    | cons m before =>
      obtain ⟨q, hq, h0, h1⟩ := map_between ieee ha ⟨v, rfl, hv.1, hv.2⟩
      have hx := clip_between (a.mapping.eval exact (value exact ops p i))
      refine ⟨q, hq, ⟨h0, h1⟩, ?_⟩
      rw [deviation, map_exact, abs_le]
      constructor <;> linarith

theorem value_deviation {ops : List PlaneMapping} (hops : ∀ a ∈ ops, a.mapping.Legal) (p : ℕ)
    {i : ℕ} (hi : i < linearizationPoints) :
    ∃ q, value ieee.arithmetic ops p i = finite q ∧ (0 ≤ q ∧ q ≤ 1) ∧
      |q - value exact ops p i| ≤ deviation (mappings ops p) := by
  induction ops using List.reverseRecOn with
  | nil => exact point_near hi
  | append_singleton ops a ih =>
    obtain ⟨v, hvalue, hv, hnear⟩ := ih fun a ha => hops a (List.mem_append_left _ ha)
    rw [value_append, value_append, mappings_append]
    split
    · rw [hvalue]
      exact map_deviation (hops a (by simp)) hi hvalue hv hnear
    · exact ⟨v, hvalue, hv, hnear⟩

open Classical in
/-- **How exact the tables are**, in IEEE arithmetic, for any list: every value of every
plane is within `deviation` of what exact arithmetic makes of the same mappings. -/
theorem linearization_accurate (list : List UInt8) (width height : UInt32) :
    ∃ ops : List PlaneMapping,
      List.Forall₂ (Accepts width height)
        ((each list).filter (fun op => ∃ a, Accepts width height op a)) ops ∧
      ∃ tables : List (List Value),
        linearization ieee.arithmetic list width height = some tables ∧
        linearization exact list width height = some (composition exact ops) ∧
        ∀ p table, tables[p]? = some table → ∀ i v, table[i]? = some v →
          ∃ q, v = finite q ∧ |q - value exact ops p i| ≤ deviation (mappings ops p) := by
  have hlegal : ∀ a ∈ (each list).filterMap (accepted width height), a.mapping.Legal := by
    intro a ha
    obtain ⟨op, -, hop⟩ := List.mem_filterMap.mp ha
    exact (accepted_sound hop).2.1
  refine ⟨_, forall₂_filterMap (fun _ _ => accepted_eq_some_iff) (each list), _,
    linearization_eq ieee.arithmetic list width height, linearization_eq exact list width height,
    ?_⟩
  intro p table htable i v hv
  rw [composition, List.getElem?_map, Option.map_eq_some_iff] at htable
  obtain ⟨p', hp', rfl⟩ := htable
  obtain ⟨hp, rfl⟩ := List.getElem?_eq_some_iff.mp hp'
  rw [List.getElem?_map, Option.map_eq_some_iff] at hv
  obtain ⟨i', hi', rfl⟩ := hv
  obtain ⟨hlt, rfl⟩ := List.getElem?_eq_some_iff.mp hi'
  rw [List.getElem_range, List.getElem_range]
  rw [List.length_range] at hlt
  obtain ⟨q, hq, -, hnear⟩ := value_deviation hlegal p hlt
  exact ⟨q, hq, hnear⟩

end RawHelper.Linearization
