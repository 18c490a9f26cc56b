import Mathlib.Data.Rat.Floor
import Mathlib.Tactic

/-!
# Numbers with infinities and NaN, under any monotone rounding

A `Value` is a rational, an infinity or NaN: a floating-point number without the
sign of zero.  Adding, multiplying and dividing follow IEEE 754 on the special
values, and round the exact result otherwise.

The rounding is a `Format`: any monotone map to values that leaves the numbers it
can hold unchanged, the small integers among them; it may overflow to an infinity
but, being monotone, never gives NaN (`Format.round_ne_nan`), and what lies
between two numbers it holds stays between them (`Format.round_between`).

`safe_step` is the invariant of Horner's rule with finite coefficients: at a
non-negative point the sum may become infinite only away from zero, and is never
NaN.
-/

namespace Extended

/-- The nearest integer, halves away from zero. -/
def roundHalfAway (q : ℚ) : ℤ := if 0 ≤ q then ⌊q + 1 / 2⌋ else ⌈q - 1 / 2⌉

/-- A cast to `w` bits, which saturates. -/
def saturate (w : Nat) (q : ℚ) : Nat := min ⌊q⌋₊ (2 ^ w - 1)

inductive Value where
  | finite (q : ℚ)
  | inf (negative : Bool)
  | nan
deriving DecidableEq

/-- A cast never gives more than the number. -/
theorem saturate_le {q : ℚ} (h : 0 ≤ q) (w : Nat) : (saturate w q : ℚ) ≤ q := by
  have hmin : saturate w q ≤ ⌊q⌋₊ := min_le_left _ _
  exact (Nat.cast_le.mpr hmin).trans (Nat.floor_le h)

theorem saturate_pos {q : ℚ} {w : Nat} (h : 1 ≤ q) (hw : 0 < w) : 0 < saturate w q := by
  have hpow : 1 < 2 ^ w := Nat.one_lt_two_pow hw.ne'
  exact lt_min (Nat.floor_pos.mpr h) (by omega)

theorem saturate_lt (q : ℚ) (w : Nat) : saturate w q < 2 ^ w :=
  (min_le_right _ _).trans_lt (Nat.sub_lt (by positivity) Nat.one_pos)

/-- A natural number that fits is kept. -/
theorem saturate_natCast {n w : Nat} (h : n < 2 ^ w) : saturate w n = n := by
  rw [saturate, Nat.floor_natCast]
  exact min_eq_left (Nat.le_sub_one_of_lt h)

namespace Value

/-- `<`, which is false of NaN. -/
def lt : Value → Value → Bool
  | finite p, finite q => p < q
  | finite _, inf s => !s
  | inf s, finite _ => s
  | inf s, inf t => s && !t
  | _, _ => false

/-- Both are numbers, and the second is not smaller. -/
def Le (a b : Value) : Prop := a ≠ nan ∧ b ≠ nan ∧ lt b a = false

/-- The nearest integer; the special values stay. -/
def roundInt : Value → Value
  | finite q => finite (roundHalfAway q)
  | v => v

/-- A cast to `w` bits: it saturates, and NaN goes to 0. -/
def toNat (w : Nat) : Value → Nat
  | finite q => saturate w q
  | inf true => 0
  | inf false => 2 ^ w - 1
  | nan => 0

def isFinite : Value → Bool
  | finite _ => true
  | _ => false

/-- A finite number between two bounds. -/
def Between (lo hi : ℚ) (v : Value) : Prop := ∃ q, v = finite q ∧ lo ≤ q ∧ q ≤ hi

theorem Le.finite_left {q : ℚ} {b : Value} (h : Le (finite q) b) :
    b = inf false ∨ ∃ r, b = finite r ∧ q ≤ r := by
  obtain ⟨-, hb, hlt⟩ := h
  cases b with
  | finite r => exact Or.inr ⟨r, rfl, by simpa [lt] using hlt⟩
  | inf s => cases s with
    | false => exact Or.inl rfl
    | true => simp [lt] at hlt
  | nan => exact absurd rfl hb

theorem Le.finite_right {q : ℚ} {a : Value} (h : Le a (finite q)) :
    a = inf true ∨ ∃ p, a = finite p ∧ p ≤ q := by
  obtain ⟨ha, -, hlt⟩ := h
  cases a with
  | finite p => exact Or.inr ⟨p, rfl, by simpa [lt] using hlt⟩
  | inf s => cases s with
    | true => exact Or.inl rfl
    | false => simp [lt] at hlt
  | nan => exact absurd rfl ha

end Value

open Value

/-! ## Roundings -/

/-- A monotone rounding that leaves the integers up to 65535 unchanged. -/
structure Format where
  round : ℚ → Value
  mono : ∀ {p q : ℚ}, p ≤ q → (round p).Le (round q)
  round_natCast : ∀ n : ℕ, n ≤ 65535 → round n = finite n

namespace Format

/-- No rounding at all. -/
def exact : Format where
  round := finite
  mono h := ⟨Value.noConfusion, Value.noConfusion, by simpa [lt] using h⟩
  round_natCast _ _ := rfl

variable (F : Format)

def add : Value → Value → Value
  | finite p, finite q => F.round (p + q)
  | finite _, inf t => inf t
  | inf s, finite _ => inf s
  | inf s, inf t => if s = t then inf s else nan
  | _, _ => nan

def mul : Value → Value → Value
  | finite p, finite q => F.round (p * q)
  | finite p, inf t => if p = 0 then nan else inf (t ^^ decide (p < 0))
  | inf s, finite q => if q = 0 then nan else inf (s ^^ decide (q < 0))
  | inf s, inf t => inf (s ^^ t)
  | _, _ => nan

def div : Value → Value → Value
  | finite p, finite q =>
    if q = 0 then (if p = 0 then nan else inf (p < 0)) else F.round (p / q)
  | finite _, inf _ => finite 0
  | inf s, finite q => inf (s ^^ decide (q < 0))
  | _, _ => nan

/-- A number in another format. -/
def convert : Value → Value
  | finite q => F.round q
  | v => v

theorem round_ne_nan (q : ℚ) : F.round q ≠ nan := (F.mono (le_refl q)).1

theorem round_zero : F.round 0 = finite 0 := by simpa using F.round_natCast 0 (by omega)

theorem round_one : F.round 1 = finite 1 := by simpa using F.round_natCast 1 (by omega)

/-- **What lies between two numbers of the format is rounded between them.** -/
theorem round_between {lo hi q : ℚ} (hlo : F.round lo = finite lo) (hhi : F.round hi = finite hi)
    (h₁ : lo ≤ q) (h₂ : q ≤ hi) : (F.round q).Between lo hi := by
  have hl := F.mono h₁
  have hr := F.mono h₂
  rw [hlo] at hl
  rw [hhi] at hr
  rcases hl.finite_left with hinf | ⟨r, hr₁, hle⟩
  · rw [hinf] at hr
    rcases hr.finite_right with h | ⟨p, h, -⟩ <;> cases h
  · rw [hr₁] at hr
    rcases hr.finite_right with h | ⟨p, h, hp⟩
    · cases h
    · cases h
      exact ⟨r, hr₁, hle, hp⟩

/-- A small integer over one not smaller. -/
theorem div_natCast_between {m n : ℕ} (hmn : m ≤ n) (hn : 0 < n) :
    (F.div (finite m) (finite n)).Between 0 1 := by
  have hpos : (0 : ℚ) < n := Nat.cast_pos.mpr hn
  have hle : (m : ℚ) ≤ n := Nat.cast_le.mpr hmn
  rw [div, if_neg hpos.ne']
  exact F.round_between F.round_zero F.round_one (by positivity) ((div_le_one hpos).mpr hle)

/-! ### Horner's rule -/

/-- The sum of Horner's rule at `x`: a number, and finite at zero. -/
def Safe (x : ℚ) (sum : Value) : Prop := sum ≠ nan ∧ (x = 0 → ∃ q, sum = finite q)

theorem add_finite_ne_nan {v : Value} (hv : v ≠ nan) (k : ℚ) : F.add v (finite k) ≠ nan := by
  cases v with
  | finite q => exact F.round_ne_nan _
  | inf s => exact Value.noConfusion
  | nan => exact absurd rfl hv

theorem mul_finite_ne_nan {v : Value} (hv : v ≠ nan) {x : ℚ} (hx : x ≠ 0) :
    F.mul v (finite x) ≠ nan := by
  cases v with
  | finite q => exact F.round_ne_nan _
  | inf s => rw [mul, if_neg hx]; exact Value.noConfusion
  | nan => exact absurd rfl hv

/-- **A step of Horner's rule** with a coefficient of the format. -/
theorem safe_step {x k : ℚ} (hk : F.round k = finite k) {sum : Value} (h : Safe x sum) :
    Safe x (F.add (F.mul sum (finite x)) (finite k)) := by
  by_cases hx : x = 0
  · subst hx
    obtain ⟨q, rfl⟩ := h.2 rfl
    have hstep : F.add (F.mul (finite q) (finite 0)) (finite k) = finite k := by
      rw [mul, mul_zero, round_zero, add, zero_add, hk]
    rw [hstep]
    exact ⟨Value.noConfusion, fun _ => ⟨k, rfl⟩⟩
  · exact ⟨F.add_finite_ne_nan (F.mul_finite_ne_nan h.1 hx) k, fun h0 => absurd h0 hx⟩

end Format

end Extended
