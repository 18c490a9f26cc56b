import Mathlib.Data.Rat.Floor
import Mathlib.Tactic

/-!
# Rectangles drawn into a bitmap

A bitmap is a buffer seen as rows of pixels: its length, the distance from one
row to the next and the size of a pixel.  Nothing ties the three together; the
distance may be negative.

A rectangle need not have whole sides: drawing one of `w` by `h` touches `⌈w⌉`
pixels in each of `⌈h⌉` rows.  `Holds` is what makes that safe: no wider than a
row, no taller than the rows, and every touched pixel inside the buffer, which
follows from the first two (`Holds.of_le`).  A rectangle no smaller than a bitmap
is held only when it is that bitmap's own size (`Holds.eq_of_le`), so a bitmap
made for the truncated sides holds whole ones only.
-/

structure Bitmap where
  pixelBytes : ℕ
  rowBytes : ℤ
  len : ℕ
  pixelBytes_pos : 0 < pixelBytes

namespace Bitmap

variable (b : Bitmap)

/-- The pixels one row holds. -/
def rowPixels : ℤ := b.rowBytes / b.pixelBytes

/-- The rows the buffer holds. -/
def rows : ℤ := b.len / b.rowBytes

/-- Where pixel `x` of row `y` starts. -/
def offset (x y : ℕ) : ℤ := y * b.rowBytes + x * b.pixelBytes

/-- The pixel lies inside the buffer. -/
def Inside (x y : ℕ) : Prop := 0 ≤ b.offset x y ∧ b.offset x y + b.pixelBytes ≤ b.len

/-- A rectangle of `w` by `h` may be drawn. -/
structure Holds (w h : ℚ) : Prop where
  width_le : w ≤ b.rowPixels
  height_le : h ≤ b.rows
  inside : ∀ x y, x < ⌈w⌉₊ → y < ⌈h⌉₊ → b.Inside x y

variable {b}

theorem inside_of_lt {x y : ℕ} (hx : (x : ℤ) < b.rowPixels) (hy : (y : ℤ) < b.rows) :
    b.Inside x y := by
  have hp : (0 : ℤ) < b.pixelBytes := by exact_mod_cast b.pixelBytes_pos
  have hrow : (x + 1 : ℤ) * b.pixelBytes ≤ b.rowBytes := (Int.le_ediv_iff_mul_le hp).mp hx
  have hpixel : (0 : ℤ) ≤ x * b.pixelBytes := by positivity
  have hpos : 0 < b.rowBytes := by linarith
  have hlen : (y + 1 : ℤ) * b.rowBytes ≤ b.len := (Int.le_ediv_iff_mul_le hpos).mp hy
  have hbefore : (0 : ℤ) ≤ y * b.rowBytes := by positivity
  refine ⟨add_nonneg hbefore hpixel, ?_⟩
  calc b.offset x y + b.pixelBytes = y * b.rowBytes + (x + 1) * b.pixelBytes := by
        rw [offset]
        ring
    _ ≤ y * b.rowBytes + b.rowBytes := by linarith
    _ = (y + 1) * b.rowBytes := by ring
    _ ≤ b.len := hlen

/-- **Bounded sides are enough.** -/
theorem Holds.of_le {w h : ℚ} (hw : w ≤ b.rowPixels) (hh : h ≤ b.rows) : b.Holds w h where
  width_le := hw
  height_le := hh
  inside x y hx hy := by
    have hx' : (x : ℚ) < b.rowPixels := (Nat.lt_ceil.mp hx).trans_le hw
    have hy' : (y : ℚ) < b.rows := (Nat.lt_ceil.mp hy).trans_le hh
    exact inside_of_lt (by exact_mod_cast hx') (by exact_mod_cast hy')

/-! ### Packed rows -/

section Packed

variable {m n : ℕ}

theorem rowPixels_eq (hrow : b.rowBytes = m * b.pixelBytes) : b.rowPixels = m := by
  have hp : (0 : ℤ) < b.pixelBytes := by exact_mod_cast b.pixelBytes_pos
  rw [rowPixels, hrow]
  exact Int.mul_ediv_cancel _ hp.ne'

theorem rows_eq (hrow : b.rowBytes = m * b.pixelBytes) (hpos : 0 < b.rowBytes)
    (hlen : b.len = n * (m * b.pixelBytes)) : b.rows = n := by
  rw [hrow] at hpos
  rw [rows, hrow, hlen]
  push_cast
  exact Int.mul_ediv_cancel _ hpos.ne'

theorem holds_of_eq (hm : 0 < m) (hrow : b.rowBytes = m * b.pixelBytes)
    (hlen : b.len = n * (m * b.pixelBytes)) : b.Holds m n := by
  have hp : (0 : ℤ) < b.pixelBytes := by exact_mod_cast b.pixelBytes_pos
  have hpos : 0 < b.rowBytes := by
    rw [hrow]
    positivity
  apply Holds.of_le
  · rw [rowPixels_eq hrow, Int.cast_natCast]
  · rw [rows_eq hrow hpos hlen, Int.cast_natCast]

/-- **A rectangle no smaller than the bitmap is held only at its own size**: with
rows of at most `m` pixels, and a buffer of at most `n` of them, both are exact. -/
theorem Holds.eq_of_le {w h : ℚ} (hholds : b.Holds w h) (hm : (m : ℚ) ≤ w)
    (hn : (n : ℚ) ≤ h) (hn0 : 0 < n) (hrow : b.rowBytes ≤ m * b.pixelBytes)
    (hlen : b.len ≤ n * (m * b.pixelBytes)) :
    w = m ∧ h = n ∧ b.len = n * (m * b.pixelBytes) := by
  have hp : (0 : ℤ) < b.pixelBytes := by exact_mod_cast b.pixelBytes_pos
  have hw := hholds.width_le
  have hh := hholds.height_le
  -- the row, from both sides
  have hpixels : (m : ℤ) ≤ b.rowPixels := by exact_mod_cast hm.trans hw
  have hbytes : b.rowBytes = m * b.pixelBytes :=
    le_antisymm hrow ((Int.le_ediv_iff_mul_le hp).mp hpixels)
  -- the rows, from both sides
  have hrows : (n : ℤ) ≤ b.rows := by exact_mod_cast hn.trans hh
  have hpos : 0 < b.rowBytes := by
    by_contra hcon
    have hneg : b.rows ≤ 0 := Int.ediv_nonpos_of_nonneg_of_nonpos (by positivity) (not_lt.mp hcon)
    omega
  have hmul := (Int.le_ediv_iff_mul_le hpos).mp hrows
  rw [hbytes] at hmul
  have hfull : b.len = n * (m * b.pixelBytes) := le_antisymm hlen (by exact_mod_cast hmul)
  rw [rowPixels_eq hbytes, Int.cast_natCast] at hw
  rw [rows_eq hbytes hpos hfull, Int.cast_natCast] at hh
  exact ⟨le_antisymm hw hm, le_antisymm hh hn, hfull⟩

end Packed

end Bitmap
