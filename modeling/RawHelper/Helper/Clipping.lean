import RawHelper.Lib.Binary
import RawHelper.Helper.Linearization

/-!
# The linearisation tables stay between 0 and 1

`linearization` over floats: `f32` and `f64` are two formats of rationals with
infinities and NaN, each with a monotone rounding of its own.

The coefficients come from the file, so a polynomial may overflow on the way.
`clamp` turns an infinity into 0 or 1 but lets NaN through.  There is none
(`horner_safe`): the first coefficient is added to zero, and an infinite sum is
only ever multiplied by a point that is not zero.  So a mapping takes `[0, 1]` to
`[0, 1]` (`map_between`), and so does any composition.
-/

namespace RawHelper.Linearization

open Ieee Opcodes Extended Value

/-- The formats of `f32` and `f64`: the second holds every finite `f64`. -/
structure Formats where
  single : Format
  double : Format
  round_toRat : ∀ d : Double, d.isFinite → double.round d.toRat = finite d.toRat

/-- IEEE single and double precision, rounded to nearest even. -/
def ieee : Formats where
  single := binary32.toFormat
  double := binary64.toFormat
  round_toRat := binary64_toRat

/-- Two large coefficients overflow. -/
example : ieee.double.add (finite (2 ^ 1023)) (finite (2 ^ 1023)) = inf false ∧
    ieee.double.mul (inf false) (finite 0) = nan := by
  decide +kernel

/-- The number a pattern stands for. -/
def valueOf (d : Double) : Value :=
  if d.isFinite then finite d.toRat else if d.isNan then nan else inf d.negative

/-- The operations of the code on these formats; an `f32` is an `f64` as it is. -/
def Formats.arithmetic (F : Formats) : Arithmetic Value Value where
  singleOfNat n := F.single.round n
  singleDiv := F.single.div
  widen := id
  narrow := F.single.convert
  ofBits := valueOf
  ofNat n := F.double.round n
  add := F.double.add
  mul := F.double.mul
  div := F.double.div
  lt := lt
  round := roundInt
  toUsize := toNat 64

variable (F : Formats)

theorem ofNat_eq {n : ℕ} (h : n ≤ 65535) : F.arithmetic.ofNat n = finite n :=
  F.double.round_natCast n h

/-- Clipping gives a number between 0 and 1, of anything but NaN. -/
theorem clamp_between {v : Value} (hv : v ≠ nan) :
    (clamp F.arithmetic v (F.arithmetic.ofNat 0) (F.arithmetic.ofNat 1)).Between 0 1 := by
  rw [ofNat_eq F (by omega), ofNat_eq F (by omega), Nat.cast_zero, Nat.cast_one]
  have hlt : ∀ p q : ℚ, F.arithmetic.lt (finite p) (finite q) = true ↔ p < q :=
    fun p q => decide_eq_true_iff
  cases v with
  | finite q =>
    rw [clamp]
    by_cases h0 : q < 0
    · simp only [if_pos ((hlt q 0).mpr h0)]
      rw [if_neg (by rw [hlt]; norm_num)]
      exact ⟨0, rfl, by norm_num, by norm_num⟩
    · simp only [if_neg ((hlt q 0).not.mpr h0)]
      by_cases h1 : 1 < q
      · rw [if_pos ((hlt 1 q).mpr h1)]
        exact ⟨1, rfl, by norm_num, by norm_num⟩
      · rw [if_neg ((hlt 1 q).not.mpr h1)]
        exact ⟨q, rfl, not_lt.mp h0, not_lt.mp h1⟩
  | inf s => cases s <;> exact ⟨_, rfl, by norm_num, by norm_num⟩
  | nan => exact absurd rfl hv

theorem convert_between {v : Value} (hv : v.Between 0 1) : (F.single.convert v).Between 0 1 := by
  obtain ⟨q, rfl, h0, h1⟩ := hv
  exact F.single.round_between F.single.round_zero F.single.round_one h0 h1

/-- **Horner's rule never meets NaN.** -/
theorem horner_safe {x : ℚ} : ∀ c : List Double, (∀ k ∈ c, k.isFinite) →
    Format.Safe x (horner F.arithmetic c (finite x)) := by
  intro c hc
  rw [horner_eq_foldr]
  induction c with
  | nil =>
    have h0 : F.arithmetic.ofNat 0 = finite 0 := by simpa using ofNat_eq F (n := 0) (by omega)
    rw [List.foldr_nil, h0]
    exact ⟨Value.noConfusion, fun _ => ⟨0, rfl⟩⟩
  | cons k c ih =>
    have hk := hc k (List.mem_cons_self)
    have hbits : F.arithmetic.ofBits k = finite k.toRat := if_pos hk
    rw [List.foldr_cons, hbits]
    exact F.double.safe_step (F.round_toRat k hk) (ih fun k hk => hc k (List.mem_cons_of_mem _ hk))

/-- An entry of a table, over the largest. -/
theorem entry_between (e : UInt16) :
    (F.arithmetic.div (F.arithmetic.ofNat e.toNat) (F.arithmetic.ofNat 65535)).Between 0 1 := by
  have he : e.toNat ≤ 65535 := Nat.le_of_lt_succ e.toNat_lt
  rw [ofNat_eq F he, ofNat_eq F (by omega)]
  exact F.double.div_natCast_between he (by omega)

/-- **A mapping takes `[0, 1]` to `[0, 1]`.** -/
theorem map_between {a : PlaneMapping} (ha : a.mapping.Legal) {v : Value} (hv : v.Between 0 1) :
    (a.map F.arithmetic v).Between 0 1 := by
  obtain ⟨plane, stop, mapping⟩ := a
  refine convert_between F (clamp_between F ?_)
  obtain ⟨x, rfl, -, -⟩ := hv
  cases mapping with
  | polynomial c => exact (horner_safe F c ha.2.2).1
  | table t =>
    obtain ⟨q, hq, -⟩ := entry_between F (t.getD (index F.arithmetic t (finite x)) 0)
    exact fun h => Value.noConfusion (hq.symm.trans h)

theorem point_between {i : ℕ} (h : i < linearizationPoints) :
    (point F.arithmetic i).Between 0 1 := by
  have h127 : linearizationPoints - 1 = 127 := rfl
  have hi : i ≤ 127 := Nat.le_of_lt_succ h
  have hpoint : point F.arithmetic i = F.single.div (finite i) (finite (127 : ℕ)) :=
    congrArg₂ F.single.div (F.single.round_natCast i (by omega))
      (F.single.round_natCast 127 (by omega))
  rw [hpoint]
  exact F.single.div_natCast_between hi (by omega)

theorem value_between {ops : List PlaneMapping} (hops : ∀ a ∈ ops, a.mapping.Legal) (p : ℕ) {i : ℕ}
    (h : i < linearizationPoints) : (value F.arithmetic ops p i).Between 0 1 := by
  induction ops using List.reverseRecOn with
  | nil => exact point_between F h
  | append_singleton ops a ih =>
    have hv := ih fun a ha => hops a (List.mem_append_left _ ha)
    rw [value_append]
    split
    · exact map_between F (hops a (by simp)) hv
    · exact hv

theorem planeCount_le {ops : List PlaneMapping} (hops : ∀ a ∈ ops, a.stop ≤ 4) :
    planeCount ops ≤ 4 := by
  induction ops using List.reverseRecOn with
  | nil => exact Nat.zero_le 4
  | append_singleton ops a ih =>
    rw [planeCount_append]
    exact max_le (ih fun a ha => hops a (List.mem_append_left _ ha)) (hops a (by simp))

/-- **Every table has 128 values between 0 and 1**, for any list and any monotone
rounding: at most four tables, none of their values NaN or infinite, and no index
out of range on the way. -/
theorem linearization_between (list : List UInt8) (width height : UInt32) :
    ∃ tables : List (List Value),
      linearization F.arithmetic list width height = some tables ∧ tables.length ≤ 4 ∧
      ∀ table ∈ tables, table.length = linearizationPoints ∧ ∀ v ∈ table, v.Between 0 1 := by
  have hops : ∀ a ∈ (each list).filterMap (accepted width height),
      a.mapping.Legal ∧ a.stop ≤ 4 := by
    intro a ha
    obtain ⟨op, -, hop⟩ := List.mem_filterMap.mp ha
    obtain ⟨-, hlegal, _, _, _, _, -, ⟨-, hstop⟩, -⟩ := accepted_sound hop
    exact ⟨hlegal, by omega⟩
  refine ⟨_, linearization_eq F.arithmetic list width height, ?_, ?_⟩
  · rw [composition, List.length_map, List.length_range]
    exact planeCount_le fun a ha => (hops a ha).2
  · intro table htable
    obtain ⟨p, -, rfl⟩ := List.mem_map.mp htable
    refine ⟨by simp, ?_⟩
    intro v hv
    obtain ⟨i, hi, rfl⟩ := List.mem_map.mp hv
    exact value_between F (fun a ha => (hops a ha).1) p (List.mem_range.mp hi)

end RawHelper.Linearization
