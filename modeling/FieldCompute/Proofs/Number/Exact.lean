import FieldCompute.Number.Binary
import Mathlib.Data.Rat.Floor
import Mathlib.Tactic.Linarith
import Mathlib.Tactic.Positivity
/-!
# The number that a finite word stands for

A finite 64-bit word stands for a dyadic rational (`exact`): its fraction, with a one before the
point unless the exponent is the least, times a power of two, with the sign. Without the sign it is
the number of steps of `2 ^ -1074` (`absolute_eq_scaled_div`), so the whole part that the
conversions compute from the steps is the rational truncated toward zero (`toInt_eq_truncate`).
-/

namespace FieldCompute

/-! ## Toward zero -/

/-- The whole part of a rational, with its sign. -/
def truncate (q : ℚ) : ℤ := if 0 ≤ q then ⌊q⌋ else ⌈q⌉

theorem truncate_of_nonneg {q : ℚ} (h : 0 ≤ q) : truncate q = ⌊q⌋ := if_pos h

theorem truncate_neg (q : ℚ) : truncate (-q) = -truncate q := by
  unfold truncate
  rcases lt_trichotomy q 0 with h | rfl | h
  · rw [if_pos (by linarith), if_neg (by linarith), Int.floor_neg]
  · simp
  · rw [if_neg (by linarith), if_pos h.le, Int.ceil_neg]

/-- The division of naturals truncates. -/
theorem truncate_natCast_div (a b : ℕ) : truncate ((a : ℚ) / b) = (a / b : ℕ) := by
  rw [truncate_of_nonneg (by positivity)]
  exact Rat.floor_intCast_div_natCast a b

namespace Binary64

open BinaryFormat

/-! ## The fields of a word -/

/-- The biased exponent. -/
def exponent (x : Binary64) : ℕ := x.magnitude / 2 ^ 52

/-- The bits after the binary point. -/
def fraction (x : Binary64) : ℕ := x.magnitude % 2 ^ 52

/-- The number that a finite word stands for, without the sign. -/
def absolute (x : Binary64) : ℚ :=
  if x.exponent = 0 then x.fraction / 2 ^ 52 * 2 ^ (-1022 : ℤ)
  else (1 + x.fraction / 2 ^ 52) * 2 ^ ((x.exponent : ℤ) - 1023)

/-- The number that a finite word stands for. -/
def exact (x : Binary64) : ℚ := if x.isNegative then -x.absolute else x.absolute

/-! ## Steps -/

theorem absolute_eq_scaled_div (x : Binary64) :
    x.absolute = (double.scaled x.magnitude : ℚ) / (2 ^ double.step : ℕ) := by
  have hscaled : double.scaled x.magnitude =
      if x.exponent = 0 then x.fraction else (2 ^ 52 + x.fraction) * 2 ^ (x.exponent - 1) := rfl
  -- Of the 1074 places, 52 are the fraction's and 1022 the least exponent's.
  have hstep : ((2 ^ double.step : ℕ) : ℚ) = 2 ^ 52 * 2 ^ 1022 := by
    rw [show double.step = 52 + 1022 from rfl, Nat.cast_pow, Nat.cast_ofNat, pow_add]
  unfold absolute
  rw [hscaled, hstep]
  split
  · rw [zpow_neg, div_mul_eq_div_div, div_eq_mul_inv _ (2 ^ 1022)]
    rfl
  · next he =>
    obtain ⟨e, he⟩ := Nat.exists_eq_succ_of_ne_zero he
    have hpow : (2 : ℚ) ^ ((x.exponent : ℤ) - 1023) = 2 ^ e / 2 ^ 1022 := by
      rw [show (x.exponent : ℤ) - 1023 = e - (1022 : ℕ) by omega, zpow_sub₀ two_ne_zero,
        zpow_natCast, zpow_natCast]
    rw [hpow, he, Nat.succ_sub_one, one_add_div (by positivity), div_mul_div_comm]
    push_cast
    rfl

theorem truncate_absolute (x : Binary64) : truncate x.absolute = x.whole := by
  rw [absolute_eq_scaled_div, truncate_natCast_div]
  rfl

/-- What the conversions compute is the number, truncated. -/
theorem toInt_eq_truncate {x : Binary64} (h : x.isFinite = true) :
    x.toInt = truncate x.exact := by
  have hnan : x.isNaN = false := by
    simp only [isFinite, isNaN, decide_eq_true_eq, decide_eq_false_iff_not] at h ⊢
    omega
  simp only [toInt, hnan, Bool.false_eq_true, if_false]
  unfold exact
  split
  · rw [truncate_neg, truncate_absolute]
  · rw [truncate_absolute]

end Binary64

end FieldCompute
