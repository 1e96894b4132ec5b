import FieldCompute.Proofs.Number.Exact
import FieldCompute.Proofs.Value.Ranges
import FieldCompute.Proofs.Value.Types
/-!
# Floats cast to integers

A float is cast to an integer type through its whole part, which is clamped first: to the type's own
range if the type is signed, to the range of 64 signed bits if it is not. So the cast gives the
number truncated toward zero wherever the type has that integer (`floats_truncated`), except in the
upper half of `uint64`: those numbers lie beyond 64 signed bits, and each of them becomes the
largest one that does not (`upper_half_saturates`).
-/

namespace FieldCompute

/-! ## Through 64 signed bits -/

namespace Scalar

variable {s : Scalar} {i : Int}

theorem minInt_le_maxInt (s : Scalar) : s.minInt ≤ s.maxInt := by
  have : (0 : Int) < 2 ^ (s.width - 1) := Int.pow_pos (by decide)
  unfold minInt maxInt
  omega

theorem clamp_eq_self_iff : s.clamp i = i ↔ s.minInt ≤ i ∧ i ≤ s.maxInt := by
  have := s.minInt_le_maxInt
  unfold clamp
  omega

/-- The signed type that a float passes through on its way to an integer type. -/
def passage (s : Scalar) : Scalar := if s.isSigned then s else .int64

/-- The passage is as wide as the type, but for the upper half of `uint64`. -/
theorem InRange.passage (hs : s.isInt = true) (h : s.InRange i) (h63 : s = .uint64 → i < 2 ^ 63) :
    s.passage.minInt ≤ i ∧ i ≤ s.passage.maxInt := by
  unfold Scalar.passage
  cases hsigned : s.isSigned with
  | true => exact (inRange_of_signed hsigned).1 h
  | false =>
    obtain ⟨h0, h1⟩ := (inRange_of_unsigned hsigned).1 h
    change -2 ^ 63 ≤ i ∧ i ≤ 2 ^ 63 - 1
    -- The narrower unsigned types lie within 64 signed bits.
    have hi : i < 2 ^ 63 := by
      cases s with
      | uint64 => exact h63 rfl
      | uint8 => exact h1.trans (by decide)
      | uint16 => exact h1.trans (by decide)
      | uint32 => exact h1.trans (by decide)
      | _ => simp_all [isInt, isSigned, isUnsigned]
    omega

theorem wrap_clamp_passage_upper (h : 2 ^ 63 ≤ i) :
    uint64.wrap (uint64.passage.clamp i) = 2 ^ 63 - 1 := by
  have hclamp : uint64.passage.clamp i = 2 ^ 63 - 1 := by
    change max (-2 ^ 63) (min (2 ^ 63 - 1) i) = 2 ^ 63 - 1
    omega
  rw [hclamp]
  rfl

/-- The integers that come through the passage as they are. -/
theorem wrap_clamp_passage_iff (hs : s.isInt = true) :
    s.wrap (s.passage.clamp i) = i ↔ s.InRange i ∧ (s = .uint64 → i < 2 ^ 63) := by
  constructor
  · intro h
    refine ⟨by rw [← h]; exact inRange_wrap .., ?_⟩
    rintro rfl
    by_contra hi
    rw [wrap_clamp_passage_upper (by omega)] at h
    omega
  · rintro ⟨h, h63⟩
    rw [clamp_eq_self_iff.2 (h.passage hs h63), wrap_eq_self_iff]
    exact h

end Scalar

/-! ## Casts -/

namespace Value

open Binary64

variable {s : Scalar} {x : Binary64}

theorem cast_float (hs : s.isInt = true) (hx : x.isFinite = true) :
    (float x).cast s = ofInt s (s.passage.clamp (truncate x.exact)) := by
  rw [← toInt_eq_truncate hx]
  cases s <;> first | rfl | cases hs

/-- A finite float cast to an integer type gives an integer of that type. It is the number truncated
toward zero exactly if the type has it and it is not in the upper half of `uint64`. -/
theorem floats_truncated (hs : s.isInt = true) (hx : x.isFinite = true) :
    ∃ v, (float x).castTo? (.scalar s) = some v ∧ v.HasType (.scalar s) ∧
      (v.number? = some (truncate x.exact) ↔
        s.InRange (truncate x.exact) ∧ (s = .uint64 → truncate x.exact < 2 ^ 63)) ∧
      (s = .uint64 → 2 ^ 63 ≤ truncate x.exact → v.number? = some (2 ^ 63 - 1)) := by
  have hnumber : ((float x).cast s).number? =
      some (s.wrap (s.passage.clamp (truncate x.exact))) := by
    rw [cast_float hs hx, number?_ofInt]
  refine ⟨(float x).cast s, rfl, hasType_scalar_iff.2 (cast_cast _ _), ?_, ?_⟩
  · rw [hnumber, Option.some_inj]
    exact Scalar.wrap_clamp_passage_iff hs
  · rintro rfl h
    rw [hnumber, Scalar.wrap_clamp_passage_upper h]

/-- At two ends: the least number of `int64`, and the last float below `2 ^ 63` as a `uint64`. -/
theorem floats_truncated_at_ends :
    (∃ v, (float ⟨0xc3e0000000000000⟩).castTo? (.scalar .int64) = some v ∧
      v.number? = some (-2 ^ 63)) ∧
    ∃ v, (float ⟨0x43dfffffffffffff⟩).castTo? (.scalar .uint64) = some v ∧
      v.number? = some (2 ^ 63 - 1024) := by
  constructor
  · have hx : (⟨0xc3e0000000000000⟩ : Binary64).isFinite = true := by decide
    have ht : truncate (exact ⟨0xc3e0000000000000⟩) = -2 ^ 63 :=
      (toInt_eq_truncate hx).symm.trans (by decide +kernel)
    obtain ⟨v, hv, -, hnumber, -⟩ := floats_truncated (s := .int64) rfl hx
    rw [ht] at hnumber
    exact ⟨v, hv, hnumber.2 (by decide)⟩
  · have hx : (⟨0x43dfffffffffffff⟩ : Binary64).isFinite = true := by decide
    have ht : truncate (exact ⟨0x43dfffffffffffff⟩) = 2 ^ 63 - 1024 :=
      (toInt_eq_truncate hx).symm.trans (by decide +kernel)
    obtain ⟨v, hv, -, hnumber, -⟩ := floats_truncated (s := .uint64) rfl hx
    rw [ht] at hnumber
    exact ⟨v, hv, hnumber.2 (by decide)⟩

/-- The least number of the upper half of `uint64` is a float, and it does not come through. -/
theorem upper_half_saturates :
    (⟨0x43e0000000000000⟩ : Binary64).isFinite = true ∧
    truncate (exact ⟨0x43e0000000000000⟩) = 2 ^ 63 ∧ Scalar.uint64.InRange (2 ^ 63) ∧
    (float ⟨0x43e0000000000000⟩).castTo? (.scalar .uint64) = some (.uint 9223372036854775807) ∧
    (Value.uint 9223372036854775807).number? ≠ some (2 ^ 63) := by
  have hx : (⟨0x43e0000000000000⟩ : Binary64).isFinite = true := by decide
  have ht : truncate (exact ⟨0x43e0000000000000⟩) = 2 ^ 63 :=
    (toInt_eq_truncate hx).symm.trans (by decide +kernel)
  exact ⟨hx, ht, by decide, by decide +kernel, by decide⟩

end Value

end FieldCompute
