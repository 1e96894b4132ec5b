import FieldCompute.Proofs.Value.Casts
/-!
# The integers of a type

An integer type has the integers of its range. They are those that wrapping leaves alone
(`wrap_eq_self_iff`), and it gives no others (`inRange_wrap`). So a carrier holds the integers of
its 64-bit type as they are (`int_eq_ofInt`, `uint_eq_ofInt`), and what the carrier makes of a
number does not count in the narrower types (`cast_ofInt_widest`).
-/

namespace FieldCompute

namespace Scalar

variable {s : Scalar} {i j : Int}

/-- The type has the integer. -/
def InRange (s : Scalar) (i : Int) : Prop :=
  if s.isSigned then s.minInt ≤ i ∧ i ≤ s.maxInt else 0 ≤ i ∧ i < 2 ^ s.width

instance (s : Scalar) (i : Int) : Decidable (s.InRange i) :=
  inferInstanceAs <| Decidable <|
    if s.isSigned then s.minInt ≤ i ∧ i ≤ s.maxInt else 0 ≤ i ∧ i < 2 ^ s.width

theorem inRange_of_signed (hs : s.isSigned = true) :
    s.InRange i ↔ s.minInt ≤ i ∧ i ≤ s.maxInt := by
  rw [InRange, if_pos hs]

theorem inRange_of_unsigned (hs : s.isSigned = false) :
    s.InRange i ↔ 0 ≤ i ∧ i < 2 ^ s.width := by
  rw [InRange, if_neg (by simp [hs])]

theorem wrap_eq_self_iff : s.wrap i = i ↔ s.InRange i := by
  have hwidth : s.width = s.width - 1 + 1 := by cases s <;> rfl
  have hpow : ((2 ^ s.width : Nat) : Int) = 2 * 2 ^ (s.width - 1) := by
    rw [hwidth, Int.natCast_pow, Int.pow_succ']
    rfl
  cases hs : s.isSigned with
  | true =>
    -- The bounds of a balanced residue are halves of the modulus, rounded.
    rw [inRange_of_signed hs, wrap, if_pos hs, Int.bmod_eq_iff (Nat.two_pow_pos _), hpow]
    simp only [minInt, maxInt, Int.sub_self, Int.dvd_zero, and_true]
    omega
  | false =>
    rw [inRange_of_unsigned hs, wrap, if_neg (by simp [hs])]
    refine ⟨fun h => ?_, fun h => Int.emod_eq_of_lt h.1 h.2⟩
    have hpos := Value.two_pow_width_pos s
    rw [← h]
    exact ⟨Int.emod_nonneg _ (Int.ne_of_gt hpos), Int.emod_lt_of_pos _ hpos⟩

theorem inRange_wrap (s : Scalar) (i : Int) : s.InRange (s.wrap i) := by
  rw [← wrap_eq_self_iff]
  unfold wrap
  split
  · exact Int.bmod_bmod
  · exact Int.emod_emod_of_dvd _ (Int.dvd_refl _)

theorem InRange.max (hi : s.InRange i) (hj : s.InRange j) : s.InRange (Max.max i j) := by
  rcases Int.le_total i j with h | h
  · rwa [Int.max_eq_right h]
  · rwa [Int.max_eq_left h]

theorem InRange.min (hi : s.InRange i) (hj : s.InRange j) : s.InRange (Min.min i j) := by
  rcases Int.le_total i j with h | h
  · rwa [Int.min_eq_left h]
  · rwa [Int.min_eq_right h]

end Scalar

namespace Value

theorem int_eq_ofInt (x : Int64) : Value.int x = ofInt .int64 x.toInt := by
  have hwrap : Scalar.int64.wrap x.toInt = x.toInt :=
    Scalar.wrap_eq_self_iff.2 ⟨x.le_toInt, Int.le_sub_one_of_lt x.toInt_lt⟩
  simp [ofInt, hwrap, Scalar.isSigned]

theorem uint_eq_ofInt (x : UInt64) : Value.uint x = ofInt .uint64 x.toNat := by
  have hwrap : Scalar.uint64.wrap x.toNat = x.toNat :=
    Scalar.wrap_eq_self_iff.2 ⟨Int.natCast_nonneg _, by exact_mod_cast x.toNat_lt⟩
  simp [ofInt, hwrap, Scalar.isSigned]

/-! ## From type to type -/

/-- The type of all integers of the carrier. -/
def widest (s : Scalar) : Scalar := if s.isSigned then .int64 else .uint64

variable {s t : Scalar}

/-- What a wider type cuts off does not count in a narrower one. -/
theorem wrap_emod_of_le (h : t.width ≤ s.width) (i : Int) :
    s.wrap i % 2 ^ t.width = i % 2 ^ t.width := by
  have hdvd : (2 : Int) ^ t.width ∣ 2 ^ s.width := by exact_mod_cast Nat.pow_dvd_pow 2 h
  rw [← Int.emod_emod_of_dvd _ hdvd, wrap_emod, Int.emod_emod_of_dvd _ hdvd]

theorem ofInt_inj {i j : Int} : ofInt s i = ofInt s j ↔ i % 2 ^ s.width = j % 2 ^ s.width := by
  refine ⟨fun h => ?_, ofInt_congr⟩
  have hwrap : s.wrap i = s.wrap j :=
    Option.some.inj (by rw [← number?_ofInt, ← number?_ofInt, h])
  rw [← wrap_emod s i, ← wrap_emod s j, hwrap]

/-- Reducing a number to another type before makes no difference if it keeps the residue. -/
theorem ofInt_eq_cast (ht : t.isInt = true) (s : Scalar) (i : Int) :
    ofInt t i = (ofInt s i).cast t ↔ s.wrap i % 2 ^ t.width = i % 2 ^ t.width := by
  rw [cast_ofInt ht, ofInt_inj, eq_comm]

theorem cast_ofInt_widest (ht : t.isInt = true) (s : Scalar) (i : Int) :
    (ofInt (widest s) i).cast t = ofInt t i := by
  have hwidth : t.width ≤ (widest s).width := by
    unfold widest
    split <;> cases t <;> decide
  exact ((ofInt_eq_cast ht _ i).2 (wrap_emod_of_le hwidth i)).symm

end Value

end FieldCompute
