import FieldCompute.Proofs.Value.Arithmetic
/-!
# Division and remainder

Division of integers rounds toward zero. The remainder lies in the range of every type that has the
divisor (`Scalar.inRange_tmod`), and so does the quotient in the range of every type that has the
dividend, but for the least integer divided by -1 (`Scalar.inRange_tdiv_iff`). That quotient wraps
in every width: for `int64` in the carrier, for the narrower types in the last cast. Quotient and
remainder fit together all the same (`division_with_remainder`).
-/

namespace FieldCompute

namespace Scalar

variable {s : Scalar} {A B : Int}

theorem inRange_tmod (hB : s.InRange B) (h0 : B ≠ 0) (hA : s.InRange A) : s.InRange (A.tmod B) := by
  have habs : (A.tmod B).natAbs < B.natAbs := by
    rw [Int.natAbs_tmod]
    exact Nat.mod_lt _ (Int.natAbs_pos.2 h0)
  cases hs : s.isSigned with
  | true =>
    rw [inRange_of_signed hs] at hB ⊢
    simp only [minInt, maxInt] at hB ⊢
    omega
  | false =>
    rw [inRange_of_unsigned hs] at hA hB ⊢
    have hnonneg := Int.tmod_nonneg B hA.1
    omega

/-- The only quotient that a type has not is that of its least integer by -1. -/
theorem inRange_tdiv_iff (hA : s.InRange A) (hB : s.InRange B) :
    s.InRange (A.tdiv B) ↔ ¬(s.isSigned = true ∧ A = s.minInt ∧ B = -1) := by
  cases hs : s.isSigned with
  | true =>
    have hpos : (0 : Int) < 2 ^ (s.width - 1) := Int.pow_pos (by decide)
    rw [inRange_of_signed hs] at hA ⊢
    simp only [minInt, maxInt, true_and] at hA ⊢
    rcases eq_or_ne B (-1) with rfl | hB1
    · rw [Int.tdiv_neg, Int.tdiv_one]
      omega
    · -- Any other divisor is 0 or 1, or it halves the dividend at least.
      have habs : (A.tdiv B).natAbs = A.natAbs / B.natAbs := Int.natAbs_tdiv A B
      rcases (show B = 0 ∨ B = 1 ∨ 2 ≤ B.natAbs by omega) with rfl | rfl | h2
      · rw [Int.tdiv_zero]
        omega
      · rw [Int.tdiv_one]
        omega
      · have hhalf : A.natAbs / B.natAbs ≤ A.natAbs / 2 := Nat.div_le_div_left h2 (by decide)
        omega
  | false =>
    rw [inRange_of_unsigned hs] at hA hB ⊢
    have hnonneg := Int.tdiv_nonneg hA.1 hB.1
    have habs := Int.natAbs_tdiv_le_natAbs A B
    simp only [Bool.false_eq_true, false_and, not_false_iff, iff_true]
    omega

end Scalar

theorem tmod_eq_zero_or_sign_eq (A B : Int) : A.tmod B = 0 ∨ (A.tmod B).sign = A.sign := by
  have hsign := Int.sign_tmod A B
  split at hsign
  · exact .inl (Int.sign_eq_zero_iff_zero.1 hsign)
  · exact .inr hsign

open Value

variable {lhs rhs ret : Scalar} {a b : Value} {A' B' : Int}

/-- The answers are quotient and remainder of the integers `A'` and `B'` of type `ret`; there are none
if the divisor is zero. -/
structure TruncatedDivision (ret : Scalar) (quotient remainder : Option Value)
    (A' B' : Int) : Prop where
  byZero : B' = 0 → quotient = none ∧ remainder = none
  defined : B' ≠ 0 → ∃ q r, Gives quotient ret q ∧ Gives remainder ret r ∧
    ret.Reduces (A'.tdiv B') q ∧
    (q ≠ A'.tdiv B' ↔ ret.isSigned = true ∧ A' = ret.minInt ∧ B' = -1) ∧
    r.natAbs < B'.natAbs ∧ (r = 0 ∨ r.sign = A'.sign) ∧
    q * B' + r ≡ A' [ZMOD 2 ^ ret.width]

/-- Division and remainder of operands of integer types or `bool`, which are the integers `A'` and
`B'` in the result type, are both undefined if `B'` is zero and both defined else. The quotient is
that of `A'` and `B'`, rounded toward zero and reduced to the result type, which changes it only if
the least integer is divided by -1. The remainder is less than `B'`, signs apart, and is zero or has
the sign of `A'`. The quotient times `B'` and the remainder together are `A'`, modulo the width. -/
theorem division_with_remainder (hl : lhs.isFloat = false) (hr : rhs.isFloat = false)
    (ht : ret.isInt = true) (a b : Value) :
    ∃ A' B', ((a.cast lhs).cast ret).number? = some A' ∧
      ((b.cast rhs).cast ret).number? = some B' ∧
      TruncatedDivision ret
        (BinaryOp.idiv.eval? a (.scalar lhs) b (.scalar rhs) (.scalar ret))
        (BinaryOp.mod.eval? a (.scalar lhs) b (.scalar rhs) (.scalar ret)) A' B' := by
  obtain ⟨A, hA⟩ := exists_integer?_cast hl a
  obtain ⟨B, hB⟩ := exists_integer?_cast hr b
  have heval {op : BinaryOp} (hcmp : op.isComparison = false) (hop : op.isShift = false) :=
    BinaryOp.eval?_eq_onNumbers? hcmp hop ht hA hB
  have hA' := Scalar.inRange_wrap ret A
  have hB' := Scalar.inRange_wrap ret B
  refine ⟨ret.wrap A, ret.wrap B, number?_cast ht hA, number?_cast ht hB, ?_, ?_⟩
  · intro h0
    rw [heval rfl rfl, heval rfl rfl, BinaryOp.onNumbers?, BinaryOp.onNumbers?, if_pos h0, if_pos h0]
    exact ⟨rfl, rfl⟩
  · intro h0
    rw [heval rfl rfl, heval rfl rfl, BinaryOp.onNumbers?, BinaryOp.onNumbers?, if_neg h0, if_neg h0]
    generalize ret.wrap A = A' at hA' ⊢
    generalize ret.wrap B = B' at hB' h0 ⊢
    have hquotient := ret.wrap_modEq (A'.tdiv B')
    refine ⟨ret.wrap (A'.tdiv B'), A'.tmod B', gives_ofInt ht _,
      gives_ofInt_self ht (Scalar.inRange_tmod hB' h0 hA'),
      Scalar.reduces_iff.2 rfl, ?_, ?_, tmod_eq_zero_or_sign_eq A' B', ?_⟩
    · rw [Ne, Scalar.wrap_eq_self_iff, Scalar.inRange_tdiv_iff hA' hB', not_not]
    · rw [Int.natAbs_tmod]
      exact Nat.mod_lt _ (Int.natAbs_pos.2 h0)
    · have hsum := (hquotient.mul_right B').add_right (A'.tmod B')
      rwa [Int.mul_comm (A'.tdiv B') B', Int.mul_tdiv_add_tmod] at hsum

/-- The least `int8` divided by -1 is not 128 but itself, and leaves nothing. -/
theorem division_with_remainder_least :
    Scalar.int8.isFloat = false ∧ Scalar.int8.isInt = true ∧
    Gives (BinaryOp.idiv.eval? (.int (-128)) (.scalar .int8) (.int (-1)) (.scalar .int8)
      (.scalar .int8)) .int8 (-128) ∧
    Gives (BinaryOp.mod.eval? (.int (-128)) (.scalar .int8) (.int (-1)) (.scalar .int8)
      (.scalar .int8)) .int8 0 := by
  have hl : Scalar.int8.isFloat = false := rfl
  have ht : Scalar.int8.isInt = true := rfl
  obtain ⟨A', B', hA', hB', h⟩ := division_with_remainder hl hl ht (.int (-128)) (.int (-1))
  obtain rfl : -128 = A' := Option.some.inj (Eq.trans (by decide) hA')
  obtain rfl : -1 = B' := Option.some.inj (Eq.trans (by decide) hB')
  obtain ⟨q, r, hq, hr, hreduces, -, hlt, -, -⟩ := h.defined (by decide)
  obtain rfl : q = -128 := Scalar.reduces_iff.1 hreduces
  obtain rfl : r = 0 := by omega
  exact ⟨hl, ht, hq, hr⟩

end FieldCompute
