import FieldCompute.Proofs.Value.Comparison
import FieldCompute.Proofs.Value.Residues
/-!
# The order of integers

Two integers are compared in the type of higher rank. That is the order of the numbers if this type
has all integers of the other one (`Scalar.Comparable.inRange`): an unsigned type has those of a
signed one never, and a signed type has those of an unsigned one only if it is wider. So integers of
comparable types compare as numbers (`BinaryOp.integers_compare`).
-/

namespace FieldCompute

namespace Scalar

variable {s t : Scalar} {i : Int}

/-- One of the two integer types has the integers of both: they have the same signedness, or the
signed one is wider. -/
def Comparable (s t : Scalar) : Prop :=
  s.isSigned = t.isSigned ∨ s.isSigned = true ∧ t.width < s.width ∨
    t.isSigned = true ∧ s.width < t.width

instance (s t : Scalar) : Decidable (s.Comparable t) := inferInstanceAs (Decidable (_ ∨ _))

theorem Comparable.symm (h : s.Comparable t) : t.Comparable s := by
  obtain h | h | h := h
  · exact .inl h.symm
  · exact .inr (.inr h)
  · exact .inr (.inl h)

theorem two_pow_le_two_pow {m n : Nat} (h : m ≤ n) : (2 : Int) ^ m ≤ 2 ^ n := by
  exact_mod_cast Nat.pow_le_pow_right (by decide) h

theorem InRange.mono (hsign : s.isSigned = t.isSigned) (hw : s.width ≤ t.width)
    (h : s.InRange i) : t.InRange i := by
  cases ht : t.isSigned with
  | true =>
    rw [inRange_of_signed (hsign.trans ht)] at h
    rw [inRange_of_signed ht]
    have hle : (2 : Int) ^ (s.width - 1) ≤ 2 ^ (t.width - 1) := two_pow_le_two_pow (by omega)
    simp only [minInt, maxInt] at h ⊢
    omega
  | false =>
    rw [inRange_of_unsigned (hsign.trans ht)] at h
    rw [inRange_of_unsigned ht]
    exact ⟨h.1, Int.lt_of_lt_of_le h.2 (two_pow_le_two_pow hw)⟩

theorem InRange.of_unsigned (hs : s.isSigned = false) (ht : t.isSigned = true)
    (hw : s.width < t.width) (h : s.InRange i) : t.InRange i := by
  rw [inRange_of_unsigned hs] at h
  rw [inRange_of_signed ht]
  have hle : (2 : Int) ^ s.width ≤ 2 ^ (t.width - 1) := two_pow_le_two_pow (by omega)
  simp only [minInt, maxInt]
  omega

/-- Integer types rank by width, and of two of the same width the unsigned one is above. -/
theorem rank_of_isInt (hs : s.isInt = true) :
    s.rank = 2 * s.bytes + if s.isSigned then 0 else 1 := by
  cases s <;> first | rfl | cases hs

/-- Of two comparable types, the one of higher rank has the integers of the other. -/
theorem Comparable.inRange (hs : s.isInt = true) (ht : t.isInt = true) (h : s.Comparable t)
    (hrank : s.rank ≤ t.rank) (hi : s.InRange i) : t.InRange i := by
  have hsrank := rank_of_isInt hs
  have htrank := rank_of_isInt ht
  obtain hsign | ⟨hss, hw⟩ | ⟨hts, hw⟩ := h
  · rw [hsign] at hsrank
    exact hi.mono hsign (Nat.mul_le_mul_left 8 (by omega))
  · -- The signed type is the wider one here, and so the one of higher rank.
    rw [hss, if_pos rfl] at hsrank
    unfold width at hw
    split at htrank <;> omega
  · cases hss : s.isSigned with
    | true => exact hi.mono (hss.trans hts.symm) hw.le
    | false => exact hi.of_unsigned hss hts hw

end Scalar

theorem compare_natCast (m n : Nat) : compare (m : Int) n = compare m n := by
  simp [compare, compareOfLessAndEq]

/-- A type that has the integer leaves it as it is. -/
theorem Value.number?_cast_of_inRange {s : Scalar} {v : Value} {i : Int} (hs : s.isInt = true)
    (hv : v.number? = some i) (hi : s.InRange i) : (v.cast s).number? = some i := by
  rw [number?_cast hs (integer?_of_number? hv), Scalar.wrap_eq_self_iff.2 hi]

namespace BinaryOp

open Value

variable {a b : Value} {l r : Scalar} {A B : Int}

/-- The relation of numbers that a comparison is about. -/
def relates (op : BinaryOp) (A B : Int) : Bool :=
  match op with
  | lt => A < B
  | le => A ≤ B
  | gt => A > B
  | ge => A ≥ B
  | eq => A = B
  | ne => A ≠ B
  | _ => false

theorem holds_compare (op : BinaryOp) (A B : Int) :
    op.holds (some (compare A B)) = op.relates A B := by
  have hlt : compare A B = .lt ↔ A < B := Int.compare_eq_lt
  have heq : compare A B = .eq ↔ A = B := Int.compare_eq_eq
  have hgt : compare A B = .gt ↔ B < A := Int.compare_eq_gt
  rw [Bool.eq_iff_iff]
  cases op <;> simp only [holds, relates, Option.some.injEq, Bool.or_eq_true, decide_eq_true_iff,
    hlt, heq, hgt, ne_eq, Bool.false_eq_true] <;> omega

/-- Integers in one carrier compare as numbers. -/
theorem order?_of_number? (h : a.dtype = b.dtype) (hA : a.number? = some A)
    (hB : b.number? = some B) : order? a b = some (some (compare A B)) := by
  cases a <;> cases b <;> first | cases h; done | cases hA <;> cases hB
  case int.int x y => rfl
  case uint.uint x y => rw [order?, compare_natCast]

/-- Integers of comparable types compare as numbers in their common type. -/
theorem ordered_of_comparable (hl : l.isInt = true) (hr : r.isInt = true) (h : l.Comparable r)
    (hA : (a.cast l).number? = some A) (hAl : l.InRange A)
    (hB : (b.cast r).number? = some B) (hBr : r.InRange B) :
    Ordered a l b r (some (compare A B)) := by
  have hordered {w : Scalar} (hw : w.isInt = true) (hAw : w.InRange A) (hBw : w.InRange B) :
      order? ((a.cast l).cast w) ((b.cast r).cast w) = some (some (compare A B)) :=
    order?_of_number? ((dtype_cast _ w).trans (dtype_cast _ w).symm)
      (number?_cast_of_inRange hw hA hAw) (number?_cast_of_inRange hw hB hBw)
  by_cases hrank : r.rank ≤ l.rank
  · refine ⟨l, by rw [DType.common?_scalar, if_pos hrank], ?_⟩
    exact hordered hl hAl (h.symm.inRange hr hl hrank hBr)
  · refine ⟨r, by rw [DType.common?_scalar, if_neg hrank], ?_⟩
    exact hordered hr (h.inRange hl hr (by omega) hAl) hBr

/-- Integers of types that have the same signedness, or of which the signed one is wider, compare as
numbers: a comparison gives its truth value, cast to the result type. -/
theorem integers_compare (hl : l.isInt = true) (hr : r.isInt = true) (h : l.Comparable r)
    (a b : Value) :
    ∃ A B, (a.cast l).number? = some A ∧ (b.cast r).number? = some B ∧
      ∀ (op : BinaryOp) (ret : Scalar), op.isComparison = true →
        op.eval? a (.scalar l) b (.scalar r) (.scalar ret) =
          some ((Value.bool (op.relates A B)).cast ret) := by
  obtain ⟨A, hA, hAl⟩ := exists_number?_cast hl a
  obtain ⟨B, hB, hBr⟩ := exists_number?_cast hr b
  refine ⟨A, B, hA, hB, ?_⟩
  intro op ret hop
  have ho := ordered_of_comparable hl hr h hA hAl hB hBr
  rw [eval?_of_ordered hop ho, holds_compare]

/-- As an `int16`, -1 is less than every `uint8`, the greatest one, too. -/
theorem integers_compare_extremes :
    Scalar.int16.isInt = true ∧ Scalar.uint8.isInt = true ∧ Scalar.int16.Comparable .uint8 ∧
    lt.eval? (.int (-1)) (.scalar .int16) (.int (-1)) (.scalar .uint8) (.scalar .float32) =
      some ((Value.bool true).cast .float32) := by
  have hl : Scalar.int16.isInt = true := rfl
  have hr : Scalar.uint8.isInt = true := rfl
  have h : Scalar.int16.Comparable .uint8 := .inr (.inl ⟨rfl, by decide⟩)
  obtain ⟨A, B, hA, hB, hcompare⟩ := integers_compare hl hr h (.int (-1)) (.int (-1))
  obtain rfl : -1 = A := Option.some.inj (Eq.trans (by decide) hA)
  obtain rfl : 255 = B := Option.some.inj (Eq.trans (by decide) hB)
  exact ⟨hl, hr, h, hcompare lt .float32 rfl⟩

/-- Beside an unsigned type of its own width, -1 is read as the greatest number. -/
example : lt.eval? (.int (-1)) (.scalar .int32) (.uint 0) (.scalar .uint32) (.scalar .bool) =
    some (.bool false) := by decide

end BinaryOp

end FieldCompute
