import FieldCompute.Proofs.Value.Ranges
import FieldCompute.Proofs.Value.Words
/-!
# Shifts

A shift works in the 64 bits of the carrier, whatever the width of its left operand
(`onValues?_ofInt`): to the right it divides by a power of two and rounds down, to
the left it multiplies by one. The product is brought to the result type at once, so bits that are
beyond the left operand's type are lost only as far as the result type has no room for them
(`BinaryOp.shifts`).
-/

namespace FieldCompute

/-! ## Words -/

section Words

variable {x y : Int64}

theorem toNat_smod (h : 0 ≤ y.toInt) (h' : y.toInt < 64) :
    (y.toBitVec.smod 64).toNat = y.toInt.toNat := by
  have hsmod : y.toBitVec.smod 64 = y.toBitVec := by
    apply BitVec.eq_of_toInt_eq
    rw [BitVec.toInt_smod]
    exact Int.fmod_eq_of_lt h h'
  have hcond : y.toInt = if 2 * y.toBitVec.toNat < 2 ^ 64 then (y.toBitVec.toNat : Int)
      else y.toBitVec.toNat - (2 ^ 64 : Nat) := BitVec.toInt_eq_toNat_cond y.toBitVec
  have hlt := y.toBitVec.isLt
  rw [hsmod]
  split at hcond <;> omega

theorem toInt_shiftLeft (h : 0 ≤ y.toInt) (h' : y.toInt < 64) :
    (x <<< y).toInt = (x.toInt * 2 ^ y.toInt.toNat).bmod (2 ^ 64) := by
  change (x <<< y).toBitVec.toInt = (x.toBitVec.toInt * 2 ^ y.toInt.toNat).bmod (2 ^ 64)
  rw [Int64.toBitVec_shiftLeft, BitVec.shiftLeft_eq', toNat_smod h h', BitVec.toInt_shiftLeft,
    BitVec.toInt_eq_toNat_bmod x.toBitVec, Int.bmod_mul_bmod, Nat.shiftLeft_eq]
  push_cast
  rfl

theorem toInt_shiftRight (h : 0 ≤ y.toInt) (h' : y.toInt < 64) :
    (x >>> y).toInt = x.toInt / 2 ^ y.toInt.toNat := by
  change (x >>> y).toBitVec.toInt = x.toBitVec.toInt / 2 ^ y.toInt.toNat
  rw [Int64.toBitVec_shiftRight, BitVec.toInt_sshiftRight', toNat_smod h h',
    Int.shiftRight_eq_div_pow]
  push_cast
  rfl

end Words

/-! ## Integers of one type -/

namespace BinaryOp

open Value

variable {op : BinaryOp} {s ret : Scalar}

/-- The number of places is not negative and less than the bits of the carrier. -/
def InReach (n : Int) : Prop := 0 ≤ n ∧ n < 64

instance (n : Int) : Decidable (InReach n) := inferInstanceAs (Decidable (_ ∧ _))

/-- The number that a shift by `n` places makes of `A`, in a type without bounds. A quotient is
rounded down. -/
def shifted (op : BinaryOp) (A n : Int) : Int :=
  if op = shl then A * 2 ^ n.toNat else A / 2 ^ n.toNat

theorem onValues?_int (hop : op.isShift = true) (x y : Int64) :
    op.onValues? (.int x) (.int y) =
      if InReach y.toInt then some (ofInt .int64 (op.shifted x.toInt y.toInt)) else none := by
  cases op with
  | shl =>
    change (if InReach y.toInt then some (x <<< y) else none).map Value.int = _
    split
    next h =>
      have hshl : ofInt .int64 (x <<< y).toInt = ofInt .int64 (shl.shifted x.toInt y.toInt) := by
        rw [toInt_shiftLeft h.1 h.2]
        exact ofInt_congr Int.bmod_emod
      rw [Option.map_some, int_eq_ofInt, hshl]
    next => rfl
  | shr =>
    change (if InReach y.toInt then some (x >>> y) else none).map Value.int = _
    split
    next h =>
      rw [Option.map_some, int_eq_ofInt, toInt_shiftRight h.1 h.2]
      rfl
    next => rfl
  | _ => cases hop

theorem onValues?_uint (hop : op.isShift = true) (x y : UInt64) :
    op.onValues? (.uint x) (.uint y) =
      if InReach y.toNat then some (ofInt .uint64 (op.shifted x.toNat y.toNat)) else none := by
  have hreach : y < 64 ↔ InReach y.toNat := by
    rw [UInt64.lt_iff_toNat_lt, InReach]
    change y.toNat < 64 ↔ _
    omega
  have hmod (h : InReach y.toNat) : y.toNat % 64 = y.toNat :=
    Nat.mod_eq_of_lt (by exact_mod_cast h.2)
  cases op with
  | shl =>
    change (if y < 64 then some (x <<< y) else none).map Value.uint = _
    rw [ite_congr (propext hreach) (fun _ => rfl) fun _ => rfl]
    split
    next h =>
      have hmul : ((x.toNat * 2 ^ y.toNat : Nat) : Int) = shl.shifted x.toNat y.toNat := by
        push_cast
        rfl
      have hshl : ofInt .uint64 (x <<< y).toNat = ofInt .uint64 (shl.shifted x.toNat y.toNat) := by
        rw [UInt64.toNat_shiftLeft, hmod h, Nat.shiftLeft_eq, Int.natCast_emod, hmul]
        exact ofInt_congr (Int.emod_emod_of_dvd _ (Int.dvd_refl _))
      rw [Option.map_some, uint_eq_ofInt, hshl]
    next => rfl
  | shr =>
    change (if y < 64 then some (x >>> y) else none).map Value.uint = _
    rw [ite_congr (propext hreach) (fun _ => rfl) fun _ => rfl]
    split
    next h =>
      have hshr : ((x >>> y).toNat : Int) = shr.shifted x.toNat y.toNat := by
        rw [UInt64.toNat_shiftRight, hmod h, Nat.shiftRight_eq_div_pow]
        push_cast
        rfl
      rw [Option.map_some, uint_eq_ofInt, hshr]
    next => rfl
  | _ => cases hop

/-- A shift of integers of one type works in the carrier of the type. -/
theorem onValues?_ofInt (hop : op.isShift = true) (s : Scalar) (i j : Int) :
    op.onValues? (ofInt s i) (ofInt s j) =
      if InReach (s.wrap j) then some (ofInt (widest s) (op.shifted (s.wrap i) (s.wrap j)))
      else none := by
  unfold widest Scalar.wrap
  cases hs : s.isSigned with
  | true =>
    obtain ⟨x, hx, hi⟩ := ofInt_of_signed hs i
    obtain ⟨y, hy, hj⟩ := ofInt_of_signed hs j
    rw [hx, hy, onValues?_int hop, hi, hj]
    rfl
  | false =>
    obtain ⟨x, hx, hi⟩ := ofInt_of_unsigned hs i
    obtain ⟨y, hy, hj⟩ := ofInt_of_unsigned hs j
    rw [hx, hy, onValues?_uint hop, hi, hj]
    rfl

/-- A shift reads its right operand as the left one's type, and brings the number that it makes to
the result type at once. -/
theorem eval?_shift (op : BinaryOp) (hop : op.isShift = true) (a b : Value) {lhs rhs ret : Scalar}
    (hl : lhs.isInt = true) (ht : ret.isInt = true) {A n : Int}
    (hA : (a.cast lhs).number? = some A) (hn : ((b.cast rhs).cast lhs).number? = some n) :
    op.eval? a (.scalar lhs) b (.scalar rhs) (.scalar ret) =
      if InReach n then some (ofInt ret (op.shifted A n)) else none := by
  obtain ⟨i, hi⟩ := exists_cast_eq_ofInt hl a
  obtain ⟨j, hj⟩ := exists_cast_eq_ofInt hl (b.cast rhs)
  obtain rfl : lhs.wrap i = A := Option.some.inj (by rw [← hA, hi, number?_ofInt])
  obtain rfl : lhs.wrap j = n := Option.some.inj (by rw [← hn, hj, number?_ofInt])
  have hwork : op.workType? (.scalar lhs) (.scalar rhs) (.scalar ret) = some (.scalar lhs) := by
    cases op <;> cases hop <;> rfl
  simp only [eval?, hwork, Option.bind_eq_bind, Option.bind_some, castTo?_scalar, hi, hj,
    cast_ofInt_self hl, onValues?_ofInt hop]
  split
  · rw [Option.bind_some, cast_ofInt_widest ht]
  · rfl

/-! ## Shifts of all values -/

/-- A shift of values read as integer types is defined if and only if the number of places, in the
left operand's type, is at least 0 and less than 64. Shifting to the right then divides by a power
of two and rounds down, and shifting to the left multiplies by it, and the result type takes what it
has room for. The product is not reduced to the left operand's type before. That makes no difference
if and only if the reduced product is the same number to the result type, and in particular if the
result type is not wider than the left operand's. -/
theorem shifts (a b : Value) {lhs ret : Scalar} (rhs : Scalar) (hl : lhs.isInt = true)
    (ht : ret.isInt = true) :
    ∃ A n, (a.cast lhs).number? = some A ∧ ((b.cast rhs).cast lhs).number? = some n ∧
      (¬InReach n →
        shl.eval? a (.scalar lhs) b (.scalar rhs) (.scalar ret) = none ∧
        shr.eval? a (.scalar lhs) b (.scalar rhs) (.scalar ret) = none) ∧
      (InReach n →
        shr.eval? a (.scalar lhs) b (.scalar rhs) (.scalar ret) =
          some (ofInt ret (A / 2 ^ n.toNat)) ∧
        shl.eval? a (.scalar lhs) b (.scalar rhs) (.scalar ret) =
          some (ofInt ret (A * 2 ^ n.toNat)) ∧
        (shl.eval? a (.scalar lhs) b (.scalar rhs) (.scalar ret) =
            some ((ofInt lhs (A * 2 ^ n.toNat)).cast ret) ↔
          lhs.wrap (A * 2 ^ n.toNat) % 2 ^ ret.width = A * 2 ^ n.toNat % 2 ^ ret.width) ∧
        (ret.width ≤ lhs.width →
          shl.eval? a (.scalar lhs) b (.scalar rhs) (.scalar ret) =
            some ((ofInt lhs (A * 2 ^ n.toNat)).cast ret))) := by
  obtain ⟨i, hi⟩ := exists_cast_eq_ofInt hl a
  obtain ⟨j, hj⟩ := exists_cast_eq_ofInt hl (b.cast rhs)
  have hA : (a.cast lhs).number? = some (lhs.wrap i) := by rw [hi, number?_ofInt]
  have hn : ((b.cast rhs).cast lhs).number? = some (lhs.wrap j) := by rw [hj, number?_ofInt]
  have hshl := eval?_shift shl rfl a b hl ht hA hn
  have hshr := eval?_shift shr rfl a b hl ht hA hn
  refine ⟨_, _, hA, hn, fun h => ?_, fun h => ?_⟩
  · rw [hshl, hshr, if_neg h, if_neg h]
    exact ⟨rfl, rfl⟩
  · rw [if_pos h] at hshl hshr
    refine ⟨hshr, hshl, ?_, fun hw => ?_⟩
    · rw [hshl, Option.some.injEq]
      exact ofInt_eq_cast ht lhs _
    · rw [hshl, Option.some.injEq]
      exact (ofInt_eq_cast ht lhs _).2 (wrap_emod_of_le hw _)

/-- -5 is rounded down to -3 when halved, and doubled to -10. -/
theorem shifts_negative :
    shr.eval? (.int (-5)) (.scalar .int8) (.uint 1) (.scalar .uint8) (.scalar .int16) =
      some (.int (-3)) ∧
    shl.eval? (.int (-5)) (.scalar .int8) (.uint 1) (.scalar .uint8) (.scalar .int16) =
      some (.int (-10)) := by
  have hl : Scalar.int8.isInt = true := rfl
  have ht : Scalar.int16.isInt = true := rfl
  obtain ⟨A, n, hA, hn, -, h⟩ := shifts (.int (-5)) (.uint 1) .uint8 hl ht
  obtain rfl : -5 = A := Option.some.inj (Eq.trans (by decide) hA)
  obtain rfl : 1 = n := Option.some.inj (Eq.trans (by decide) hn)
  obtain ⟨hshr, hshl, -, -⟩ := h ⟨by decide, by decide⟩
  exact ⟨hshr.trans (by decide), hshl.trans (by decide +kernel)⟩

/-- Doubling 100 as an `int8` gives 200 if the result is an `int32`, and not -56. -/
theorem shl_keeps_lost_bits :
    (Value.int 100).cast .int8 = .int 100 ∧ ((Value.int 1).cast .int8).cast .int8 = .int 1 ∧
    (ofInt .int8 (100 * 2 ^ 1)).cast .int32 = .int (-56) ∧
    shl.eval? (.int 100) (.scalar .int8) (.int 1) (.scalar .int8) (.scalar .int32) =
      some (.int 200) := by decide

end BinaryOp

end FieldCompute
