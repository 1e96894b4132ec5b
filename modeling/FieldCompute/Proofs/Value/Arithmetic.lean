import FieldCompute.Proofs.Value.Residues
/-!
# Integer arithmetic

An operator works in the 64 bits of a carrier, whatever the result type is. What it gives there is
congruent to what it makes of the numbers themselves (`onNumbers?`, `onNumber?`), and the last cast
keeps that as far as the result type has room for it. So an operator on integers is the operator on
numbers, reduced once to the result type (`BinaryOp.eval?_eq_onNumbers?`), and sums, differences,
products, powers and the bitwise operators do not notice that their operands were reduced before
(`integer_arithmetic`).
-/

namespace FieldCompute

/-! ## Words -/

section Words

variable (x y : UInt64)

theorem toNat_mul_modEq : ((x * y).toNat : Int) ≡ x.toNat * y.toNat [ZMOD 2 ^ 64] := by
  rw [UInt64.toNat_mul]
  push_cast
  exact Int.mod_modEq _ _

/-- Squaring along the bits of `n` from `k` on gives the power for `n` without the bits below. -/
theorem foldr_bits_modEq (n : Nat) {m k : Nat} (h : n < 2 ^ (k + m)) :
    (((List.range' k m).foldr
      (fun i acc => if n.testBit i then acc * acc * x else acc * acc) 1).toNat : Int) ≡
      x.toNat ^ (n >>> k) [ZMOD 2 ^ 64] := by
  -- From the highest bit down: what is there already is the power for the bits above `k`.
  induction m generalizing k with
  | zero =>
    rw [Nat.add_zero] at h
    rw [Nat.shiftRight_eq_zero _ _ h]
    rfl
  | succ m ih =>
    have hacc := ih (k := k + 1) (by rwa [Nat.add_assoc, Nat.add_comm 1])
    rw [List.range'_succ, List.foldr_cons]
    generalize List.foldr _ _ _ = acc at hacc ⊢
    have hsquare := (toNat_mul_modEq acc acc).trans (hacc.mul hacc)
    rw [← pow_add, Nat.shiftRight_succ] at hsquare
    rw [Nat.testBit_eq_decide_div_mod_eq, ← Nat.shiftRight_eq_div_pow]
    generalize n >>> k = e at hsquare ⊢
    rcases Nat.mod_two_eq_zero_or_one e with he | he
    · rw [he, if_neg (by decide)]
      rwa [show e / 2 + e / 2 = e by omega] at hsquare
    · rw [he, if_pos (by decide)]
      have hstep := (toNat_mul_modEq (acc * acc) x).trans (hsquare.mul_right _)
      rwa [← pow_succ, show e / 2 + e / 2 + 1 = e by omega] at hstep

theorem wordPow_modEq {n : Nat} (h : n < 2 ^ 32) :
    ((wordPow x n).toNat : Int) ≡ x.toNat ^ n [ZMOD 2 ^ 64] := by
  rw [wordPow, List.range_eq_range']
  exact foldr_bits_modEq x n h

/-- A signed word and its bits read as a number are congruent. -/
theorem toInt_modEq (x : Int64) : x.toInt ≡ x.toUInt64.toNat [ZMOD 2 ^ 64] := by
  change x.toBitVec.toInt % 2 ^ 64 = _
  rw [BitVec.toInt_eq_toNat_bmod]
  exact Int.bmod_emod

theorem toInt_wordPow_modEq (x : Int64) {n : Nat} (h : n < 2 ^ 32) :
    (wordPow x.toUInt64 n).toInt64.toInt ≡ x.toInt ^ n [ZMOD 2 ^ 64] :=
  (toInt_modEq _).trans ((wordPow_modEq _ h).trans ((toInt_modEq x).symm.pow n))

end Words

/-! ## Operators of one operand -/

namespace UnaryOp

open Value

variable {ret operand : Scalar} {v : Value} {A : Int}

/-- The integer that the operator makes of one, in a type without bounds. The other operators have
none. -/
def onNumber? (op : UnaryOp) (A : Int) : Option Int :=
  match op with
  | neg => some (-A)
  | not => some (-A - 1)
  | abs => some A.natAbs
  | _ => none

theorem onValue?_int (op : UnaryOp) (x : Int64) :
    op.onValue? (.int x) = (op.onNumber? x.toInt).map (ofInt .int64) := by
  have hneg := int_eq_ofInt_of_bmod (Int64.toInt_neg x)
  cases op with
  | neg => exact congrArg some hneg
  | not => exact congrArg some (int_eq_ofInt_of_bmod (Int64.toInt_not x))
  | abs =>
    have hlt : x < 0 ↔ x.toInt < 0 := Int64.lt_iff_toInt_lt
    simp only [onValue?, onNumber?, hlt, Option.map_some]
    split
    · rw [show ((x.toInt.natAbs : Nat) : Int) = -x.toInt by omega, hneg]
    · rw [show ((x.toInt.natAbs : Nat) : Int) = x.toInt by omega, int_eq_ofInt]
  | _ => rfl

theorem onValue?_uint (op : UnaryOp) (x : UInt64) :
    op.onValue? (.uint x) = (op.onNumber? x.toNat).map (ofInt .uint64) := by
  have hx := x.toNat_lt
  cases op with
  | neg =>
    refine congrArg some (uint_eq_ofInt_of_modEq ?_)
    rw [UInt64.toNat_neg, Int.ModEq, show UInt64.size = 2 ^ 64 from rfl]
    omega
  | not =>
    refine congrArg some (uint_eq_ofInt_of_modEq ?_)
    rw [UInt64.toNat_not, Int.ModEq, show UInt64.size = 2 ^ 64 from rfl]
    omega
  | abs => exact congrArg some (uint_eq_ofInt x)
  | _ => rfl

theorem onValue?_ofInt (op : UnaryOp) (s : Scalar) (i : Int) :
    op.onValue? (ofInt s i) = (op.onNumber? (s.wrap i)).map (ofInt (widest s)) := by
  unfold widest Scalar.wrap
  cases hs : s.isSigned with
  | true =>
    obtain ⟨x, hx, hi⟩ := ofInt_of_signed hs i
    rw [hx, onValue?_int, hi]
    rfl
  | false =>
    obtain ⟨x, hx, hi⟩ := ofInt_of_unsigned hs i
    rw [hx, onValue?_uint, hi]
    rfl

theorem eval?_eq_onNumber? (op : UnaryOp) (ht : ret.isInt = true)
    (hA : (v.cast operand).integer? = some A) :
    op.eval? v (.scalar operand) (.scalar ret) =
      (op.onNumber? (ret.wrap A)).map (ofInt ret) := by
  simp only [eval?, castTo?_scalar, Option.bind_eq_bind, Option.bind_some, cast_eq_ofInt ht hA,
    onValue?_ofInt]
  cases op.onNumber? (ret.wrap A) with
  | none => rfl
  | some n =>
    rw [Option.map_some, Option.bind_some, cast_ofInt_widest ht]
    rfl

end UnaryOp

/-! ## Operators of two operands -/

namespace BinaryOp

open Value

variable {op : BinaryOp} {lhs rhs ret : Scalar} {a b : Value} {A B : Int}

/-- The integer that the operator makes of two, in a type without bounds; the bitwise operators see
64 bits of them. There is none for a division by zero, and none for a power unless the exponent is
an unsigned integer of 32 bits. -/
def onNumbers? (op : BinaryOp) (A B : Int) : Option Int :=
  match op with
  | add => some (A + B)
  | sub => some (A - B)
  | mul => some (A * B)
  | mod => if B = 0 then none else some (A.tmod B)
  | idiv => if B = 0 then none else some (A.tdiv B)
  | max => some (Max.max A B)
  | min => some (Min.min A B)
  | pow => if 0 ≤ B ∧ B < 2 ^ 32 then some (A ^ B.toNat) else none
  | and => some (BitVec.ofInt 64 A &&& BitVec.ofInt 64 B).toInt
  | or => some (BitVec.ofInt 64 A ||| BitVec.ofInt 64 B).toInt
  | xor => some (BitVec.ofInt 64 A ^^^ BitVec.ofInt 64 B).toInt
  | _ => none

theorem onInt_eq_onNumbers? (hop : op.isShift = false) (x y : Int64) :
    (op.onInt x y).map Value.int = (op.onNumbers? x.toInt y.toInt).map (ofInt .int64) := by
  have hzero : y = 0 ↔ y.toInt = 0 := Int64.toInt_inj.symm
  have hbits (z : Int64) : BitVec.ofInt 64 z.toInt = z.toBitVec := BitVec.ofInt_toInt
  cases op with
  | add => exact congrArg some (int_eq_ofInt_of_bmod (Int64.toInt_add x y))
  | sub => exact congrArg some (int_eq_ofInt_of_bmod (Int64.toInt_sub x y))
  | mul => exact congrArg some (int_eq_ofInt_of_bmod (Int64.toInt_mul x y))
  | mod =>
    simp only [onInt, onNumbers?, hzero]
    split
    · rfl
    · rw [Option.map_some, int_eq_ofInt, Int64.toInt_mod]
      rfl
  | idiv =>
    simp only [onInt, onNumbers?, hzero]
    split
    · rfl
    · exact congrArg some (int_eq_ofInt_of_bmod (Int64.toInt_div x y))
  | max =>
    simp only [onInt, onNumbers?, Int64.lt_iff_toInt_lt, Option.map_some, int_eq_ofInt]
    split
    · rw [Int.max_eq_right (by omega)]
    · rw [Int.max_eq_left (by omega)]
  | min =>
    simp only [onInt, onNumbers?, Int64.lt_iff_toInt_lt, Option.map_some, int_eq_ofInt]
    split
    · rw [Int.min_eq_right (by omega)]
    · rw [Int.min_eq_left (by omega)]
  | pow =>
    simp only [onInt, onNumbers?]
    split
    next h => exact congrArg some (int_eq_ofInt_of_modEq (toInt_wordPow_modEq x (by omega)))
    next => rfl
  | and =>
    simp only [onInt, onNumbers?, hbits, ← Int64.toBitVec_and, Option.map_some]
    exact congrArg some (int_eq_ofInt _)
  | or =>
    simp only [onInt, onNumbers?, hbits, ← Int64.toBitVec_or, Option.map_some]
    exact congrArg some (int_eq_ofInt _)
  | xor =>
    simp only [onInt, onNumbers?, hbits, ← Int64.toBitVec_xor, Option.map_some]
    exact congrArg some (int_eq_ofInt _)
  | shl => cases hop
  | shr => cases hop
  | _ => rfl

theorem onUInt_eq_onNumbers? (hop : op.isShift = false) (x y : UInt64) :
    (op.onUInt x y).map Value.uint = (op.onNumbers? x.toNat y.toNat).map (ofInt .uint64) := by
  have hzero : y = 0 ↔ (y.toNat : Int) = 0 := by
    rw [← UInt64.toNat_inj]
    exact Int.natCast_eq_zero.symm
  have hbits (z : UInt64) : BitVec.ofInt 64 z.toNat = z.toBitVec := by
    rw [BitVec.ofInt_natCast, ← UInt64.toNat_toBitVec, BitVec.ofNat_toNat, BitVec.setWidth_eq]
  have hword (z : UInt64) : Value.uint z = ofInt .uint64 z.toBitVec.toInt := by
    refine uint_eq_ofInt_of_modEq ?_
    rw [BitVec.toInt_eq_toNat_bmod]
    exact Int.bmod_emod.symm
  cases op with
  | add =>
    refine congrArg some (uint_eq_ofInt_of_modEq ?_)
    rw [UInt64.toNat_add]
    push_cast
    exact Int.mod_modEq _ _
  | sub =>
    refine congrArg some (uint_eq_ofInt_of_modEq ?_)
    have hy := y.toNat_lt
    rw [UInt64.toNat_sub, Int.ModEq]
    omega
  | mul => exact congrArg some (uint_eq_ofInt_of_modEq (toNat_mul_modEq x y))
  | mod =>
    simp only [onUInt, onNumbers?, hzero]
    split
    · rfl
    · rw [Option.map_some, uint_eq_ofInt, UInt64.toNat_mod]
      rfl
  | idiv =>
    simp only [onUInt, onNumbers?, hzero]
    split
    · rfl
    · rw [Option.map_some, uint_eq_ofInt, UInt64.toNat_div]
      rfl
  | max =>
    simp only [onUInt, onNumbers?, UInt64.lt_iff_toNat_lt, Option.map_some, uint_eq_ofInt]
    split
    · rw [Int.max_eq_right (by omega)]
    · rw [Int.max_eq_left (by omega)]
  | min =>
    simp only [onUInt, onNumbers?, UInt64.lt_iff_toNat_lt, Option.map_some, uint_eq_ofInt]
    split
    · rw [Int.min_eq_right (by omega)]
    · rw [Int.min_eq_left (by omega)]
  | pow =>
    have hreach : y.toNat < 2 ^ 32 ↔ 0 ≤ (y.toNat : Int) ∧ (y.toNat : Int) < 2 ^ 32 := by omega
    simp only [onUInt, onNumbers?, hreach]
    split
    next h => exact congrArg some (uint_eq_ofInt_of_modEq (wordPow_modEq x (by omega)))
    next => rfl
  | and =>
    simp only [onUInt, onNumbers?, hbits, ← UInt64.toBitVec_and, Option.map_some]
    exact congrArg some (hword _)
  | or =>
    simp only [onUInt, onNumbers?, hbits, ← UInt64.toBitVec_or, Option.map_some]
    exact congrArg some (hword _)
  | xor =>
    simp only [onUInt, onNumbers?, hbits, ← UInt64.toBitVec_xor, Option.map_some]
    exact congrArg some (hword _)
  | shl => cases hop
  | shr => cases hop
  | _ => rfl

/-- On integers of one type an operator works in the carrier of the type. -/
theorem onValues?_eq_onNumbers? (hcmp : op.isComparison = false) (hop : op.isShift = false)
    (s : Scalar) (i j : Int) :
    op.onValues? (ofInt s i) (ofInt s j) =
      (op.onNumbers? (s.wrap i) (s.wrap j)).map (ofInt (widest s)) := by
  unfold widest Scalar.wrap onValues?
  rw [if_neg (by simp [hcmp])]
  cases hs : s.isSigned with
  | true =>
    obtain ⟨x, hx, hi⟩ := ofInt_of_signed hs i
    obtain ⟨y, hy, hj⟩ := ofInt_of_signed hs j
    rw [hx, hy]
    exact (onInt_eq_onNumbers? hop x y).trans (by rw [hi, hj]; rfl)
  | false =>
    obtain ⟨x, hx, hi⟩ := ofInt_of_unsigned hs i
    obtain ⟨y, hy, hj⟩ := ofInt_of_unsigned hs j
    rw [hx, hy]
    exact (onUInt_eq_onNumbers? hop x y).trans (by rw [hi, hj]; rfl)

/-- An operator that works in the result type reduces the operands to it, and then what it makes of
them. -/
theorem eval?_eq_onNumbers? (hcmp : op.isComparison = false) (hop : op.isShift = false)
    (ht : ret.isInt = true) (hA : (a.cast lhs).integer? = some A)
    (hB : (b.cast rhs).integer? = some B) :
    op.eval? a (.scalar lhs) b (.scalar rhs) (.scalar ret) =
      (op.onNumbers? (ret.wrap A) (ret.wrap B)).map (ofInt ret) := by
  have hwork : op.workType? (.scalar lhs) (.scalar rhs) (.scalar ret) = some (.scalar ret) := by
    simp [workType?, hcmp, hop]
  simp only [eval?, hwork, castTo?_scalar, Option.bind_eq_bind, Option.bind_some,
    cast_eq_ofInt ht hA, cast_eq_ofInt ht hB, onValues?_eq_onNumbers? hcmp hop]
  cases op.onNumbers? (ret.wrap A) (ret.wrap B) with
  | none => rfl
  | some n =>
    rw [Option.map_some, Option.bind_some, cast_ofInt_widest ht]
    rfl

end BinaryOp

/-! ## Arithmetic modulo the width -/

open Value

variable {lhs rhs ret : Scalar} {a b : Value} {A B A' B' : Int}

/-- The operands, read as their types, are the integers `A` and `B`, and in the result type they are
`A'` and `B'`. -/
structure IntegerOperands (a : Value) (lhs : Scalar) (b : Value) (rhs ret : Scalar)
    (A B A' B' : Int) : Prop where
  left : (a.cast lhs).integer? = some A
  right : (b.cast rhs).integer? = some B
  leftReduced : ((a.cast lhs).cast ret).integer? = some A'
  rightReduced : ((b.cast rhs).cast ret).integer? = some B'

/-- What the operators answer on the integers `A` and `B` if the result type reduces them to `A'` and
`B'`. -/
structure ModularArithmetic (ret : Scalar) (answer : BinaryOp → Option Value)
    (A B A' B' : Int) : Prop where
  add : GivesResidue (answer .add) ret (A + B)
  sub : GivesResidue (answer .sub) ret (A - B)
  mul : GivesResidue (answer .mul) ret (A * B)
  and : ∃ n, Gives (answer .and) ret n ∧
    BitVec.ofInt ret.width n = BitVec.ofInt ret.width A &&& BitVec.ofInt ret.width B
  or : ∃ n, Gives (answer .or) ret n ∧
    BitVec.ofInt ret.width n = BitVec.ofInt ret.width A ||| BitVec.ofInt ret.width B
  xor : ∃ n, Gives (answer .xor) ret n ∧
    BitVec.ofInt ret.width n = BitVec.ofInt ret.width A ^^^ BitVec.ofInt ret.width B
  max : Gives (answer .max) ret (Max.max A' B')
  min : Gives (answer .min) ret (Min.min A' B')
  pow : 0 ≤ B' → B' < 2 ^ 32 → GivesResidue (answer .pow) ret (A ^ B'.toNat)
  noPow : ¬(0 ≤ B' ∧ B' < 2 ^ 32) → answer .pow = none

theorem IntegerOperands.reduced (ht : ret.isInt = true)
    (h : IntegerOperands a lhs b rhs ret A B A' B') : A' = ret.wrap A ∧ B' = ret.wrap B := by
  have hA' := integer?_of_number? (number?_cast ht h.left)
  have hB' := integer?_of_number? (number?_cast ht h.right)
  exact ⟨Option.some.inj (h.leftReduced.symm.trans hA'),
    Option.some.inj (h.rightReduced.symm.trans hB')⟩

theorem exists_integerOperands (hl : lhs.isFloat = false) (hr : rhs.isFloat = false)
    (ht : ret.isInt = true) (a b : Value) :
    ∃ A B A' B', IntegerOperands a lhs b rhs ret A B A' B' := by
  obtain ⟨A, hA⟩ := exists_integer?_cast hl a
  obtain ⟨B, hB⟩ := exists_integer?_cast hr b
  exact ⟨A, B, _, _, hA, hB, integer?_of_number? (number?_cast ht hA),
    integer?_of_number? (number?_cast ht hB)⟩

/-- An operator that works bit by bit does not notice that its operands are reduced before. -/
theorem gives_bits (ht : ret.isInt = true) (f : (w : Nat) → BitVec w → BitVec w → BitVec w)
    (hf : ∀ w x y, (f 64 x y).setWidth w = f w (x.setWidth w) (y.setWidth w)) (A B : Int) :
    ∃ n, Gives (some (ofInt ret
        (f 64 (BitVec.ofInt 64 (ret.wrap A)) (BitVec.ofInt 64 (ret.wrap B))).toInt)) ret n ∧
      BitVec.ofInt ret.width n =
        f ret.width (BitVec.ofInt ret.width A) (BitVec.ofInt ret.width B) := by
  have hw : ret.width ≤ 64 := by cases ret <;> decide
  refine ⟨_, gives_ofInt ht _, ?_⟩
  rw [bits_congr (ret.wrap_modEq _), bits_toInt hw, hf, setWidth_ofInt hw, setWidth_ofInt hw,
    bits_congr (ret.wrap_modEq A), bits_congr (ret.wrap_modEq B)]

theorem modularArithmetic (ht : ret.isInt = true)
    (h : IntegerOperands a lhs b rhs ret A B A' B') :
    ModularArithmetic ret (fun op => op.eval? a (.scalar lhs) b (.scalar rhs) (.scalar ret))
      A B A' B' := by
  obtain ⟨rfl, rfl⟩ := h.reduced ht
  have heval {op : BinaryOp} (hcmp : op.isComparison = false) (hop : op.isShift = false) :=
    BinaryOp.eval?_eq_onNumbers? hcmp hop ht h.left h.right
  have hA := ret.wrap_modEq A
  have hB := ret.wrap_modEq B
  constructor
  case add =>
    rw [heval rfl rfl]
    exact givesResidue_ofInt ht (hA.add hB)
  case sub =>
    rw [heval rfl rfl]
    exact givesResidue_ofInt ht (hA.sub hB)
  case mul =>
    rw [heval rfl rfl]
    exact givesResidue_ofInt ht (hA.mul hB)
  case and =>
    rw [heval rfl rfl]
    exact gives_bits ht (fun _ x y => x &&& y) (fun _ _ _ => BitVec.setWidth_and) A B
  case or =>
    rw [heval rfl rfl]
    exact gives_bits ht (fun _ x y => x ||| y) (fun _ _ _ => BitVec.setWidth_or) A B
  case xor =>
    rw [heval rfl rfl]
    exact gives_bits ht (fun _ x y => x ^^^ y) (fun _ _ _ => BitVec.setWidth_xor) A B
  case max =>
    rw [heval rfl rfl]
    exact gives_ofInt_self ht ((Scalar.inRange_wrap ret A).max (Scalar.inRange_wrap ret B))
  case min =>
    rw [heval rfl rfl]
    exact gives_ofInt_self ht ((Scalar.inRange_wrap ret A).min (Scalar.inRange_wrap ret B))
  case pow =>
    intro h0 h32
    rw [heval rfl rfl, BinaryOp.onNumbers?, if_pos ⟨h0, h32⟩]
    exact givesResidue_ofInt ht (hA.pow _)
  case noPow =>
    intro hreach
    rw [heval rfl rfl, BinaryOp.onNumbers?, if_neg hreach]
    rfl

/-- Integer arithmetic is exact modulo the width of the result. Operands of integer types or `bool`
are integers `A` and `B`; brought to an integer type of `w` bits, they are `A'` and `B'`. Sums,
differences, products, negations and complements are defined and congruent modulo `2 ^ w` to those
of `A` and `B`, the bitwise operators work on the `w` bits of `A` and `B`, and the greater and the
lesser of the two are those of `A'` and `B'`. A power is defined if and only if `B'` is at least 0
and less than `2 ^ 32`, and is then congruent to the power of `A`. -/
theorem integer_arithmetic (hl : lhs.isFloat = false) (hr : rhs.isFloat = false)
    (ht : ret.isInt = true) (a b : Value) :
    ∃ A B A' B', IntegerOperands a lhs b rhs ret A B A' B' ∧
      ModularArithmetic ret (fun op => op.eval? a (.scalar lhs) b (.scalar rhs) (.scalar ret))
        A B A' B' ∧
      GivesResidue (UnaryOp.neg.eval? a (.scalar lhs) (.scalar ret)) ret (-A) ∧
      GivesResidue (UnaryOp.not.eval? a (.scalar lhs) (.scalar ret)) ret (-A - 1) := by
  obtain ⟨A, B, A', B', h⟩ := exists_integerOperands hl hr ht a b
  have hA := ret.wrap_modEq A
  refine ⟨A, B, A', B', h, modularArithmetic ht h, ?_, ?_⟩
  · rw [UnaryOp.eval?_eq_onNumber? .neg ht h.left]
    exact givesResidue_ofInt ht hA.neg
  · rw [UnaryOp.eval?_eq_onNumber? .not ht h.left]
    exact givesResidue_ofInt ht (hA.neg.sub_right 1)

/-- The `int8` -3 times the `uint8` 200, which -56 is read as, is -600 in 16 bits, and its power with
the exponent 200 is reduced to them. -/
theorem integer_arithmetic_mixed :
    Scalar.int8.isFloat = false ∧ Scalar.uint8.isFloat = false ∧ Scalar.uint16.isInt = true ∧
    GivesResidue (BinaryOp.mul.eval? (.int (-3)) (.scalar .int8) (.int (-56)) (.scalar .uint8)
      (.scalar .uint16)) .uint16 (-600) ∧
    GivesResidue (BinaryOp.pow.eval? (.int (-3)) (.scalar .int8) (.int (-56)) (.scalar .uint8)
      (.scalar .uint16)) .uint16 ((-3) ^ 200) := by
  have hl : Scalar.int8.isFloat = false := rfl
  have hr : Scalar.uint8.isFloat = false := rfl
  have ht : Scalar.uint16.isInt = true := rfl
  obtain ⟨A, B, A', B', h, hmodular, -⟩ := integer_arithmetic hl hr ht (.int (-3)) (.int (-56))
  obtain rfl : -3 = A := Option.some.inj (Eq.trans (by decide) h.left)
  obtain rfl : 200 = B := Option.some.inj (Eq.trans (by decide) h.right)
  obtain rfl : 200 = B' := Option.some.inj (Eq.trans (by decide) h.rightReduced)
  exact ⟨hl, hr, ht, hmodular.mul, hmodular.pow (by decide) (by decide)⟩

end FieldCompute
