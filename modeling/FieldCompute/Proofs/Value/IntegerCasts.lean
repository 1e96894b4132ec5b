import FieldCompute.Proofs.Value.Residues
/-!
# Casts between integer types

A cast to an integer type gives the one integer of the type that is congruent to the value
(`eq_cast_iff`). It is the integer of the low bits of the value's word, extended by their sign
toward a signed type and by zeros toward an unsigned one (`cast_int_eq_extended`,
`cast_uint_eq_extended`).

So a cast on the way to another type is lost if it keeps the residue that the other type counts, as
it does if its type is as wide or wider (`cast_cast_of_le`). Between two types of one width no cast
loses anything, and a value comes back as it was (`cast_back`).
-/

namespace FieldCompute.Value

variable {s t : Scalar} {v u : Value} {i n : Int}

/-- The value is the integer `n` of type `s`: it stands in the carrier of the type, and the type has
the number. -/
def IsInteger (s : Scalar) (v : Value) (n : Int) : Prop :=
  v.dtype = .scalar (widest s) ∧ v.number? = some n ∧ s.InRange n

instance (s : Scalar) (v : Value) (n : Int) : Decidable (IsInteger s v n) :=
  inferInstanceAs (Decidable (_ ∧ _))

/-! ## The integers of a type -/

theorem dtype_ofInt (s : Scalar) (i : Int) : (ofInt s i).dtype = .scalar (widest s) := by
  unfold ofInt widest
  split <;> rfl

theorem eq_ofInt_widest (hu : u.dtype = .scalar (widest s)) (hn : u.number? = some n) :
    u = ofInt (widest s) n := by
  cases u with
  | int x =>
    cases hn
    cases hs : s.isSigned with
    | true => rw [widest, if_pos hs, ← int_eq_ofInt]
    | false => simp [dtype, widest, hs] at hu
  | uint x =>
    cases hn
    cases hs : s.isSigned with
    | true => simp [dtype, widest, hs] at hu
    | false => rw [widest, if_neg (by simp [hs]), ← uint_eq_ofInt]
  | float x => cases hn
  | bool b => cases hn

theorem isInteger_ofInt (s : Scalar) (i : Int) : IsInteger s (ofInt s i) (s.wrap i) :=
  ⟨dtype_ofInt s i, number?_ofInt s i, Scalar.inRange_wrap s i⟩

theorem IsInteger.eq_ofInt (h : IsInteger s u n) : u = ofInt s n := by
  obtain ⟨hu, hn, hrange⟩ := h
  have hofInt : (ofInt s n).number? = some n := by
    rw [number?_ofInt, Scalar.wrap_eq_self_iff.2 hrange]
  -- Both stand in the same carrier, and a carrier has a number once.
  rw [eq_ofInt_widest hu hn, ← eq_ofInt_widest (dtype_ofInt s n) hofInt]

/-! ## One cast -/

/-- The cast is the only integer of the type that is congruent to the value. -/
theorem eq_cast_iff (hs : s.isInt = true) (hv : v.integer? = some i) :
    u = v.cast s ↔ ∃ n, IsInteger s u n ∧ n ≡ i [ZMOD 2 ^ s.width] := by
  rw [cast_eq_ofInt hs hv]
  constructor
  · rintro rfl
    exact ⟨s.wrap i, isInteger_ofInt s i, Scalar.wrap_modEq s i⟩
  · rintro ⟨n, hn, hmod⟩
    rw [hn.eq_ofInt]
    exact ofInt_congr hmod

/-- The bits as a value of the type: extended to the word of the carrier by their sign if the type
is signed, by zeros if not. -/
def extended (s : Scalar) (bits : BitVec s.width) : Value :=
  if s.isSigned then int (.ofBitVec (bits.signExtend 64)) else uint (.ofBitVec (bits.setWidth 64))

theorem width_le (s : Scalar) : s.width ≤ 64 := by cases s <;> decide

theorem ofInt_eq_extended (s : Scalar) (i : Int) :
    ofInt s i = extended s (BitVec.ofInt s.width i) := by
  unfold extended
  cases hsigned : s.isSigned with
  | true =>
    obtain ⟨x, hx, hi⟩ := ofInt_of_signed hsigned i
    rw [hx, if_pos rfl]
    congr 1
    apply Int64.toInt_inj.1
    rw [hi, Int64.toInt_ofBitVec, BitVec.toInt_signExtend_of_le (width_le s), BitVec.toInt_ofInt]
  | false =>
    obtain ⟨x, hx, hi⟩ := ofInt_of_unsigned hsigned i
    rw [hx, if_neg (by decide)]
    congr 1
    apply UInt64.toNat_inj.1
    have hpos := two_pow_width_pos s
    change x.toNat = (BitVec.setWidth 64 (BitVec.ofInt s.width i)).toNat
    rw [BitVec.toNat_setWidth_of_le (width_le s), BitVec.toNat_ofInt]
    push_cast
    omega

/-- A cast cuts off the high bits of the word and extends what is left. -/
theorem cast_int_eq_extended (hs : s.isInt = true) (x : Int64) :
    (int x).cast s = extended s (x.toBitVec.setWidth s.width) := by
  rw [cast_eq_ofInt hs rfl, ofInt_eq_extended]
  exact congrArg (extended s) (bits_toInt (width_le s) x.toBitVec)

theorem cast_uint_eq_extended (hs : s.isInt = true) (x : UInt64) :
    (uint x).cast s = extended s (x.toBitVec.setWidth s.width) := by
  rw [cast_eq_ofInt hs rfl, ofInt_eq_extended, BitVec.ofInt_natCast]
  exact congrArg (extended s) (BitVec.ofNat_toNat s.width x.toBitVec)

/-! ## One cast after another -/

/-- The first cast does not count exactly if it keeps the residue that the second type counts. -/
theorem cast_cast_eq_cast_iff (hs : s.isInt = true) (ht : t.isInt = true)
    (hv : v.integer? = some i) :
    (v.cast s).cast t = v.cast t ↔ s.wrap i ≡ i [ZMOD 2 ^ t.width] := by
  rw [cast_eq_ofInt hs hv, cast_eq_ofInt ht hv, eq_comm]
  exact ofInt_eq_cast ht s i

theorem cast_cast_of_le (hs : s.isInt = true) (ht : t.isInt = true) (hv : v.integer? = some i)
    (h : t.bytes ≤ s.bytes) : (v.cast s).cast t = v.cast t :=
  (cast_cast_eq_cast_iff hs ht hv).2 (wrap_emod_of_le (Nat.mul_le_mul_left 8 h) i)

/-- A value of one of two types of the same width comes back from the other. -/
theorem cast_back (hs : s.isInt = true) (ht : t.isInt = true) (hbytes : s.bytes = t.bytes)
    (hv : IsInteger s v n) : (v.cast t).cast s = v := by
  rw [cast_cast_of_le ht hs (integer?_of_number? hv.2.1) hbytes.le]
  exact ((eq_cast_iff hs (integer?_of_number? hv.2.1)).2 ⟨n, hv, .rfl⟩).symm

/-- Casts of truth values and integers to integer types. Each gives the one integer of its type that
is congruent to the value modulo two to the power of the width. So casting by way of a type with as
many bytes or more makes no difference, a value of a type comes back from the other type of its
width, and a second cast to the same type does nothing. -/
theorem integer_casts (hv : v.integer? = some i) :
    (∀ s : Scalar, s.isInt = true →
      ∃ u, v.castTo? (.scalar s) = some u ∧
        ∀ w, w = u ↔ ∃ n, IsInteger s w n ∧ n ≡ i [ZMOD 2 ^ s.width]) ∧
    (∀ s t : Scalar, s.isInt = true → t.isInt = true → t.bytes ≤ s.bytes →
      (v.castTo? (.scalar s)).bind (·.castTo? (.scalar t)) = v.castTo? (.scalar t)) ∧
    (∀ s t : Scalar, s.isInt = true → t.isInt = true → s.bytes = t.bytes →
      (∃ n, IsInteger s v n) →
        (v.castTo? (.scalar t)).bind (·.castTo? (.scalar s)) = some v) ∧
    (∀ s : Scalar, s.isInt = true →
      (v.castTo? (.scalar s)).bind (·.castTo? (.scalar s)) = v.castTo? (.scalar s)) := by
  simp only [castTo?_scalar, Option.bind_some, Option.some.injEq]
  refine ⟨?residue, ?composed, ?back, ?twice⟩
  case residue =>
    intro s hs
    exact ⟨v.cast s, rfl, fun w => eq_cast_iff hs hv⟩
  case composed =>
    intro s t hs ht hbytes
    exact cast_cast_of_le hs ht hv hbytes
  case back =>
    rintro s t hs ht hbytes ⟨n, hn⟩
    exact cast_back hs ht hbytes hn
  case twice =>
    intro s hs
    exact cast_cast v s

/-- The number -200 is 4294967096 as an unsigned number of 32 bits, and 56 in 8 bits by whatever
way; from the unsigned numbers of 64 bits it comes back. -/
theorem integer_casts_negative :
    (int (-200)).castTo? (.scalar .uint32) = some (uint 4294967096) ∧
    ((int (-200)).castTo? (.scalar .uint32)).bind (·.castTo? (.scalar .int8)) = some (int 56) ∧
    ((int (-200)).castTo? (.scalar .uint64)).bind (·.castTo? (.scalar .int64)) =
      some (int (-200)) ∧
    ((int (-200)).castTo? (.scalar .int8)).bind (·.castTo? (.scalar .int8)) = some (int 56) := by
  obtain ⟨hresidue, hcomposed, hback, htwice⟩ :=
    integer_casts (show (int (-200)).integer? = some (-200) by decide)
  obtain ⟨u, hu, huniq⟩ := hresidue .uint32 rfl
  obtain ⟨w, hw, hwuniq⟩ := hresidue .int8 rfl
  have hlarge : uint 4294967096 = u := (huniq _).2 ⟨4294967096, by decide, by decide⟩
  have hsmall : int 56 = w := (hwuniq _).2 ⟨56, by decide, by decide⟩
  refine ⟨hu.trans (congrArg some hlarge.symm), ?_, ?_, ?_⟩
  · exact (hcomposed .uint32 .int8 rfl rfl (by decide)).trans (hw.trans (congrArg some hsmall.symm))
  · exact hback .int64 .uint64 rfl rfl rfl ⟨-200, by decide⟩
  · exact (htwice .int8 rfl).trans (hw.trans (congrArg some hsmall.symm))

end FieldCompute.Value
