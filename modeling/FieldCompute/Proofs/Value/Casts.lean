import FieldCompute.Proofs.Number.Rounding
import FieldCompute.Value.Bytes
/-!
# Casts, words and bytes

A value that has been cast to a type is not changed by a second cast (`cast_cast`), and the word and
the bytes that stand for it give it back (`ofWord_word`, `ofBytes_toBytes`).
-/

namespace FieldCompute.Value

/-- The number that an integer is. -/
def number? : Value → Option Int
  | int i => some i.toInt
  | uint u => some u.toNat
  | _ => none

variable {s t : Scalar}

theorem two_pow_width_pos (s : Scalar) : (0 : Int) < 2 ^ s.width := Int.pow_pos (by decide)

theorem two_pow_width_le (s : Scalar) : (2 : Int) ^ s.width ≤ 2 ^ 64 := by cases s <;> decide

/-! ## Integers -/

/-- An integer value depends on the residue alone. -/
theorem ofInt_congr {i j : Int} (h : i % 2 ^ s.width = j % 2 ^ s.width) :
    ofInt s i = ofInt s j := by
  simp [ofInt, Scalar.wrap, Int.bmod, h]

theorem ofInt_of_signed (hs : s.isSigned = true) (i : Int) :
    ∃ n : Int64, ofInt s i = .int n ∧ n.toInt = i.bmod (2 ^ s.width) := by
  refine ⟨Int64.ofInt (i.bmod (2 ^ s.width)), by simp [ofInt, Scalar.wrap, hs], ?_⟩
  rw [Int64.toInt_ofInt, show Int64.size = 2 ^ 64 from rfl]
  cases s <;> first | (cases hs; done) | (simp only [Scalar.width, Scalar.bytes, Int.bmod]; omega)

theorem ofInt_of_unsigned (hs : s.isSigned = false) (i : Int) :
    ∃ n : UInt64, ofInt s i = .uint n ∧ (n.toNat : Int) = i % 2 ^ s.width := by
  refine ⟨UInt64.ofNat (i % 2 ^ s.width).toNat, by simp [ofInt, Scalar.wrap, hs], ?_⟩
  have hp := two_pow_width_pos s
  have h0 := Int.emod_nonneg i (Int.ne_of_gt hp)
  have h1 := Int.emod_lt_of_pos i hp
  have h2 : (2 ^ s.width : Int) ≤ 2 ^ 64 := two_pow_width_le s
  rw [UInt64.toNat_ofNat', Nat.mod_eq_of_lt (by omega)]
  omega

theorem ofWhole_of_isInt (hs : s.isInt = true) (i : Int) : ofWhole s i = ofInt s i := by
  cases s <;> first | rfl | cases hs

theorem number?_ofInt (s : Scalar) (i : Int) : (ofInt s i).number? = some (s.wrap i) := by
  unfold Scalar.wrap
  cases hs : s.isSigned with
  | true =>
    obtain ⟨n, hn, hi⟩ := ofInt_of_signed hs i
    rw [hn, number?, hi]
    rfl
  | false =>
    obtain ⟨n, hn, hi⟩ := ofInt_of_unsigned hs i
    rw [hn, number?, hi]
    rfl

theorem wrap_emod (s : Scalar) (i : Int) : s.wrap i % 2 ^ s.width = i % 2 ^ s.width := by
  unfold Scalar.wrap
  split
  · exact_mod_cast Int.bmod_emod
  · exact Int.emod_emod_of_dvd _ (Int.dvd_refl _)

theorem cast_ofInt (ht : t.isInt = true) (s : Scalar) (i : Int) :
    (ofInt s i).cast t = ofInt t (s.wrap i) := by
  have hnumber := number?_ofInt s i
  cases hv : ofInt s i with
  | int n =>
    rw [hv] at hnumber
    rw [← Option.some.inj hnumber]
    exact ofWhole_of_isInt ht _
  | uint n =>
    rw [hv] at hnumber
    rw [← Option.some.inj hnumber]
    exact ofWhole_of_isInt ht _
  | _ =>
    rw [hv] at hnumber
    cases hnumber

theorem cast_ofInt_self (hs : s.isInt = true) (i : Int) : (ofInt s i).cast s = ofInt s i := by
  rw [cast_ofInt hs, ofInt_congr (wrap_emod s i)]

theorem ofWord_of_isInt (hs : s.isInt = true) (w : UInt64) : ofWord s w = ofInt s w.toNat := by
  cases s <;> first | rfl | cases hs

theorem exists_cast_eq_ofInt (hs : s.isInt = true) (v : Value) : ∃ i, v.cast s = ofInt s i := by
  cases v with
  | bool b => exact ⟨_, ofWhole_of_isInt hs _⟩
  | int i => exact ⟨_, ofWhole_of_isInt hs _⟩
  | uint u => exact ⟨_, ofWhole_of_isInt hs _⟩
  | float x =>
    refine ⟨(if s.isSigned then s else .int64).clamp x.toInt, ?_⟩
    cases s <;> first | rfl | cases hs

/-- The word of an integer has the residue of the integer and fits its type. -/
theorem word_ofInt (s : Scalar) (i : Int) :
    (((ofInt s i).word s).toNat : Int) = i % 2 ^ s.width := by
  cases hsg : s.isSigned with
  | true =>
    obtain ⟨n, hn, hi⟩ := ofInt_of_signed hsg i
    have hp := two_pow_width_pos s
    have h0 := Int.emod_nonneg i (Int.ne_of_gt hp)
    have h1 := Int.emod_lt_of_pos i hp
    have h2 : (2 ^ s.width : Int) ≤ 2 ^ 64 := two_pow_width_le s
    have h3 : n.toInt % 2 ^ s.width = i % 2 ^ s.width := by
      rw [hi]; exact_mod_cast Int.bmod_emod
    rw [hn, word, h3, UInt64.toNat_ofNat', Nat.mod_eq_of_lt (by omega)]
    omega
  | false =>
    obtain ⟨n, hn, hi⟩ := ofInt_of_unsigned hsg i
    rw [hn]
    exact hi

/-! ## The other types -/

theorem cast_bool (v : Value) : ∃ b, v.cast .bool = .bool b := by
  cases v <;> exact ⟨_, rfl⟩

theorem cast_float64 (v : Value) : ∃ x, v.cast .float64 = .float x := by
  cases v <;> exact ⟨_, rfl⟩

theorem cast_float32 (v : Value) : ∃ x, v.cast .float32 = .float x ∧ x.toSingle = x := by
  cases v with
  | float x => exact ⟨_, rfl, x.toSingle_toSingle⟩
  | _ => exact ⟨_, rfl, Binary64.toSingle_ofIntSingle _⟩

/-- The four kinds of types. -/
theorem scalar_cases (s : Scalar) : s.isInt = true ∨ s = .bool ∨ s = .float32 ∨ s = .float64 := by
  cases s <;> simp [Scalar.isInt, Scalar.isSigned, Scalar.isUnsigned]

/-! ## What every type has in common -/

@[simp] theorem cast_cast (v : Value) (s : Scalar) : (v.cast s).cast s = v.cast s := by
  rcases scalar_cases s with hs | rfl | rfl | rfl
  · obtain ⟨i, hi⟩ := exists_cast_eq_ofInt hs v
    rw [hi, cast_ofInt_self hs]
  · obtain ⟨b, hb⟩ := cast_bool v
    rw [hb]
    cases b <;> rfl
  · obtain ⟨x, hx, h⟩ := cast_float32 v
    rw [hx]
    simp [cast, ofBinary, h]
  · obtain ⟨x, hx⟩ := cast_float64 v
    rw [hx]
    rfl

/-- The word of a value of type `s` stands for that value. -/
theorem ofWord_word (v : Value) (s : Scalar) : ofWord s ((v.cast s).word s) = v.cast s := by
  rcases scalar_cases s with hs | rfl | rfl | rfl
  · obtain ⟨i, hi⟩ := exists_cast_eq_ofInt hs v
    rw [ofWord_of_isInt hs, hi]
    exact ofInt_congr (by rw [word_ofInt, Int.emod_emod])
  · obtain ⟨b, hb⟩ := cast_bool v
    rw [hb]
    cases b <;> rfl
  · obtain ⟨x, hx, h⟩ := cast_float32 v
    have hn := x.narrow_lt
    rw [hx]
    simp only [word, ofWord, if_true, UInt64.toNat_ofNat']
    rw [Nat.mod_eq_of_lt (by omega : x.narrow < 2 ^ 64), Nat.mod_eq_of_lt hn]
    exact congrArg _ h
  · obtain ⟨x, hx⟩ := cast_float64 v
    rw [hx]
    rfl

/-- The word of a value of type `s` fits the bytes of the type. -/
theorem word_lt (v : Value) (s : Scalar) : ((v.cast s).word s).toNat < 256 ^ s.bytes := by
  have hw : (256 : Nat) ^ s.bytes = 2 ^ s.width := by
    rw [Scalar.width, Nat.pow_mul]
  rw [hw]
  rcases scalar_cases s with hs | rfl | rfl | rfl
  · obtain ⟨i, hi⟩ := exists_cast_eq_ofInt hs v
    have := Int.emod_lt_of_pos i (two_pow_width_pos s)
    rw [← word_ofInt, ← hi] at this
    exact_mod_cast this
  · obtain ⟨b, hb⟩ := cast_bool v
    rw [hb]
    cases b <;> decide
  · obtain ⟨x, hx, -⟩ := cast_float32 v
    have hn := x.narrow_lt
    rw [hx]
    simp only [word, if_true, UInt64.toNat_ofNat']
    rw [Nat.mod_eq_of_lt (by omega : x.narrow < 2 ^ 64)]
    exact hn
  · obtain ⟨x, hx⟩ := cast_float64 v
    rw [hx]
    exact x.bits.toNat_lt

theorem ofBytes_toBytes (v : Value) (s : Scalar) : ofBytes s (v.toBytes s) = v.cast s := by
  rw [ofBytes, toBytes, ofLowBytes_lowBytes, Nat.mod_eq_of_lt (word_lt v s), UInt64.ofNat_toNat,
    ofWord_word]

/-! ## Types that may be void -/

@[simp] theorem castTo?_scalar (v : Value) (s : Scalar) : v.castTo? (.scalar s) = some (v.cast s) :=
  rfl

/-- Encoding a value and decoding the word is a cast. -/
theorem decode?_of_encode? {v : Value} {d : DType} {w : UInt64} (h : v.encode? d = some w) :
    decode? w d = v.castTo? d := by
  cases d with
  | void => cases h
  | scalar s =>
    simp only [encode?, DType.scalar?, Option.map_some, Option.some.injEq] at h
    simp [decode?, castTo?, DType.scalar?, ← h, ofWord_word]

end FieldCompute.Value
