import FieldCompute.Proofs.Value.Ranges
import FieldCompute.Proofs.Value.Types
import FieldCompute.ResultSlots
/-!
# Values and words

A word that a value was encoded as gives back the value as a cast leaves it, and a word that was
decoded is encoded again as its low bytes (`word_ofWord_of_isInt`, `word_ofWord_bool`,
`word_ofWord_of_format`), but for a NaN, of which only the kind is kept. The high bytes of a word
never count (`ofWord_congr`), and the host reads a slot as decoding does (`read_host`).
-/

namespace FieldCompute

/-! ## Formats of floats -/

namespace BinaryFormat

/-- The word is not a number: its exponent bits are all set and its fraction is not zero. Bits above
those of the format do not count. -/
def IsNaN (f : BinaryFormat) (word : Nat) : Prop :=
  word / 2 ^ f.fractionBits % 2 ^ f.exponentBits = 2 ^ f.exponentBits - 1 ∧
    word % 2 ^ f.fractionBits ≠ 0

instance (f : BinaryFormat) (word : Nat) : Decidable (f.IsNaN word) :=
  inferInstanceAs (Decidable (_ ∧ _))

/-- Without its sign, a number is at most infinity. -/
theorem le_infinity_of_not_isNaN {w : Nat} (h : ¬single.IsNaN w) :
    w % 2 ^ 32 % single.signWeight ≤ single.infinity := by
  unfold IsNaN at h
  simp only [infinity, signWeight, single] at h ⊢
  omega

end BinaryFormat

/-- The format of a float type. -/
def Scalar.format? : Scalar → Option BinaryFormat
  | .float32 => some .single
  | .float64 => some .double
  | _ => none

/-- The host type that holds the values of a type. -/
def Scalar.host : Scalar → HostType
  | .bool => .bool
  | .int8 => .i8
  | .uint8 => .u8
  | .int16 => .i16
  | .uint16 => .u16
  | .int32 => .i32
  | .uint32 => .u32
  | .int64 => .i64
  | .uint64 => .u64
  | .float32 => .f32
  | .float64 => .f64

namespace Value

variable {s : Scalar} {w w' : UInt64}

/-! ## From words to words -/

/-- A word as an integer is encoded again as its low bytes. -/
theorem word_ofWord_of_isInt (hs : s.isInt = true) (w : UInt64) :
    (((ofWord s w).cast s).word s).toNat = w.toNat % 2 ^ s.width := by
  have h := word_ofInt s w.toNat
  rw [cast_ofWord, ofWord_of_isInt hs]
  exact_mod_cast h

theorem word_ofWord_bool (w : UInt64) : ((ofWord .bool w).cast .bool).word .bool = w &&& 1 := by
  rw [cast_ofWord]
  apply UInt64.toNat_inj.1
  rw [UInt64.toNat_and]
  change _ = w.toNat &&& 1
  rw [Nat.and_one_is_mod, ofWord, word]
  rcases Nat.mod_two_eq_zero_or_one w.toNat with h | h <;> rw [h] <;> rfl

/-- So is a word as a float, unless it is not a number. -/
theorem word_ofWord_of_format {f : BinaryFormat} (hf : s.format? = some f)
    (h : ¬f.IsNaN w.toNat) :
    (((ofWord s w).cast s).word s).toNat = w.toNat % 2 ^ s.width := by
  rw [cast_ofWord]
  cases s with
  | float32 =>
    cases hf
    have hlt : w.toNat % 2 ^ 32 < 2 ^ 32 := Nat.mod_lt _ (by decide)
    have hword : (ofWord .float32 w).word .float32 = UInt64.ofNat (w.toNat % 2 ^ 32) := by
      simp only [ofWord, word, if_true]
      rw [Binary64.narrow_widen hlt (BinaryFormat.le_infinity_of_not_isNaN h)]
    rw [hword, UInt64.toNat_ofNat', Nat.mod_eq_of_lt (by omega)]
    rfl
  | float64 => exact (Nat.mod_eq_of_lt w.toNat_lt).symm
  | _ => cases hf

/-! ## What counts of a word -/

/-- The low bytes of a word decide what it stands for. -/
theorem ofWord_congr (h : w.toNat % 2 ^ s.width = w'.toNat % 2 ^ s.width) :
    ofWord s w = ofWord s w' := by
  rcases scalar_cases s with hs | rfl | rfl | rfl
  · rw [ofWord_of_isInt hs, ofWord_of_isInt hs]
    apply ofInt_congr
    exact_mod_cast h
  · change w.toNat % 2 ^ 8 = w'.toNat % 2 ^ 8 at h
    have hbit : w.toNat % 2 = w'.toNat % 2 := by omega
    rw [ofWord, ofWord, hbit]
  · change w.toNat % 2 ^ 32 = w'.toNat % 2 ^ 32 at h
    rw [ofWord, ofWord, h]
  · change w.toNat % 2 ^ 64 = w'.toNat % 2 ^ 64 at h
    rw [Nat.mod_eq_of_lt w.toNat_lt, Nat.mod_eq_of_lt w'.toNat_lt] at h
    rw [UInt64.toNat_inj.1 h]

/-- The host reads a word as decoding does. -/
theorem read_host (s : Scalar) (w : UInt64) : s.host.read w = ofWord s w := by
  cases s with
  | uint64 => exact uint_eq_ofInt w
  | _ => rfl

/-! ## Words and back -/

/-- Every value has a word of its type, which fits the bytes of the type and gives the value back as
a cast leaves it. Every word stands for a value of the type, which is encoded again as the low bytes
of the word: the lowest bit for a bool, and for a float all of them, unless they are not a number.
The other bytes do not count. The host reads a slot as the same value, which for an integer is the
number that its low bytes are in two's complement. -/
theorem words_and_values_inverse (s : Scalar) :
    (∀ v : Value, ∃ w, v.encode? (.scalar s) = some w ∧
      decode? w (.scalar s) = v.castTo? (.scalar s) ∧ w.toNat < 2 ^ (8 * s.bytes)) ∧
    (∀ w : UInt64, ∃ v w', decode? w (.scalar s) = some v ∧ v.encode? (.scalar s) = some w' ∧
      (s.isInt = true → w'.toNat = w.toNat % 2 ^ (8 * s.bytes)) ∧
      (s = .bool → w' = w &&& 1) ∧
      ∀ f, s.format? = some f → ¬f.IsNaN w.toNat → w'.toNat = w.toNat % 2 ^ (8 * s.bytes)) ∧
    (∀ w w' : UInt64, w.toNat % 2 ^ (8 * s.bytes) = w'.toNat % 2 ^ (8 * s.bytes) →
      decode? w (.scalar s) = decode? w' (.scalar s)) ∧
    (∀ w : UInt64, decode? w (.scalar s) = some (s.host.read w)) ∧
    (s.isInt = true → ∀ w : UInt64, (s.host.read w).number? = some (s.wrap w.toNat)) := by
  refine ⟨?_, ?_, ?_, ?_, ?_⟩
  · intro v
    refine ⟨_, rfl, decode?_of_encode? rfl, ?_⟩
    have hlt := word_lt v s
    rwa [show 256 = 2 ^ 8 from rfl, ← Nat.pow_mul] at hlt
  · intro w
    refine ⟨_, _, rfl, rfl, ?_, ?_, ?_⟩
    · intro hs
      exact word_ofWord_of_isInt hs w
    · rintro rfl
      exact word_ofWord_bool w
    · intro f hf h
      exact word_ofWord_of_format hf h
  · intro w w' h
    exact congrArg some (ofWord_congr h)
  · intro w
    rw [read_host]
    rfl
  · intro hs w
    rw [read_host, ofWord_of_isInt hs, number?_ofInt]

/-- A word of an 8-bit integer is read with its sign, whatever its high bytes are. -/
example : decode? 0xdead0000000000ff (.scalar .int8) = some (.int (-1)) := by decide +kernel

end Value

end FieldCompute
