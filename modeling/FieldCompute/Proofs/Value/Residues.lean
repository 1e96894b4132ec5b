import FieldCompute.Proofs.Value.Ranges
import FieldCompute.Proofs.Value.Types
import Mathlib.Data.Int.ModEq
/-!
# Residues

A value that is no float is an integer (`Value.integer?`), and an integer type has exactly one
integer of each residue modulo its width (`Scalar.reduces_iff`). `GivesResidue` says of an answer
that it is that integer.
The carriers and the bits of a number depend on its residue alone (`int_eq_ofInt_of_modEq`,
`uint_eq_ofInt_of_modEq`, `bits_congr`), so what is computed in 64 bits serves every narrower type.
-/

namespace FieldCompute

/-! ## Bits of any width -/

section Bits

variable {w : Nat} {i j : Int}

theorem bits_congr (h : i ≡ j [ZMOD 2 ^ w]) : BitVec.ofInt w i = BitVec.ofInt w j := by
  apply BitVec.eq_of_toNat_eq
  rw [BitVec.toNat_ofInt, BitVec.toNat_ofInt]
  push_cast
  rw [h]

/-- The low bits of a word of 64 bits. -/
theorem bits_toInt (hw : w ≤ 64) (z : BitVec 64) : BitVec.ofInt w z.toInt = z.setWidth w := by
  have hdvd : (2 : Int) ^ w ∣ 2 ^ 64 := pow_dvd_pow 2 hw
  have hz : z.toInt ≡ z.toNat [ZMOD 2 ^ w] := by
    rw [BitVec.toInt_eq_toNat_bmod]
    exact Int.ModEq.of_dvd hdvd Int.bmod_emod
  rw [bits_congr hz, BitVec.ofInt_natCast]
  apply BitVec.eq_of_toNat_eq
  rw [BitVec.toNat_ofNat, BitVec.toNat_setWidth]

theorem setWidth_ofInt (hw : w ≤ 64) (i : Int) :
    (BitVec.ofInt 64 i).setWidth w = BitVec.ofInt w i := by
  have hdvd : (2 : Int) ^ w ∣ 2 ^ 64 := pow_dvd_pow 2 hw
  rw [← bits_toInt hw, BitVec.toInt_ofInt]
  exact bits_congr (Int.ModEq.of_dvd hdvd Int.bmod_emod)

end Bits

/-! ## Values as integers -/

namespace Scalar

variable {s : Scalar} {i j n : Int}

/-- The number `n` is an integer of the type and congruent to `i`. -/
def Reduces (s : Scalar) (i n : Int) : Prop := s.InRange n ∧ n ≡ i [ZMOD 2 ^ s.width]

theorem wrap_modEq (s : Scalar) (i : Int) : s.wrap i ≡ i [ZMOD 2 ^ s.width] :=
  Value.wrap_emod s i

theorem wrap_congr (h : i ≡ j [ZMOD 2 ^ s.width]) : s.wrap i = s.wrap j := by
  have hmod : i % 2 ^ s.width = j % 2 ^ s.width := h
  simp [wrap, Int.bmod, hmod]

/-- There is exactly one such integer. -/
theorem reduces_iff : s.Reduces i n ↔ n = s.wrap i := by
  constructor
  · rintro ⟨hn, hmod⟩
    rw [← wrap_congr hmod, wrap_eq_self_iff.2 hn]
  · rintro rfl
    exact ⟨inRange_wrap s i, wrap_modEq s i⟩

end Scalar

namespace Value

variable {s : Scalar} {v : Value} {i j : Int}

/-- The integer that a value is; a truth value is 0 or 1. -/
def integer? : Value → Option Int
  | bool b => some (if b then 1 else 0)
  | v => v.number?

/-- The answer is the integer `n` of type `s`. -/
def Gives (answer : Option Value) (s : Scalar) (n : Int) : Prop :=
  ∃ v, answer = some v ∧ v.HasType (.scalar s) ∧ v.number? = some n

/-- The answer is the integer of type `s` that is congruent to `i`. -/
def GivesResidue (answer : Option Value) (s : Scalar) (i : Int) : Prop :=
  ∃ n, Gives answer s n ∧ s.Reduces i n

theorem integer?_of_number? (h : v.number? = some i) : v.integer? = some i := by
  cases v with
  | bool b => cases h
  | _ => exact h

theorem cast_eq_ofInt (hs : s.isInt = true) (hv : v.integer? = some i) : v.cast s = ofInt s i := by
  cases v with
  | float x => cases hv
  | _ =>
    cases hv
    exact ofWhole_of_isInt hs _

theorem number?_cast (hs : s.isInt = true) (hv : v.integer? = some i) :
    (v.cast s).number? = some (s.wrap i) := by
  rw [cast_eq_ofInt hs hv, number?_ofInt]

theorem exists_number?_cast (hs : s.isInt = true) (v : Value) :
    ∃ i, (v.cast s).number? = some i ∧ s.InRange i := by
  obtain ⟨i, hi⟩ := exists_cast_eq_ofInt hs v
  rw [hi]
  exact ⟨_, number?_ofInt s i, Scalar.inRange_wrap s i⟩

theorem exists_integer?_cast (hs : s.isFloat = false) (v : Value) :
    ∃ i, (v.cast s).integer? = some i := by
  rcases scalar_cases s with h | rfl | rfl | rfl
  · obtain ⟨i, hi, -⟩ := exists_number?_cast h v
    exact ⟨i, integer?_of_number? hi⟩
  · obtain ⟨b, hb⟩ := cast_bool v
    rw [hb]
    exact ⟨_, rfl⟩
  · cases hs
  · cases hs

theorem int_eq_ofInt_of_modEq {x : Int64} (h : x.toInt ≡ i [ZMOD 2 ^ 64]) :
    Value.int x = ofInt .int64 i := (int_eq_ofInt x).trans (ofInt_congr h)

/-- An operation of words that reduces the number `i` gives the integer of the carrier. -/
theorem int_eq_ofInt_of_bmod {x : Int64} (h : x.toInt = i.bmod (2 ^ 64)) :
    Value.int x = ofInt .int64 i := int_eq_ofInt_of_modEq (h ▸ Int.bmod_emod)

theorem uint_eq_ofInt_of_modEq {x : UInt64} (h : x.toNat ≡ i [ZMOD 2 ^ 64]) :
    Value.uint x = ofInt .uint64 i := (uint_eq_ofInt x).trans (ofInt_congr h)

theorem gives_ofInt (hs : s.isInt = true) (i : Int) : Gives (some (ofInt s i)) s (s.wrap i) :=
  ⟨_, rfl, hasType_scalar_iff.2 (cast_ofInt_self hs i), number?_ofInt s i⟩

theorem gives_ofInt_self (hs : s.isInt = true) (hi : s.InRange i) :
    Gives (some (ofInt s i)) s i := by
  have h := gives_ofInt hs i
  rwa [Scalar.wrap_eq_self_iff.2 hi] at h

theorem givesResidue_ofInt (hs : s.isInt = true) (h : i ≡ j [ZMOD 2 ^ s.width]) :
    GivesResidue (some (ofInt s i)) s j :=
  ⟨_, gives_ofInt hs i, Scalar.reduces_iff.2 (Scalar.wrap_congr h)⟩

end Value

end FieldCompute
