import FieldCompute.Proofs.Number.Decimal
/-!
# The text of a floating-point number

Every number but a NaN is found again from its text (`reading_text`): the sign from the front, the
magnitude from what follows. The text has a point, an `e` or the `i` of `inf` in it, which tells it
from the text of an integer.
-/

namespace FieldCompute

namespace Decimal

variable {x : Scientific} {cs : List Char}

/-! ## Characters -/

theorem exists_head_pointed {front : List Char} (back tail : List Char)
    (hdigits : ∀ c ∈ front ++ back, c.isDigit = true) (hfront : front ≠ []) :
    ∃ c rest, pointed front back ++ tail = c :: rest ∧ c.isDigit = true := by
  cases front with
  | nil => exact absurd rfl hfront
  | cons c front => exact ⟨c, _, rfl, hdigits c List.mem_cons_self⟩

/-- A magnitude begins with a digit. -/
theorem Writes.exists_head (h : Writes x cs) : ∃ c rest, cs = c :: rest ∧ c.isDigit = true := by
  cases h with
  | @places front back hdigits hfront =>
    rw [← List.append_nil (pointed front back)]
    exact exists_head_pointed back [] hdigits hfront
  | @power front back hdigits hfront e => exact exists_head_pointed back _ hdigits hfront

theorem Writes.point_or_e (h : Writes x cs) : '.' ∈ cs ∨ 'e' ∈ cs := by
  cases h with
  | @places front back _ _ hback =>
    left
    have : back.isEmpty = false := by simpa using hback
    simp [pointed, this]
  | power => exact .inr (List.mem_append_right _ List.mem_cons_self)

theorem mem_toString_int {i : ℤ} {c : Char} (h : c ∈ (toString i).toList) :
    c.isDigit = true ∨ c = '-' := by
  cases i with
  | ofNat n =>
    rw [toList_toString_ofNat] at h
    exact .inl (isDigit_toDigits c h)
  | negSucc n =>
    rw [toList_toString_negSucc] at h
    rcases List.mem_cons.1 h with rfl | h
    · exact .inr rfl
    · exact .inl (isDigit_toDigits c h)

theorem Writes.mem (h : Writes x cs) {c : Char} (hc : c ∈ cs) :
    c.isDigit = true ∨ c ∈ ['.', 'e', '-'] := by
  have hpointed : ∀ {front back : List Char}, (∀ c ∈ front ++ back, c.isDigit = true) →
      c ∈ pointed front back → c.isDigit = true ∨ c ∈ ['.', 'e', '-'] := by
    intro front back hdigits hc
    rcases mem_pointed hc with hc | rfl
    · exact .inl (hdigits c hc)
    · exact .inr (by decide)
  cases h with
  | places hdigits => exact hpointed hdigits hc
  | power hdigits _ e =>
    rcases List.mem_append.1 hc with hc | hc
    · exact hpointed hdigits hc
    rcases List.mem_cons.1 hc with rfl | hc
    · exact .inr (by decide)
    rcases mem_toString_int hc with hc | rfl
    · exact .inl hc
    · exact .inr (by decide)

/-! ## Magnitudes -/

/-- The text of a magnitude, infinity among them. -/
def unsigned (m : ℕ) : String := if m = BinaryFormat.double.infinity then "inf" else magnitudeText m

/-- The magnitude that a text stands for. -/
def magnitudeOf (cs : List Char) : ℕ :=
  if cs.head? = some 'i' then BinaryFormat.double.infinity else (reading cs).word

variable {m : ℕ} (hm : m ≤ BinaryFormat.double.infinity)

include hm

/-- The text is `inf`, or it writes a number. -/
theorem unsigned_cases :
    m = BinaryFormat.double.infinity ∧ (unsigned m).toList = ['i', 'n', 'f'] ∨
      ∃ x, Writes x (unsigned m).toList ∧ x.word = m := by
  unfold unsigned
  split
  · next h => exact .inl ⟨h, rfl⟩
  · exact .inr (writes_magnitudeText hm)

theorem magnitudeOf_unsigned : magnitudeOf (unsigned m).toList = m := by
  unfold magnitudeOf
  rcases unsigned_cases hm with ⟨hinf, htext⟩ | ⟨x, hx, hword⟩
  · rw [htext]
    exact hinf.symm
  · obtain ⟨c, rest, htext, hc⟩ := hx.exists_head
    have hhead : (unsigned m).toList.head? ≠ some 'i' := by
      rw [htext, List.head?_cons]
      intro hi
      rw [Option.some.inj hi] at hc
      exact absurd hc (by decide)
    rw [if_neg hhead, hx.reading_eq, hword]

/-- No sign stands in front of it. -/
theorem unsigned_ne_minus (rest : List Char) : (unsigned m).toList ≠ '-' :: rest := by
  intro h
  rcases unsigned_cases hm with ⟨-, htext⟩ | ⟨x, hx, -⟩
  · rw [htext] at h
    simp at h
  · obtain ⟨c, rest, htext, hc⟩ := hx.exists_head
    rw [htext] at h
    rw [(List.cons.inj h).1] at hc
    exact absurd hc (by decide)

theorem mem_unsigned {c : Char} (hc : c ∈ (unsigned m).toList) :
    c.isDigit = true ∨ c ∈ ['.', 'e', '-', 'i', 'n', 'f'] := by
  rcases unsigned_cases hm with ⟨-, htext⟩ | ⟨x, hx, -⟩
  · rw [htext] at hc
    exact .inr (List.mem_append_right ['.', 'e', '-'] hc)
  · apply (hx.mem hc).imp_right
    exact List.mem_append_left ['i', 'n', 'f']

theorem mark_unsigned : ∃ c ∈ (unsigned m).toList, c ∈ ['.', 'e', 'i'] := by
  rcases unsigned_cases hm with ⟨-, htext⟩ | ⟨x, hx, -⟩
  · rw [htext]
    exact ⟨'i', by decide, by decide⟩
  · rcases hx.point_or_e with h | h
    · exact ⟨_, h, by decide⟩
    · exact ⟨_, h, by decide⟩

end Decimal

namespace Binary64

open BinaryFormat

theorem ofParts_magnitude (x : Binary64) : ofParts x.isNegative x.magnitude = x := by
  have hm : x.magnitude < 2 ^ 63 := Nat.mod_lt _ (Nat.two_pow_pos _)
  have hx := x.bits.toNat_lt
  have hbits : (ofParts x.isNegative x.magnitude).bits = x.bits := by
    apply UInt64.toNat_inj.1
    rw [toNat_ofParts hm]
    unfold isNegative magnitude
    by_cases h : 2 ^ 63 ≤ x.bits.toNat
    · simp only [h, decide_true, if_true]
      omega
    · simp only [h, decide_false, Bool.false_eq_true, if_false]
      omega
  cases x
  exact congrArg Binary64.mk hbits

/-- The number that a text stands for. -/
def reading : List Char → Binary64
  | '-' :: cs => ofParts true (Decimal.magnitudeOf cs)
  | cs => ofParts false (Decimal.magnitudeOf cs)

variable {x : Binary64} (hx : x.isNaN = false)

include hx

theorem magnitude_le_infinity : x.magnitude ≤ double.infinity := by
  unfold isNaN at hx
  exact Nat.le_of_not_lt (of_decide_eq_false hx)

theorem toList_text :
    x.text.toList =
      (if x.isNegative then ['-'] else []) ++ (Decimal.unsigned x.magnitude).toList := by
  unfold text Decimal.unsigned
  simp only [hx, Bool.false_eq_true, if_false, isInfinite, decide_eq_true_eq, String.toList_append]
  split <;> rfl

/-- The text of a number reads back. -/
theorem reading_text : reading x.text.toList = x := by
  have hm := magnitude_le_infinity hx
  conv_rhs => rw [← x.ofParts_magnitude]
  rw [toList_text hx]
  -- The sign is told by the first character, so an unsigned text must not begin like a signed one.
  cases x.isNegative with
  | false =>
    simp only [Bool.false_eq_true, if_false, List.nil_append]
    unfold reading
    split
    · next h => exact absurd h (Decimal.unsigned_ne_minus hm _)
    · rw [Decimal.magnitudeOf_unsigned hm]
  | true =>
    simp only [if_true, List.cons_append, List.nil_append, reading]
    rw [Decimal.magnitudeOf_unsigned hm]

theorem mem_text {c : Char} (hc : c ∈ x.text.toList) :
    c.isDigit = true ∨ c ∈ ['.', 'e', '-', 'i', 'n', 'f'] := by
  rw [toList_text hx] at hc
  rcases List.mem_append.1 hc with hc | hc
  · split at hc
    · rw [List.mem_singleton.1 hc]
      exact .inr (by decide)
    · simp at hc
  · exact Decimal.mem_unsigned (magnitude_le_infinity hx) hc

/-- What tells the text from the text of an integer. -/
theorem mark_text : ∃ c ∈ x.text.toList, c ∈ ['.', 'e', 'i'] := by
  obtain ⟨c, hc, hmark⟩ := Decimal.mark_unsigned (magnitude_le_infinity hx)
  rw [toList_text hx]
  exact ⟨c, List.mem_append_right _ hc, hmark⟩

end Binary64

end FieldCompute
