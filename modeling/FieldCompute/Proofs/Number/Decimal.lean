import FieldCompute.Number.Decimal
import FieldCompute.Proofs.Number.Rounding
import Mathlib.Algebra.Order.Field.Rat
import Mathlib.Data.List.TakeWhile
import Mathlib.Tactic.FieldSimp
import Mathlib.Tactic.Positivity
import Mathlib.Tactic.Ring
/-!
# The text of a number reads back

The word nearest to a decimal number depends on the number alone (`Scientific.word_congr`), not on
how many zeros its digits end in. What `shortest` chooses has the word that it was asked for
(`shortest_word`), and `reading` finds that number again in either layout, so the text of a finite
magnitude determines it (`word_reading`).
-/

namespace FieldCompute

namespace BinaryFormat

variable {f : BinaryFormat} {a d k : Nat}

/-! ## Rounding a ratio -/

theorem nearestFactor_mul_mul (hk : 0 < k) (a d : Nat) :
    nearestFactor (a * k) (d * k) = nearestFactor a d := by
  unfold nearestFactor
  simp only [Nat.mul_div_mul_right _ _ hk, Nat.mul_mod_mul_right, ← Nat.mul_assoc,
    Nat.mul_lt_mul_right hk]

theorem Spaced.mul_mul {e : Nat} (hk : 0 < k) (h : f.Spaced a d e) :
    f.Spaced (a * k) (d * k) e := by
  obtain ⟨hlt, hle⟩ := h
  constructor
  · rw [Nat.mul_right_comm]
    exact Nat.mul_lt_mul_of_pos_right hlt hk
  · apply hle.imp_right
    intro hle
    rw [Nat.mul_right_comm]
    exact Nat.mul_le_mul_right k hle

/-- Rounding sees the ratio only. -/
theorem nearest_mul_mul (hk : 0 < k) (hd : 0 < d) (a : Nat) :
    f.nearest (a * k) (d * k) = f.nearest a d := by
  have hbinade : f.binade (a * k) (d * k) = f.binade a d :=
    (spaced_binade (Nat.mul_pos hd hk)).unique ((spaced_binade hd).mul_mul hk)
  unfold nearest
  simp only [hbinade]
  rw [Nat.mul_right_comm, nearestFactor_mul_mul hk]

theorem nearest_congr {a' d' : Nat} (hd : 0 < d) (hd' : 0 < d')
    (h : (a : ℚ) / d = (a' : ℚ) / d') : f.nearest a d = f.nearest a' d' := by
  have hcross : a * d' = a' * d := by
    rw [div_eq_div_iff (by positivity) (by positivity)] at h
    exact_mod_cast h
  calc f.nearest a d = f.nearest (a * d') (d * d') := (nearest_mul_mul hd' hd a).symm
    _ = f.nearest (a' * d) (d' * d) := by rw [hcross, Nat.mul_comm d]
    _ = f.nearest a' d' := nearest_mul_mul hd hd' a'

end BinaryFormat

namespace Decimal

open BinaryFormat

namespace Scientific

/-! ## The number and its word -/

/-- The number itself. -/
def value (x : Scientific) : ℚ := x.digits * 10 ^ x.exponent

/-- The word is the nearest one to a ratio that stands for the number, in steps. -/
theorem exists_ratio (x : Scientific) :
    ∃ a d : Nat, 0 < d ∧ x.word = double.nearest a d ∧
      (a : ℚ) / d = x.value * 2 ^ double.step := by
  -- A power of ten belongs above the line, an inverse one below it.
  unfold word value
  split
  · next h =>
    obtain ⟨n, hn⟩ := Int.eq_ofNat_of_zero_le h
    refine ⟨_, _, Nat.one_pos, rfl, ?_⟩
    rw [hn, Int.toNat_natCast, zpow_natCast]
    push_cast
    ring
  · next h =>
    obtain ⟨n, hn⟩ : ∃ n : ℕ, x.exponent = -(n : ℤ) := ⟨(-x.exponent).toNat, by omega⟩
    refine ⟨_, _, Nat.pow_pos (by decide), rfl, ?_⟩
    rw [hn, neg_neg, Int.toNat_natCast, zpow_neg, zpow_natCast]
    push_cast
    ring

theorem word_congr {x y : Scientific} (h : x.value = y.value) : x.word = y.word := by
  obtain ⟨a, d, hd, hx, hxv⟩ := x.exists_ratio
  obtain ⟨a', d', hd', hy, hyv⟩ := y.exists_ratio
  rw [hx, hy]
  apply nearest_congr hd hd'
  rw [hxv, hyv, h]

/-- Zeros at the end of the digits make no difference. -/
@[simp] theorem value_strip (x : Scientific) (fuel : Nat) : (x.strip fuel).value = x.value := by
  induction fuel generalizing x with
  | zero => rfl
  | succ fuel ih =>
    unfold strip
    split
    · next h =>
      have hdigits : x.digits = x.digits / 10 * 10 := by omega
      rw [ih]
      unfold value
      conv_rhs => rw [hdigits]
      rw [zpow_add_one₀ (by norm_num)]
      push_cast
      ring
    · rfl

end Scientific

/-! ## What is chosen -/

theorem word_exact {m : Nat} (h : m ≤ double.infinity) : (exact m).word = m := by
  have hneg : ¬ (0 : Int) ≤ -double.step := by decide
  have hpow : ∀ n, 5 ^ n * 2 ^ n = 10 ^ n := fun n => (Nat.mul_pow 5 2 n).symm
  simp only [Scientific.word, exact, if_neg hneg, neg_neg, Int.toNat_natCast]
  rw [Nat.mul_assoc, hpow]
  exact nearest_scaled (Nat.pow_pos (by decide)) h

theorem word_of_digits_zero {x : Scientific} (h : x.digits = 0) : x.word = 0 := by
  have hexact : (exact 0).digits = 0 := by
    rw [exact, show double.scaled 0 = 0 from rfl, Nat.zero_mul]
  have hvalue : x.value = (exact 0).value := by
    rw [Scientific.value, Scientific.value, h, hexact, Nat.cast_zero, zero_mul, zero_mul]
  rw [Scientific.word_congr hvalue]
  exact word_exact (Nat.zero_le _)

/-- What is written reads back as the word. -/
theorem shortest_word {m : Nat} (h : m ≤ double.infinity) : (shortest m).word = m := by
  unfold shortest
  rw [Scientific.word_congr (Scientific.value_strip _ _)]
  cases hfind : List.find? _ _ with
  | none => exact word_exact h
  | some x =>
    have hword := List.find?_some hfind
    exact of_decide_eq_true hword

/-! ## Reading -/

/-- An integer from its digits and the sign before them. -/
def signed : List Char → Int
  | '-' :: cs => -Nat.ofDigitChars 10 cs 0
  | cs => Nat.ofDigitChars 10 cs 0

theorem toList_toString_ofNat (n : ℕ) : (toString (Int.ofNat n)).toList = Nat.toDigits 10 n := by
  rw [Int.toString_eq_repr]
  exact Nat.toList_repr

theorem toList_toString_negSucc (n : ℕ) :
    (toString (Int.negSucc n)).toList = '-' :: Nat.toDigits 10 (n + 1) := by
  rw [Int.toString_eq_repr, Int.repr, String.toList_append, Nat.toList_repr]
  rfl

theorem isDigit_toDigits {n : ℕ} : ∀ c ∈ Nat.toDigits 10 n, c.isDigit = true := by
  intro c hc
  exact Nat.isDigit_of_mem_toDigits (by decide) (by decide) hc

theorem signed_toString (i : ℤ) : signed (toString i).toList = i := by
  cases i with
  | ofNat n =>
    rw [toList_toString_ofNat]
    unfold signed
    split
    · next hn =>
      have hdigit := isDigit_toDigits '-' (hn ▸ List.mem_cons_self)
      exact absurd hdigit (by decide)
    · rw [Nat.ofDigitChars_ten_toDigits]
      rfl
  | negSucc n =>
    rw [toList_toString_negSucc, signed, Nat.ofDigitChars_ten_toDigits]
    rfl

/-- The number that a text stands for: all its digits, of which those behind the point count as
places, and the power of ten behind the `e`. -/
def reading (cs : List Char) : Scientific :=
  let mantissa := cs.takeWhile (· ≠ 'e')
  let places := (mantissa.dropWhile (· ≠ '.')).tail
  ⟨Nat.ofDigitChars 10 (mantissa.filter (· ≠ '.')) 0,
    signed (cs.dropWhile (· ≠ 'e')).tail - places.length⟩

/-- Digits, with a point where more digits follow. Both layouts begin so. -/
def pointed (front back : List Char) : List Char :=
  front ++ if back.isEmpty then [] else '.' :: back

section Pointed

variable {front back : List Char}

theorem mem_pointed {c : Char} (h : c ∈ pointed front back) : c ∈ front ++ back ∨ c = '.' := by
  unfold pointed at h
  rcases List.mem_append.1 h with h | h
  · exact .inl (List.mem_append_left _ h)
  · split at h
    · simp at h
    · rcases List.mem_cons.1 h with rfl | h
      · exact .inr rfl
      · exact .inl (List.mem_append_right _ h)

theorem ne_of_isDigit {c d : Char} (hc : c.isDigit = true) (hd : d.isDigit = false) : c ≠ d := by
  rintro rfl
  simp [hc] at hd

variable (hdigits : ∀ c ∈ front ++ back, c.isDigit = true)

include hdigits

theorem filter_pointed : (pointed front back).filter (· ≠ '.') = front ++ back := by
  have hkeep : (front ++ back).filter (· ≠ '.') = front ++ back := by
    rw [List.filter_eq_self]
    intro c hc
    simpa using ne_of_isDigit (hdigits c hc) rfl
  cases back with
  | nil => simpa [pointed] using hkeep
  | cons b bs => simpa [pointed] using hkeep

theorem places_pointed : ((pointed front back).dropWhile (· ≠ '.')).tail = back := by
  have hfront : ∀ c ∈ front, decide (c ≠ '.') = true := by
    intro c hc
    simpa using ne_of_isDigit (hdigits c (List.mem_append_left _ hc)) rfl
  unfold pointed
  rw [List.dropWhile_append_of_pos hfront]
  cases back <;> simp

theorem no_e_pointed : ∀ c ∈ pointed front back, decide (c ≠ 'e') = true := by
  intro c hc
  rcases mem_pointed hc with hc | rfl
  · simpa using ne_of_isDigit (hdigits c hc) rfl
  · rfl

theorem reading_pointed :
    reading (pointed front back) = ⟨Nat.ofDigitChars 10 (front ++ back) 0, -back.length⟩ := by
  have hno := no_e_pointed hdigits
  have hzero : signed ([] : List Char).tail = 0 := rfl
  simp only [reading, List.takeWhile_eq_self_iff.2 hno, List.dropWhile_eq_nil_iff.2 hno, hzero,
    filter_pointed hdigits, places_pointed hdigits, Int.zero_sub]

theorem reading_pointed_power (e : Int) :
    reading (pointed front back ++ 'e' :: (toString e).toList) =
      ⟨Nat.ofDigitChars 10 (front ++ back) 0, e - back.length⟩ := by
  have hno := no_e_pointed hdigits
  have hstop (cs : List Char) : ('e' :: cs).takeWhile (· ≠ 'e') = [] ∧
      ('e' :: cs).dropWhile (· ≠ 'e') = 'e' :: cs := ⟨rfl, rfl⟩
  simp only [reading, List.takeWhile_append_of_pos hno, List.dropWhile_append_of_pos hno, hstop,
    List.append_nil, List.tail_cons, filter_pointed hdigits, places_pointed hdigits,
    signed_toString]

end Pointed

/-! ## Layouts -/

/-- The text writes the number, with places or with a power of ten. -/
inductive Writes : Scientific → List Char → Prop
  | places {front back : List Char} (hdigits : ∀ c ∈ front ++ back, c.isDigit = true)
      (hfront : front ≠ []) (hback : back ≠ []) :
      Writes ⟨Nat.ofDigitChars 10 (front ++ back) 0, -back.length⟩ (pointed front back)
  | power {front back : List Char} (hdigits : ∀ c ∈ front ++ back, c.isDigit = true)
      (hfront : front ≠ []) (e : Int) :
      Writes ⟨Nat.ofDigitChars 10 (front ++ back) 0, e - back.length⟩
        (pointed front back ++ 'e' :: (toString e).toList)

theorem Writes.reading_eq {x : Scientific} {cs : List Char} (h : Writes x cs) :
    reading cs = x := by
  cases h with
  | places hdigits => exact reading_pointed hdigits
  | power hdigits _ e => exact reading_pointed_power hdigits e

section Digits

variable {digits : List Char}

theorem positional_of_front (hne : digits ≠ []) (k : ℕ) :
    (positional digits (-(k : ℤ))).toList = pointed ['0'] (List.replicate k '0' ++ digits) := by
  have hle : -(k : ℤ) ≤ 0 := by omega
  have hback : (List.replicate k '0' ++ digits).isEmpty = false := by simp [hne]
  simp only [positional, if_pos hle, neg_neg, Int.toNat_natCast, pointed, hback,
    String.toList_append, String.toList_ofList]
  rfl

theorem positional_of_inside {k : ℕ} (hk : 0 < k) (hlt : k < digits.length) :
    (positional digits k).toList = pointed (digits.take k) (digits.drop k) := by
  have hpos : ¬ (k : ℤ) ≤ 0 := by omega
  have hpad : k - digits.length = 0 := by omega
  have hback : (digits.drop k).isEmpty = false := by simp [hlt]
  simp only [positional, if_neg hpos, Int.toNat_natCast, hpad, List.replicate_zero, List.append_nil,
    pointed, hback, String.toList_append, String.toList_ofList]
  simp

theorem positional_of_behind {k : ℕ} (hk : 0 < k) (hle : digits.length ≤ k) :
    (positional digits k).toList =
      pointed (digits ++ List.replicate (k - digits.length) '0') ['0'] := by
  have hpos : ¬ (k : ℤ) ≤ 0 := by omega
  have hback : (digits.drop k).isEmpty = true := by simp [hle]
  simp only [positional, if_neg hpos, Int.toNat_natCast, List.take_of_length_le hle, hback, pointed,
    String.toList_append, String.toList_ofList]
  simp

theorem isDigit_zeros {n : ℕ} : ∀ c ∈ List.replicate n '0', c.isDigit = true := by
  intro c hc
  rw [List.eq_of_mem_replicate hc]
  rfl

variable (hdigits : ∀ c ∈ digits, c.isDigit = true) (hne : digits ≠ [])

include hdigits hne

/-- Zeros fill the places between the digits and the point. -/
theorem writes_positional (point : ℤ) :
    ∃ x, Writes x (positional digits point).toList ∧
      x.value = Nat.ofDigitChars 10 digits 0 * 10 ^ (point - digits.length) := by
  -- The point stands in front of all digits, between two of them, or behind the last one.
  by_cases hpoint : point ≤ 0
  · obtain ⟨k, rfl⟩ : ∃ k : ℕ, point = -(k : ℤ) := ⟨(-point).toNat, by omega⟩
    have hall : ∀ c ∈ ['0'] ++ (List.replicate k '0' ++ digits), c.isDigit = true :=
      List.forall_mem_append.2 ⟨isDigit_zeros (n := 1),
        List.forall_mem_append.2 ⟨isDigit_zeros, hdigits⟩⟩
    have hnumber : Nat.ofDigitChars 10 (['0'] ++ (List.replicate k '0' ++ digits)) 0 =
        Nat.ofDigitChars 10 digits 0 := by
      simp [Nat.ofDigitChars_append, Nat.ofDigitChars_cons]
    have hplaces : -((List.replicate k '0' ++ digits).length : ℤ) = -k - digits.length := by
      rw [List.length_append, List.length_replicate]
      omega
    rw [positional_of_front hne]
    refine ⟨_, .places hall (by simp) (by simp [hne]), ?_⟩
    rw [Scientific.value, hnumber, hplaces]
  · obtain ⟨k, rfl⟩ : ∃ k : ℕ, point = k := ⟨point.toNat, by omega⟩
    have hk : 0 < k := by omega
    rcases Nat.lt_or_ge k digits.length with hlt | hle
    · have hplaces : -((digits.drop k).length : ℤ) = k - digits.length := by
        rw [List.length_drop]
        omega
      rw [positional_of_inside hk hlt]
      refine ⟨_, .places ?_ ?_ ?_, ?_⟩
      · rwa [List.take_append_drop]
      · simp [hne, hk.ne']
      · simp [hlt]
      · rw [Scientific.value, List.take_append_drop, hplaces]
    · obtain ⟨j, rfl⟩ := Nat.exists_eq_add_of_le hle
      have hall : ∀ c ∈ digits ++ List.replicate j '0' ++ ['0'], c.isDigit = true :=
        List.forall_mem_append.2 ⟨List.forall_mem_append.2 ⟨hdigits, isDigit_zeros⟩,
          isDigit_zeros (n := 1)⟩
      have hnumber : Nat.ofDigitChars 10 (digits ++ List.replicate j '0' ++ ['0']) 0 =
          10 ^ j * Nat.ofDigitChars 10 digits 0 * 10 := by
        simp [Nat.ofDigitChars_append, Nat.ofDigitChars_cons, Nat.mul_comm]
      have hplaces : ((digits.length + j : ℕ) : ℤ) - digits.length = j := by omega
      rw [positional_of_behind hk hle, Nat.add_sub_cancel_left]
      refine ⟨_, .places hall (by simp [hne]) (by simp), ?_⟩
      rw [Scientific.value, hnumber, hplaces, zpow_natCast]
      simp [zpow_neg]
      ring

/-- The point stands behind the first digit. -/
theorem writes_withExponent (e : ℤ) :
    ∃ x, Writes x (withExponent digits e).toList ∧
      x.value = Nat.ofDigitChars 10 digits 0 * 10 ^ (e + 1 - digits.length) := by
  have hlen : 0 < digits.length := List.length_pos_iff.2 hne
  have htext : (withExponent digits e).toList =
      pointed (digits.take 1) (digits.drop 1) ++ 'e' :: (toString e).toList := by
    simp only [withExponent, pointed, String.toList_append, String.toList_ofList]
    simp
  have hplaces : e - ((digits.drop 1).length : ℤ) = e + 1 - digits.length := by
    rw [List.length_drop]
    omega
  rw [htext]
  refine ⟨_, .power ?_ ?_ e, ?_⟩
  · rwa [List.take_append_drop]
  · simp [hne]
  · rw [Scientific.value, List.take_append_drop, hplaces]

end Digits

/-! ## The text of a magnitude -/

theorem writes_magnitudeText {m : ℕ} (h : m ≤ double.infinity) :
    ∃ x, Writes x (magnitudeText m).toList ∧ x.word = m := by
  by_cases hm : m = 0
  · -- Zero has a text of its own, with more digits than it needs.
    subst hm
    have hdigits : ∀ c ∈ ['0'] ++ ['0'], c.isDigit = true := isDigit_zeros (n := 2)
    refine ⟨_, .places hdigits (by simp) (by simp), ?_⟩
    exact word_of_digits_zero rfl
  have hdigits := isDigit_toDigits (n := (shortest m).digits)
  have hne : Nat.toDigits 10 (shortest m).digits ≠ [] := Nat.toDigits_ne_nil
  have hword := shortest_word h
  unfold magnitudeText
  rw [if_neg hm]
  dsimp only
  split
  · obtain ⟨x, hx, hvalue⟩ := writes_positional hdigits hne
      ((shortest m).exponent + (Nat.toDigits 10 (shortest m).digits).length)
    refine ⟨x, hx, ?_⟩
    rw [← hword]
    apply Scientific.word_congr
    rw [hvalue, Nat.ofDigitChars_ten_toDigits, Int.add_sub_cancel, Scientific.value]
  · obtain ⟨x, hx, hvalue⟩ := writes_withExponent hdigits hne
      ((shortest m).exponent + (Nat.toDigits 10 (shortest m).digits).length - 1)
    refine ⟨x, hx, ?_⟩
    rw [← hword]
    apply Scientific.word_congr
    rw [hvalue, Nat.ofDigitChars_ten_toDigits, Int.sub_add_cancel, Int.add_sub_cancel,
      Scientific.value]

/-- The text of a finite magnitude reads back. -/
theorem word_reading {m : ℕ} (h : m ≤ double.infinity) :
    (reading (magnitudeText m).toList).word = m := by
  obtain ⟨x, hx, hword⟩ := writes_magnitudeText h
  rw [hx.reading_eq, hword]

end Decimal

end FieldCompute
