import FieldCompute.Proofs.Number.Text
import FieldCompute.Proofs.Text.Tokens
import FieldCompute.Value
/-!
# The text of a constant

A constant is found again from its text (`reading_text`): words are truth values, a `u` at the end
marks an unsigned number, and a point, an `e` or the `i` of `inf` marks a floating-point one.
-/

namespace FieldCompute

namespace Value

/-- A NaN is the one constant whose text does not tell its bits. -/
def isNaN : Value → Bool
  | float x => x.isNaN
  | _ => false

/-- The constant that a text stands for. Of the two truth values only `false` has an `s`. -/
def reading (cs : List Char) : Value :=
  if 's' ∈ cs then bool false
  else if 't' ∈ cs then bool true
  else if 'u' ∈ cs then uint (UInt64.ofNat (Nat.ofDigitChars 10 cs.dropLast 0))
  else if '.' ∈ cs ∨ 'e' ∈ cs ∨ 'i' ∈ cs then float (Binary64.reading cs)
  else int (Int64.ofInt (Decimal.signed cs))

theorem toList_text_uint (u : UInt64) :
    (uint u).text.toList = Nat.toDigits 10 u.toNat ++ ['u'] := by
  rw [text, String.toList_append, Nat.toString_eq_repr, Nat.toList_repr]
  rfl

/-- What stands in the texts of a carrier beside digits. -/
def marks : Value → List Char
  | int _ => ['-']
  | uint _ => ['u']
  | float _ => ['.', 'e', '-', 'i', 'n', 'f']
  | bool _ => ['t', 'r', 'u', 'e', 'f', 'a', 'l', 's']

theorem mem_text {v : Value} (h : v.isNaN = false) {c : Char} (hc : c ∈ v.text.toList) :
    c.isDigit = true ∨ c ∈ v.marks := by
  cases v with
  | int i => exact (Decimal.mem_toString_int hc).imp_right List.mem_singleton.2
  | uint u =>
    rw [toList_text_uint] at hc
    rcases List.mem_append.1 hc with hc | hc
    · exact .inl (Decimal.isDigit_toDigits c hc)
    · exact .inr hc
  | float x => exact Binary64.mem_text h hc
  | bool b =>
    right
    have hwords : (bool b).text.toList.all (· ∈ (bool b).marks) = true := by cases b <;> decide
    exact of_decide_eq_true (List.all_eq_true.1 hwords c hc)

theorem not_mem_text {v : Value} (h : v.isNaN = false) {c : Char} (hc : c.isDigit = false)
    (hmarks : v.marks.contains c = false) : c ∉ v.text.toList := by
  intro hmem
  rcases mem_text h hmem with hd | hm
  · rw [hc] at hd
    exact Bool.noConfusion hd
  · rw [List.contains_iff_mem.2 hm] at hmarks
    exact Bool.noConfusion hmarks

theorem isTokenChar_of_mem_text {v : Value} (h : v.isNaN = false) {c : Char}
    (hc : c ∈ v.text.toList) : Text.isTokenChar c = true := by
  have hmarks : v.marks.all Text.isTokenChar = true := by cases v <;> rfl
  rcases mem_text h hc with hc | hc
  · exact Text.isTokenChar_of_isDigit hc
  · exact List.all_eq_true.1 hmarks c hc

/-- The text of a constant reads back, but for a NaN. -/
theorem reading_text {v : Value} (h : v.isNaN = false) : reading v.text.toList = v := by
  have hnot {c : Char} (hc : c.isDigit = false) (hmarks : v.marks.contains c = false) :
      c ∉ v.text.toList := not_mem_text h hc hmarks
  unfold reading
  cases v with
  | int i =>
    rw [if_neg (hnot rfl rfl), if_neg (hnot rfl rfl), if_neg (hnot rfl rfl), if_neg]
    · rw [text, Decimal.signed_toString, Int64.ofInt_toInt]
    · rintro (hpoint | he | hi)
      · exact hnot rfl rfl hpoint
      · exact hnot rfl rfl he
      · exact hnot rfl rfl hi
  | uint u =>
    have hu : 'u' ∈ (uint u).text.toList := by
      rw [toList_text_uint]
      exact List.mem_append_right _ List.mem_cons_self
    rw [if_neg (hnot rfl rfl), if_neg (hnot rfl rfl), if_pos hu, toList_text_uint,
      List.dropLast_concat, Nat.ofDigitChars_ten_toDigits, UInt64.ofNat_toNat]
  | float x =>
    have hmark : '.' ∈ (float x).text.toList ∨ 'e' ∈ (float x).text.toList ∨
        'i' ∈ (float x).text.toList := by
      obtain ⟨c, hc, hmark⟩ := Binary64.mark_text h
      simp only [List.mem_cons, List.not_mem_nil, or_false] at hmark
      rcases hmark with rfl | rfl | rfl
      · exact .inl hc
      · exact .inr (.inl hc)
      · exact .inr (.inr hc)
    rw [if_neg (hnot rfl rfl), if_neg (hnot rfl rfl), if_neg (hnot rfl rfl), if_pos hmark]
    exact congrArg float (Binary64.reading_text h)
  | bool b => cases b <;> rfl

theorem eq_of_text_eq {v w : Value} (hv : v.isNaN = false) (hw : w.isNaN = false)
    (h : v.text = w.text) : v = w := by
  rw [← reading_text hv, h, reading_text hw]

end Value

end FieldCompute
