import FieldCompute.Device
import Mathlib.Algebra.Group.Nat.Defs
import Mathlib.Data.List.TakeWhile
/-!
# Sizes of resources

The size of an array or an image is a product that is checked factor by factor. As long as no factor
is zero the partial products rise, and from the first zero on they are all zero. So the check fails
if and only if what is in front of the first zero is too large (`Size.product?_eq`). Without a zero
that is the whole product (`resource_sizes`), and with one even a resource without elements may have
no size (`empty_array_overflows`).
-/

namespace FieldCompute

namespace Size

/-- The extents in front of the first zero. -/
def leading (extents : List Nat) : List Nat := extents.takeWhile (· ≠ 0)

@[simp] theorem leading_nil : leading [] = [] := rfl

@[simp] theorem leading_zero (extents : List Nat) : leading (0 :: extents) = [] := rfl

theorem leading_cons {extent : Nat} (h : extent ≠ 0) (extents : List Nat) :
    leading (extent :: extents) = extent :: leading extents := by
  simp [leading, h]

theorem leading_eq_self {extents : List Nat} (h : 0 ∉ extents) : leading extents = extents := by
  rw [leading, List.takeWhile_eq_self_iff]
  intro extent hextent
  have hne : extent ≠ 0 := fun h0 => h (h0 ▸ hextent)
  simpa using hne

theorem prod_leading_pos (extents : List Nat) : 0 < (leading extents).prod := by
  rw [List.prod_pos_iff_forall_pos_nat]
  intro extent hextent
  have hne := List.all_takeWhile (p := (· ≠ 0)) (l := extents)
  rw [List.all_eq_true] at hne
  have := hne extent hextent
  simp only [decide_eq_true_eq] at this
  omega

/-- The checked product is the product if what is in front of the first zero has a size, and else
there is none. -/
theorem product?_eq {start : Nat} (hs : start < bound) (extents : List Nat) :
    product? start extents =
      if start * (leading extents).prod < bound then some (start * extents.prod) else none := by
  induction extents generalizing start with
  | nil => simp [hs]
  | cons extent extents ih =>
    rw [product?_cons]
    by_cases h0 : extent = 0
    -- From a zero on every product is zero, whatever follows.
    · subst h0
      have hmul : mul? start 0 = some 0 := rfl
      rw [hmul, Option.bind_some, ih (by decide)]
      simp [hs, show 0 < bound by decide]
    · rw [leading_cons h0, List.prod_cons, List.prod_cons, ← Nat.mul_assoc, ← Nat.mul_assoc]
      by_cases hlt : start * extent < bound
      · rw [mul?, fit?, if_pos hlt, Option.bind_some, ih hlt]
      -- No extent in front of the zero makes a product smaller again.
      · have hle := Nat.le_mul_of_pos_right (start * extent) (prod_leading_pos extents)
        rw [mul?, fit?, if_neg hlt, if_neg (by omega)]
        rfl

theorem product?_eq_some_iff {start n : Nat} {extents : List Nat} (hs : start < bound) :
    product? start extents = some n ↔
      start * (leading extents).prod < bound ∧ start * extents.prod = n := by
  rw [product?_eq hs, Option.ite_none_right_eq_some, Option.some.injEq]

/-- The answer is the size of so many units as the extents multiply to, unless the extents in front
of the first zero are too large. So it is `none` just where the product is no size, if and only if
no extent is zero or those in front of the first zero are not too large. -/
structure Counts (unit : Nat) (extents : List Nat) (answer : Option Nat) : Prop where
  answer_eq : answer =
    if unit * (leading extents).prod < bound then some (unit * extents.prod) else none
  exact_iff : answer = fit? (unit * extents.prod) ↔
    (0 ∈ extents → unit * (leading extents).prod < bound)

theorem counts_product? {unit : Nat} (hunit : unit < bound) (extents : List Nat) :
    Counts unit extents (product? unit extents) := by
  refine ⟨product?_eq hunit extents, ?_⟩
  rw [product?_eq hunit]
  by_cases h0 : 0 ∈ extents
  · have hprod : extents.prod = 0 := List.prod_eq_zero_iff_exists_zero_nat.2 ⟨0, h0, rfl⟩
    rw [hprod, Nat.mul_zero, show fit? 0 = some 0 from rfl, Option.ite_none_right_eq_some]
    simp [h0]
  · rw [leading_eq_self h0]
    simp [h0, fit?]

end Size

theorem Scalar.bytes_lt_bound (s : Scalar) : s.bytes < Size.bound := by cases s <;> decide

theorem DType.bytes_lt_bound (d : DType) : d.bytes < Size.bound := by
  cases d with
  | scalar s => exact s.bytes_lt_bound
  | void => decide

/-- The channels of an image are one more extent. -/
theorem Image.bytes?_eq (i : Image) :
    i.bytes? = Size.product? i.dtype.bytes (i.shape ++ [i.channels]) := by
  unfold bytes? DType.arrayBytes? Size.product?
  rw [List.foldlM_append]
  cases List.foldlM Size.mul? i.dtype.bytes i.shape <;> simp

/-- Without a zero the order of the extents does not matter. -/
theorem DType.arrayBytes?_perm (d : DType) {shape shape' : List Nat} (hperm : shape.Perm shape')
    (h0 : 0 ∉ shape) : d.arrayBytes? shape' = d.arrayBytes? shape := by
  have h0' : 0 ∉ shape' := fun h => h0 (hperm.mem_iff.2 h)
  unfold arrayBytes?
  rw [Size.product?_eq d.bytes_lt_bound, Size.product?_eq d.bytes_lt_bound,
    Size.leading_eq_self h0, Size.leading_eq_self h0', hperm.prod_nat]

/-- The size of an array is the product of the size of its elements and its extents, and that of an
image the product of these and its channels: exactly, if no extent is zero, or if the product of
what is in front of the first zero is a size. Then the order of the extents does not matter. -/
theorem resource_sizes (d : DType) (shape : List Nat) (channels : Nat) :
    Size.Counts d.bytes shape (d.arrayBytes? shape) ∧
    Size.Counts d.bytes (shape ++ [channels]) (Image.bytes? ⟨d, channels, shape⟩) ∧
    ∀ shape', shape.Perm shape' → 0 ∉ shape →
      d.arrayBytes? shape' = d.arrayBytes? shape ∧
      Image.bytes? ⟨d, channels, shape'⟩ = Image.bytes? ⟨d, channels, shape⟩ := by
  refine ⟨Size.counts_product? d.bytes_lt_bound shape, ?_, ?_⟩
  · rw [Image.bytes?_eq]
    exact Size.counts_product? d.bytes_lt_bound _
  · intro shape' hperm h0
    have harray := d.arrayBytes?_perm hperm h0
    refine ⟨harray, ?_⟩
    simp only [Image.bytes?, harray]

/-- An array without elements has no size if the extents in front of its zero are too large, and
size zero if the zero comes first. -/
theorem empty_array_overflows :
    (DType.scalar .int8).bytes * [2 ^ 63, 4, 0].prod = 0 ∧
    (DType.scalar .int8).arrayBytes? [2 ^ 63, 4, 0] = none ∧
    (DType.scalar .int8).arrayBytes? [0, 2 ^ 63, 4] = some 0 ∧
    Image.bytes? ⟨.scalar .int8, 0, [2 ^ 63, 4]⟩ = none := by decide

end FieldCompute
