/-!
# Sizes

Sizes, offsets and counts are natural numbers below `2 ^ 64`. Arithmetic that could leave that
range is checked: it gives `none` instead of a number that does not fit.
-/

namespace FieldCompute

-- Mathlib finds powers and zeros by way of its algebraic classes. These come before them, so that
-- `2 ^ 64` and a sum of sizes are the same terms in a module with Mathlib and in one without.
@[default_instance 20000]
instance (priority := 20000) naturalPower {α : Type} [NatPow α] : Pow α Nat := instPowNat

instance (priority := 20000) naturalZero : Zero Nat := Zero.ofOfNat0

namespace Size

/-- The first number that is no size. -/
def bound : Nat := 2 ^ 64

/-- The number `n`, if it is a size. -/
def fit? (n : Nat) : Option Nat := if n < bound then some n else none

def add? (a b : Nat) : Option Nat := fit? (a + b)

def mul? (a b : Nat) : Option Nat := fit? (a * b)

/-- The product of `start` and every extent, checked after each factor: one that leaves the range on
the way is `none`, also when a later extent is zero. -/
def product? (start : Nat) (extents : List Nat) : Option Nat := extents.foldlM mul? start

/-- The least multiple of `unit` at or after `offset`. -/
def alignUp (offset unit : Nat) : Nat := offset + (unit - offset % unit) % unit

def alignUp? (offset unit : Nat) : Option Nat := fit? (alignUp offset unit)

theorem fit?_eq_some_iff {n m : Nat} : fit? n = some m ↔ n = m ∧ m < bound := by
  unfold fit?; split <;> simp <;> omega

@[simp] theorem product?_nil (start : Nat) : product? start [] = some start := rfl

@[simp] theorem product?_cons (start extent : Nat) (extents : List Nat) :
    product? start (extent :: extents) = (mul? start extent).bind (product? · extents) := rfl

end Size

end FieldCompute
