import FieldCompute.Proofs.Value.Types
/-!
# Comparisons read from both sides

A comparison with its operands swapped is the mirrored comparison: `a < b` is `b > a`. The type in
which two operands are compared does not depend on their order, as no two types have the same rank,
but for `bool` and `int8` (`rank_eq_iff`). Between these two the left operand decides, so there an
`int8` operand that is no truth value may compare differently from both sides
(`BinaryOp.eq_depends_on_order`).
-/

namespace FieldCompute

/-! ## The common type -/

/-- The two types are `bool` and `int8`. -/
def Scalar.Tied (s t : Scalar) : Prop := s = .bool ∧ t = .int8 ∨ s = .int8 ∧ t = .bool

theorem Scalar.rank_eq_iff {s t : Scalar} : s.rank = t.rank ↔ s = t ∨ s.Tied t := by
  cases s <;> cases t <;> simp [rank, Tied, isFloat, isUnsigned, bytes]

theorem DType.common?_scalar (l r : Scalar) : (scalar l).common? (scalar r) =
    some (scalar (if r.rank ≤ l.rank then l else r)) := by
  change some (if r.rank ≤ l.rank then scalar l else scalar r) = _
  split <;> rfl

theorem DType.common?_comm {l r : Scalar} (h : ¬l.Tied r) :
    (scalar l).common? (scalar r) = (scalar r).common? (scalar l) := by
  rw [common?_scalar, common?_scalar]
  rcases Nat.lt_trichotomy l.rank r.rank with hlt | heq | hlt
  · rw [if_neg (by omega), if_pos (by omega)]
  · obtain rfl := (Scalar.rank_eq_iff.1 heq).resolve_right h
    rfl
  · rw [if_pos (by omega), if_neg (by omega)]

/-! ## Orders -/

/-- The integer stands for a truth value. -/
def Value.IsTruth (v : Value) : Prop := v = .int 0 ∨ v = .int 1

/-- The type decides the carrier. -/
theorem Value.dtype_cast (v : Value) (s : Scalar) : (v.cast s).dtype = (Value.zero s).dtype := by
  cases v <;> cases s <;> simp [cast, ofWhole, ofBinary, ofInt, zero, dtype, Scalar.isSigned,
    Scalar.isUnsigned, Scalar.isBool]

namespace BinaryOp

/-- The comparison that holds of `b` and `a` where this one holds of `a` and `b`. -/
def mirrored : BinaryOp → BinaryOp
  | lt => gt
  | le => ge
  | gt => lt
  | ge => le
  | op => op

theorem isComparison_mirrored (op : BinaryOp) : op.mirrored.isComparison = op.isComparison := by
  cases op <;> rfl

theorem holds_mirrored (op : BinaryOp) (o : Option Ordering) :
    op.mirrored.holds (o.map Ordering.swap) = op.holds o := by
  obtain _ | _ | _ | _ := o <;> cases op <;> rfl

theorem order?_swap (a b : Value) :
    order? b a = (order? a b).map (Option.map Ordering.swap) := by
  have hcompare {α : Type} [Ord α] [Std.OrientedOrd α] (x y : α) :
      compare y x = (compare x y).swap := Std.OrientedCmp.eq_swap
  cases a <;> cases b <;> simp only [order?, Option.map_some, Option.map_none]
  case float.float x y =>
    simp only [Binary64.compare?, Bool.or_comm y.isNaN]
    split
    · rfl
    · rw [Option.map_some, ← hcompare]
  all_goals rw [← hcompare]

/-- Two constants of one carrier compare somehow. -/
theorem exists_order? {a b : Value} (h : a.dtype = b.dtype) : ∃ o, order? a b = some o := by
  cases a <;> cases b <;> first | exact ⟨_, rfl⟩ | cases h

/-! ## Operands in the common type -/

/-- The operands, read as their types, compare like this in their common type. -/
def Ordered (a : Value) (l : Scalar) (b : Value) (r : Scalar) (o : Option Ordering) : Prop :=
  ∃ w, (DType.scalar l).common? (.scalar r) = some (.scalar w) ∧
    order? ((a.cast l).cast w) ((b.cast r).cast w) = some o

variable {op : BinaryOp} {a b : Value} {l r : Scalar} {o : Option Ordering}

theorem eval?_of_ordered (hop : op.isComparison = true) (h : Ordered a l b r o) (ret : Scalar) :
    op.eval? a (.scalar l) b (.scalar r) (.scalar ret) =
      some ((Value.bool (op.holds o)).cast ret) := by
  obtain ⟨w, hw, ho⟩ := h
  simp only [eval?, workType?, hop, if_true, hw, Value.castTo?_scalar, onValues?, ho,
    Option.bind_eq_bind, Option.bind_some, Option.map_some]

theorem exists_ordered (a b : Value) (l r : Scalar) : ∃ o, Ordered a l b r o := by
  obtain ⟨o, ho⟩ := exists_order? (((a.cast l).dtype_cast _).trans ((b.cast r).dtype_cast _).symm)
  exact ⟨o, _, DType.common?_scalar l r, ho⟩

/-- An `int8` that is a truth value compares with a `bool` the same way as `int8` and as `bool`. -/
theorem Ordered.mirrored_of_truth (hx : (a.cast .int8).IsTruth) (h : Ordered a .int8 b .bool o) :
    Ordered b .bool a .int8 (o.map Ordering.swap) := by
  obtain ⟨w, hw, ho⟩ := h
  obtain rfl : w = .int8 := by
    rw [DType.common?_scalar] at hw
    cases hw
    rfl
  refine ⟨.bool, by rw [DType.common?_scalar]; rfl, ?_⟩
  obtain ⟨c, hc⟩ := Value.cast_bool b
  rw [hc] at ho ⊢
  rcases hx with hx | hx <;> rw [hx] at ho ⊢ <;> cases c <;> cases ho <;> rfl

theorem Ordered.mirrored (hl : l = .int8 → r = .bool → (a.cast .int8).IsTruth)
    (hr : l = .bool → r = .int8 → (b.cast .int8).IsTruth) (h : Ordered a l b r o) :
    Ordered b r a l (o.map Ordering.swap) := by
  by_cases ht : l.Tied r
  · rcases ht with ⟨rfl, rfl⟩ | ⟨rfl, rfl⟩
    · -- Read from the other side, where the `int8` operand is the left one.
      obtain ⟨o', ho'⟩ := exists_ordered b a .int8 .bool
      obtain ⟨w, hw, h⟩ := h
      obtain ⟨w', hw', h'⟩ := ho'.mirrored_of_truth (hr rfl rfl)
      cases hw.symm.trans hw'
      cases h.symm.trans h'
      have hswap : (o'.map Ordering.swap).map Ordering.swap = o' := by
        obtain _ | _ | _ | _ := o' <;> rfl
      rwa [hswap]
    · exact h.mirrored_of_truth (hl rfl rfl)
  · obtain ⟨w, hw, ho⟩ := h
    refine ⟨w, by rw [← DType.common?_comm ht, hw], ?_⟩
    rw [order?_swap, ho, Option.map_some]

/-! ## Comparisons -/

/-- A comparison is defined on all values of all types, and gives what the mirrored one gives when
the operands are swapped together with their types: `lt` as `gt`, `le` as `ge`, `eq` as `eq` and
`ne` as `ne`, on NaNs, too. Where an `int8` meets a `bool` it has to be a truth value. -/
theorem comparison_mirrored (hop : op.isComparison = true) (a b : Value) (l r ret : Scalar)
    (hl : l = .int8 → r = .bool → (a.cast .int8).IsTruth)
    (hr : l = .bool → r = .int8 → (b.cast .int8).IsTruth) :
    ∃ v, op.eval? a (.scalar l) b (.scalar r) (.scalar ret) = some v ∧
      op.mirrored.eval? b (.scalar r) a (.scalar l) (.scalar ret) = some v := by
  obtain ⟨o, ho⟩ := exists_ordered a b l r
  refine ⟨_, eval?_of_ordered hop ho ret, ?_⟩
  rw [eval?_of_ordered (by rwa [isComparison_mirrored]) (ho.mirrored hl hr), holds_mirrored]

/-- As an `int8` the number 257 is a truth value, above `false` from both sides. -/
theorem comparison_mirrored_truth :
    ((Value.int 257).cast .int8).IsTruth ∧
    lt.eval? (.bool false) (.scalar .bool) (.int 257) (.scalar .int8) (.scalar .int32) =
      some (.int 1) ∧
    gt.eval? (.int 257) (.scalar .int8) (.bool false) (.scalar .bool) (.scalar .int32) =
      some (.int 1) := by
  have htruth : ((Value.int 257).cast .int8).IsTruth := .inr (by decide)
  have hlt : lt.isComparison = true := rfl
  obtain ⟨v, hv, hv'⟩ := comparison_mirrored hlt (.bool false) (.int 257) .bool .int8 .int32
    (fun h => by cases h) (fun _ _ => htruth)
  have hone : lt.eval? (.bool false) (.scalar .bool) (.int 257) (.scalar .int8) (.scalar .int32) =
      some (.int 1) := by decide
  obtain rfl := Option.some.inj (hv.symm.trans hone)
  exact ⟨htruth, hone, hv'⟩

/-- The `int8` 2 is not equal to `true`, but `true` is equal to the `int8` 2. -/
theorem eq_depends_on_order :
    eq.eval? (.int 2) (.scalar .int8) (.bool true) (.scalar .bool) (.scalar .bool) =
      some (.bool false) ∧
    eq.eval? (.bool true) (.scalar .bool) (.int 2) (.scalar .int8) (.scalar .bool) =
      some (.bool true) := by decide

end BinaryOp

end FieldCompute
