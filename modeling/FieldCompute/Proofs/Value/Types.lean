import FieldCompute.Proofs.Value.Casts
import FieldCompute.Value.Arithmetic
/-!
# Values of a type

A value is of a type if a cast to that type leaves it alone. Casts, words and bytes give values of
their type, and operators give values of the declared result type.
-/

namespace FieldCompute

/-- A cast to the type leaves the value alone; no value is of type void. -/
def Value.HasType (v : Value) (d : DType) : Prop := v.castTo? d = some v

instance (v : Value) (d : DType) : Decidable (v.HasType d) :=
  inferInstanceAs (Decidable (v.castTo? d = some v))

namespace Value

variable {v w : Value} {d : DType} {s : Scalar}

theorem hasType_scalar_iff : v.HasType (.scalar s) ↔ v.cast s = v := by simp [HasType]

theorem hasType_of_castTo? (h : v.castTo? d = some w) : w.HasType d := by
  cases d with
  | void => cases h
  | scalar s =>
    cases h
    exact hasType_scalar_iff.2 (cast_cast v s)

/-- What a word stands for is of the type that it is read as. -/
theorem cast_ofWord (s : Scalar) (w : UInt64) : (ofWord s w).cast s = ofWord s w := by
  rcases scalar_cases s with hs | rfl | rfl | rfl
  · rw [ofWord_of_isInt hs, cast_ofInt_self hs]
  · change ofWhole .bool _ = .bool _
    cases decide (w.toNat % 2 = 1) <;> rfl
  · have hlt : w.toNat % 2 ^ 32 < 2 ^ 32 := Nat.mod_lt _ (by decide)
    exact congrArg float (Binary64.toSingle_widen hlt)
  · rfl

theorem ofBytes_hasType (s : Scalar) (bytes : List UInt8) :
    (ofBytes s bytes).HasType (.scalar s) :=
  hasType_scalar_iff.2 (cast_ofWord s _)

end Value

/-! ## Operators -/

theorem UnaryOp.eval?_hasType {op : UnaryOp} {v r : Value} {operand ret : DType}
    (h : op.eval? v operand ret = some r) : r.HasType ret := by
  simp only [eval?, Option.bind_eq_bind, Option.bind_eq_some_iff] at h
  obtain ⟨_, -, _, -, _, -, hr⟩ := h
  exact Value.hasType_of_castTo? hr

theorem BinaryOp.eval?_hasType {op : BinaryOp} {a b r : Value} {lhs rhs ret : DType}
    (h : op.eval? a lhs b rhs ret = some r) : r.HasType ret := by
  simp only [eval?, Option.bind_eq_bind, Option.bind_eq_some_iff] at h
  obtain ⟨_, -, _, -, _, -, _, -, _, -, _, -, hr⟩ := h
  exact Value.hasType_of_castTo? hr

end FieldCompute
