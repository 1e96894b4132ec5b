import FieldCompute.Proofs.Launch.Effects
import FieldCompute.Proofs.Value.Casts
/-!
# One statement at a time

What each kind of statement does when its operands have values. A run through a given body is put
together from these.
-/

namespace FieldCompute

namespace ResultSlots

theorem store_of_lt (s : ResultSlots) {slot : Nat} (h : slot < 32) (w : UInt64) :
    s.store slot w = .ok ⟨s.words.set slot w h⟩ := by rw [store, dif_pos h]; rfl

theorem load_set (s : ResultSlots) {slot : Nat} (h : slot < 32) (w : UInt64) :
    (⟨s.words.set slot w h⟩ : ResultSlots).load slot = .ok w := by
  simp [load, Vector.getElem?_eq_getElem h]

theorem exists_load (s : ResultSlots) {slot : Nat} (h : slot < 32) : ∃ w, s.load slot = .ok w :=
  ⟨s.words[slot], by simp [load, Vector.getElem?_eq_getElem h]⟩

end ResultSlots

/-- The machine with a word left for the host, in slot 0. -/
def Machine.answer (m : Machine) (w : UInt64) : Machine :=
  { m with slots := ⟨m.slots.words.set 0 w⟩ }

@[simp] theorem Machine.load_answer (m : Machine) (w : UInt64) :
    (m.answer w).slots.load 0 = .ok w := ResultSlots.load_set _ (by decide) w

namespace Launch

variable {l : Launch} {values : Values} {m : Machine} {d : DType}

theorem runFrom_of_ok {s : Stmt} {rest : List Stmt} {v : Option Value} {n : Machine}
    (h : l.step m values s = .ok (v, n)) :
    l.runFrom values m (s :: rest) = l.runFrom (values.push v) n rest := by rw [runFrom, h]

theorem runFrom_of_error {s : Stmt} {rest : List Stmt} {f : Failure}
    (h : l.step m values s = .error f) :
    l.runFrom values m (s :: rest) = (.error ⟨values.size, f⟩, m) := by rw [runFrom, h]

theorem operand_of_some {s : Stmt} {o : Nat} {v : Value} (h : values[o]? = some (some v)) :
    l.operand values s o = .ok v := by
  simp [operand, h, defined]

theorem index_of_some {s : Stmt} {o : Nat} {v : Value} {i : Int} (h : values[o]? = some (some v))
    (hi : v.index? = some i) : l.index values s o = .ok i := by
  rw [index, operand_of_some h, Outcome.ok_bind, hi]
  rfl

theorem step_arg {i : Nat} {v : Value} {s : Scalar} (h : l.args[i]? = some v) :
    l.step m values (.arg i (.scalar s)) = .ok (some (v.cast s), m) := by
  simp [step, evaluate, affect, defined, h]

theorem step_unary {op : UnaryOp} {a : Nat} {v : Value} (ha : values[a]? = some (some v)) :
    l.step m values (.unary op a d) =
      match op.eval? v (l.body.dtypeAt a) d with
      | some r => .ok (some r, m)
      | none => .error (l.cannotEvaluate ((Stmt.unary op a d).labelled values.size)) := by
  simp only [step, evaluate, affect, operand_of_some ha, Outcome.ok_bind]
  cases op.eval? v (l.body.dtypeAt a) d <;> rfl

theorem step_binary {op : BinaryOp} {a b : Nat} {v w : Value} (ha : values[a]? = some (some v))
    (hb : values[b]? = some (some w)) :
    l.step m values (.binary op a b d) =
      match op.eval? v (l.body.dtypeAt a) w (l.body.dtypeAt b) d with
      | some r => .ok (some r, m)
      | none => .error (l.cannotEvaluate ((Stmt.binary op a b d).labelled values.size)) := by
  simp only [step, evaluate, affect, operand_of_some ha, operand_of_some hb, Outcome.ok_bind]
  cases op.eval? v (l.body.dtypeAt a) w (l.body.dtypeAt b) d <;> rfl

theorem step_ret {slot a : Nat} {v : Value} {s : Scalar} (ha : values[a]? = some (some v))
    (hd : l.body.dtypeAt a = .scalar s) (hs : slot < 32) :
    l.step m values (.ret slot a) =
      .ok (none, { m with slots := ⟨m.slots.words.set slot ((v.cast s).word s) hs⟩ }) := by
  simp [step, evaluate, affect, operand_of_some ha, hd, Value.encode?, DType.scalar?, defined,
    ResultSlots.store_of_lt _ hs]

theorem step_load {place : NodeId} {is : List StmtId} {indices : List Int}
    (hi : is.mapM (l.index values (.load place is d)) = .ok indices) :
    l.step m values (.load place is d) =
      match l.locate place indices with
      | .error f => .error f
      | .ok (scalar, p) =>
        match m.device.read p scalar.bytes with
        | .error e => .error (.device e)
        | .ok bytes => .ok (some (.ofBytes scalar bytes), m) := by
  simp only [step, evaluate, affect, hi, Outcome.ok_bind]
  obtain _ | ⟨scalar, p⟩ := l.locate place indices
  · rfl
  · simp only [Outcome.ok_bind]
    cases m.device.read p scalar.bytes <;> rfl

theorem step_store {place : NodeId} {is : List StmtId} {indices : List Int} {o : StmtId} {v : Value}
    (hi : is.mapM (l.index values (.store place is o)) = .ok indices)
    (hv : values[o]? = some (some v)) :
    l.step m values (.store place is o) =
      match l.locate place indices with
      | .error f => .error f
      | .ok (scalar, p) =>
        match m.device.write p (v.toBytes scalar) with
        | .error e => .error (.device e)
        | .ok device => .ok (none, { m with device }) := by
  simp only [step, evaluate, affect, hi, operand_of_some hv, Outcome.ok_bind, Outcome.pure_eq]
  obtain _ | ⟨scalar, p⟩ := l.locate place indices
  · rfl
  · simp only [Outcome.ok_bind]
    cases m.device.write p (v.toBytes scalar) <;> rfl

end Launch

end FieldCompute
