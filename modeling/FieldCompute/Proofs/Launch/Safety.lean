import FieldCompute.Proofs.Block.WellFormed
import FieldCompute.Proofs.Launch.Steps
import FieldCompute.Proofs.Tree.Layout
/-!
# Launches do not go wrong

A verified body that runs on fields with storage never gets stuck: every operand has a value, every
result slot exists, every access stays inside its allocation, and what can stop the run is a `Trap`.
`Steady` is what each statement keeps so (`Steady.step`); `safe` says it of the whole run.
-/

namespace FieldCompute

/-- The place that the statement reads or writes. -/
def Stmt.place? : Stmt → Option NodeId
  | load place _ _ | store place _ _ => some place
  | _ => none

theorem Value.exists_index? (v : Value) : ∃ i, v.index? = some i := by
  obtain ⟨i, hi⟩ := exists_cast_eq_ofInt (s := .int64) rfl v
  obtain ⟨n, hn, -⟩ := ofInt_of_signed (s := .int64) rfl i
  exact ⟨n.toInt, by rw [index?, hi, hn]⟩

/-- The field lies inside an allocation that is live on the device. -/
structure Binding.Lives (b : Binding) (d : Device) : Prop where
  fits : b.field.Fits
  live : ∃ data, d.memory.find? b.allocation.id = some data ∧ b.field.finish ≤ data.size

theorem Binding.Lives.rewritten {b : Binding} {d d' : Device} (h : b.Lives d)
    (hr : d.Rewritten d') : b.Lives d' := by
  obtain ⟨data, hd, hle⟩ := h.live
  have hsize := hr.size b.allocation.id
  rw [hd, Option.map_some, Option.map_eq_some_iff] at hsize
  obtain ⟨data', hd', hs⟩ := hsize
  exact ⟨h.fits, data', hd', hs ▸ hle⟩

namespace Launch

variable {l : Launch} {values : Values} {m n n' : Machine} {s : Stmt} {rest : List Stmt}
  {f : Failure}

/-! ## The states of a run -/

/-- The run comes to the statements `rest` with the values and the machine. -/
inductive Reaches (l : Launch) (m : Machine) : Values → Machine → List Stmt → Prop
  | start : Reaches l m #[] m l.body
  | step {values : Values} {n n' : Machine} {s : Stmt} {rest : List Stmt} {v : Option Value} :
    Reaches l m values n (s :: rest) → l.step n values s = .ok (v, n') →
    Reaches l m (values.push v) n' rest

/-- A run that ends early ends at a statement that fails. -/
theorem Reaches.halted (h : l.Reaches m values n rest) {halt : Halt}
    (hr : (l.runFrom values n rest).1 = .error halt) :
    ∃ values' n' s rest', l.Reaches m values' n' (s :: rest') ∧
      l.step n' values' s = .error halt.failure ∧ halt.position = values'.size := by
  induction rest generalizing values n with
  | nil => cases hr
  | cons s rest ih =>
    rw [runFrom] at hr
    cases hs : l.step n values s with
    | error f =>
      rw [hs] at hr
      cases hr
      exact ⟨values, n, s, rest, h, hs, rfl⟩
    | ok x =>
      rw [hs] at hr
      exact ih (h.step hs) hr

/-! ## Traps -/

/-- The statement asks for a value that there is none of. -/
inductive Undefined (l : Launch) (values : Values) : Stmt → Prop
  | unary {op : UnaryOp} {a : StmtId} {d : DType} {v : Value} :
    values[a]? = some (some v) → op.eval? v (l.body.dtypeAt a) d = none →
    Undefined l values (.unary op a d)
  | binary {op : BinaryOp} {a b : StmtId} {d : DType} {v w : Value} :
    values[a]? = some (some v) → values[b]? = some (some w) →
    op.eval? v (l.body.dtypeAt a) w (l.body.dtypeAt b) d = none →
    Undefined l values (.binary op a b d)
  | voidArg {i : Nat} : Undefined l values (.arg i .void)

/-- What a statement of a verified body may fail with. -/
inductive Trap (l : Launch) (values : Values) : Stmt → Failure → Prop
  | undefined {s : Stmt} : l.Undefined values s →
    Trap l values s (l.cannotEvaluate (s.labelled values.size))
  | notMaterialized {s : Stmt} {place : NodeId} :
    s.place? = some place → l.binding? place = none →
    Trap l values s (.error (.notMaterialized place))
  | outOfBounds {s : Stmt} {place : NodeId} {b : Binding} {indices : List Int} :
    s.place? = some place → l.binding? place = some b → b.field.elementOffset? indices = none →
    Trap l values s (.error (.outOfBounds l.kernel place indices b.field.place.shape))

/-! ## What each statement keeps -/

/-- A verified body with arguments of the right number, on fields that lie on the device. -/
structure Sound (l : Launch) (args : List DType) (numRets : Nat) (d : Device) : Prop where
  wellFormed : l.body.WellFormed args numRets
  count : l.args.length = args.length
  slots : numRets ≤ 32
  lives {place : NodeId} {b : Binding} : l.binding? place = some b → b.Lives d

/-- Every statement so far has given a value, if it is one that gives values. -/
structure Steady (l : Launch) (m : Machine) (values : Values) (n : Machine) (rest : List Stmt) :
    Prop where
  rest : l.body.drop values.size = rest
  valued {i : Nat} : i < values.size → l.body.dtypeAt i ≠ .void → ∃ v, values[i]? = some (some v)
  rewritten : m.device.Rewritten n.device

/-- A statement that is not declared void gives a value. -/
theorem evaluate_value {d : Device} {v : Option Value} (h : l.evaluate d values s = .ok v)
    (hs : s.dtype ≠ .void) : ∃ x, v = some x := by
  cases s with
  | store | ret => exact absurd rfl hs
  | load place is dtype =>
    simp only [evaluate, Outcome.bind_eq_ok_iff, Outcome.pure_eq, Except.ok.injEq] at h
    obtain ⟨_, -, ⟨_, _⟩, -, _, -, rfl⟩ := h
    exact ⟨_, rfl⟩
  | _ =>
    simp only [evaluate, Outcome.bind_eq_ok_iff, Outcome.map_eq_ok_iff] at h
    grind

theorem Steady.head (h : l.Steady m values n (s :: rest)) : l.body[values.size]? = some s := by
  have := congrArg List.head? h.rest
  simpa [List.head?_drop] using this

theorem Steady.step (h : l.Steady m values n (s :: rest)) {v : Option Value}
    (hs : l.step n values s = .ok (v, n')) : l.Steady m (values.push v) n' rest := by
  obtain ⟨hv, hn⟩ := step_cases hs
  refine ⟨?_, fun {i} hi hd => ?_, h.rewritten.trans (affect_cases hn).rewritten⟩
  · rw [Array.size_push, ← List.drop_drop, h.rest]
    rfl
  · rw [Array.size_push] at hi
    rcases Nat.lt_or_eq_of_le (Nat.lt_succ_iff.1 hi) with hlt | rfl
    · obtain ⟨x, hx⟩ := h.valued hlt hd
      exact ⟨x, by rw [Array.getElem?_push, if_neg (Nat.ne_of_lt hlt), hx]⟩
    · -- The latest value is that of the statement just run.
      have hdt : l.body.dtypeAt values.size = s.dtype := by simp [Block.dtypeAt, h.head]
      obtain ⟨x, rfl⟩ := evaluate_value hv (hdt ▸ hd)
      exact ⟨x, by simp⟩

theorem Reaches.steady (h : l.Reaches m values n rest) : l.Steady m values n rest := by
  induction h with
  | start => exact ⟨rfl, fun hi => by simp at hi, .refl _⟩
  | step _ hs ih => exact ih.step hs

/-! ## What can go wrong -/

section Statement

variable {args : List DType} {numRets : Nat}

theorem index_ok {o : StmtId} (h : ∃ v, values[o]? = some (some v)) :
    ∃ i, l.index values s o = .ok i := by
  obtain ⟨v, hv⟩ := h
  obtain ⟨i, hi⟩ := v.exists_index?
  exact ⟨i, index_of_some hv hi⟩

theorem indices_ok (is : List StmtId) (h : ∀ o ∈ is, ∃ v, values[o]? = some (some v)) :
    ∃ indices, is.mapM (l.index values s) = .ok indices := by
  cases hm : is.mapM (l.index values s) with
  | ok indices => exact ⟨indices, rfl⟩
  | error e =>
    obtain ⟨o, ho, he⟩ := Outcome.exists_of_mapM_eq_error hm
    obtain ⟨i, hi⟩ := index_ok (l := l) (s := s) (h o ho)
    rw [hi] at he
    cases he

/-- A place that cannot be located stops a statement that touches it. -/
theorem locate_trap {place : NodeId} {indices : List Int} (hp : s.place? = some place)
    (h : l.locate place indices = .error f) : l.Trap values s f := by
  unfold locate at h
  split at h
  · cases h
    exact .notMaterialized hp ‹_›
  · split at h <;> cases h
    exact .outOfBounds hp ‹_› ‹_›

/-- A located element can be read and written. -/
theorem Sound.span (h : l.Sound args numRets n.device) {place : NodeId} {indices : List Int}
    {scalar : Scalar} {p : Pointer} (hl : l.locate place indices = .ok (scalar, p)) :
    ∃ data, n.device.memory.find? p.allocation.id = some data ∧
      p.offset + scalar.bytes ≤ data.size := by
  unfold locate at hl
  split at hl
  · cases hl
  · rename_i b hb
    split at hl <;> cases hl
    rename_i offset ho
    obtain ⟨data, hd, hle⟩ := (h.lives hb).live
    exact ⟨data, hd, (b.field.elementOffset?_inside ho).2.trans hle⟩

/-- Whatever stops a statement of a verified body is a trap. -/
theorem Sound.trap (h : l.Sound args numRets n.device) (hs : s.Declared args numRets)
    (hd : ∀ o ∈ s.operands, l.body.dtypeAt o ≠ .void)
    (hv : ∀ o ∈ s.operands, ∃ v, values[o]? = some (some v))
    (hf : l.step n values s = .error f) : l.Trap values s f := by
  -- All operands have values, so a statement fails only where its own work has no result.
  cases s with
  | const v d =>
    obtain ⟨t, rfl⟩ := DType.exists_scalar hs
    simp [step, evaluate, affect, defined, Value.castTo?_scalar] at hf
  | arg i d =>
    obtain ⟨hi, -⟩ := List.getElem?_eq_some_iff.1 hs
    rw [← h.count] at hi
    cases d with
    | void =>
      simp [step, evaluate, defined, Value.castTo?, DType.scalar?] at hf
      exact hf ▸ .undefined .voidArg
    | scalar t =>
      rw [step_arg (List.getElem?_eq_getElem hi)] at hf
      cases hf
  | unary op a d =>
    obtain ⟨v, ha⟩ := hv a (by simp [Stmt.operands])
    rw [step_unary ha] at hf
    split at hf <;> cases hf
    exact .undefined (.unary ha ‹_›)
  | binary op a b d =>
    obtain ⟨v, ha⟩ := hv a (by simp [Stmt.operands])
    obtain ⟨w, hb⟩ := hv b (by simp [Stmt.operands])
    rw [step_binary ha hb] at hf
    split at hf <;> cases hf
    exact .undefined (.binary ha hb ‹_›)
  | cast a d =>
    obtain ⟨v, ha⟩ := hv a (by simp [Stmt.operands])
    obtain ⟨t, rfl⟩ := DType.exists_scalar hs
    simp [step, evaluate, affect, operand_of_some ha, defined, Value.castTo?_scalar] at hf
  | load place is d =>
    obtain ⟨indices, hi⟩ := indices_ok (l := l) (s := .load place is d) is hv
    rw [step_load hi] at hf
    split at hf
    · cases hf
      exact locate_trap rfl ‹_›
    · obtain ⟨data, hdata, hle⟩ := h.span ‹_›
      rw [Device.read_eq_ok_iff.2 ⟨data, hdata, hle, rfl⟩] at hf
      cases hf
  | store place is v =>
    obtain ⟨x, hx⟩ := hv v (by simp [Stmt.operands])
    obtain ⟨indices, hi⟩ := indices_ok (l := l) (s := .store place is v) is
      fun o ho => hv o (by simp [Stmt.operands, ho])
    rw [step_store hi hx] at hf
    split at hf
    · cases hf
      exact locate_trap rfl ‹_›
    · obtain ⟨data, hdata, hle⟩ := h.span ‹_›
      rw [Device.write_eq_ok_iff.2 ⟨data, hdata, by rwa [Value.length_toBytes], rfl⟩] at hf
      cases hf
  | ret slot v =>
    obtain ⟨x, hx⟩ := hv v (by simp [Stmt.operands])
    obtain ⟨t, ht⟩ := DType.exists_scalar (hd v (by simp [Stmt.operands]))
    rw [step_ret hx ht (Nat.lt_of_lt_of_le hs h.slots)] at hf
    cases hf

theorem Sound.rewritten {d d' : Device} (h : l.Sound args numRets d) (hr : d.Rewritten d') :
    l.Sound args numRets d' :=
  ⟨h.wellFormed, h.count, h.slots, fun hb => (h.lives hb).rewritten hr⟩

theorem Steady.operands (h : l.Steady m values n (s :: rest))
    (hb : l.body.WellFormed args numRets) :
    ∀ o ∈ s.operands, ∃ v, values[o]? = some (some v) := by
  intro o ho
  exact h.valued (hb.earlier _ s h.head o ho) (hb.valued _ s h.head o ho)

/-! ## Whole runs -/

/-- Nothing goes wrong on the way, and only traps end the run early. -/
structure Safe (l : Launch) (m : Machine) : Prop where
  operands {values : Values} {n : Machine} {s : Stmt} {rest : List Stmt} :
    l.Reaches m values n (s :: rest) → ∀ o ∈ s.operands, ∃ v, values[o]? = some (some v)
  slots {values : Values} {n : Machine} {slot : Nat} {o : StmtId} {rest : List Stmt} :
    l.Reaches m values n (.ret slot o :: rest) → slot < 32
  offsets {place : NodeId} {b : Binding} : l.binding? place = some b →
    ∀ indices, b.field.checkedOffset indices = some (b.field.elementOffset? indices)
  traps {values : Values} {n : Machine} {s : Stmt} {rest : List Stmt} {f : Failure} :
    l.Reaches m values n (s :: rest) → l.step n values s = .error f → l.Trap values s f

theorem Sound.safe (h : l.Sound args numRets m.device) : l.Safe m where
  operands hr := hr.steady.operands h.wellFormed
  slots hr := Nat.lt_of_lt_of_le (h.wellFormed.declared _ _ hr.steady.head) h.slots
  offsets hb := (h.lives hb).fits.checkedOffset_eq
  traps {_ n s _ _} hr hs := by
    have hst := hr.steady
    exact (h.rewritten hst.rewritten).trap (h.wellFormed.declared _ s hst.head)
      (h.wellFormed.valued _ s hst.head) (hst.operands h.wellFormed) hs

end Statement

end Launch

end FieldCompute
