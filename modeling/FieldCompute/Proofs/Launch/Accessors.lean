import FieldCompute.Program.Fields
import FieldCompute.Proofs.Launch.Lowering
import FieldCompute.Proofs.Launch.Steps
/-!
# Accessor kernels

The two kernels of a place lower as they are (`Accessor.lower_kernel`). They take their indices as
`int32` arguments, so an index counts as its low 32 bits (`asIndex`). Run on an index tuple, the
reader leaves the word of the element in slot 0 (`run_reader`), the writer changes the bytes of the
element alone (`run_writer`), and without such an element neither changes anything
(`run_unlocated`).
-/

namespace FieldCompute

/-- The number survives the cast to the type of the index arguments. -/
def IsIndex (i : Int) : Prop := -2 ^ 31 ≤ i ∧ i < 2 ^ 31

instance (i : Int) : Decidable (IsIndex i) := inferInstanceAs (Decidable (_ ∧ _))

/-- What an index comes to as an argument. -/
def asIndex (i : Int) : Int := i.bmod (2 ^ 32)

theorem index?_cast (i : Int) :
    ((Value.int (Int64.ofInt i)).cast .int32).index? = some (asIndex i) := by
  have hi : (Int64.ofInt i).toInt = i.bmod (2 ^ 64) := Int64.toInt_ofInt
  obtain ⟨n, hn, hn'⟩ := Value.ofInt_of_signed (s := .int32) rfl (i.bmod (2 ^ 64))
  obtain ⟨m, hm, hm'⟩ := Value.ofInt_of_signed (s := .int64) rfl n.toInt
  have hcast : (Value.int (Int64.ofInt i)).cast .int32 = .int n := by
    rw [Value.cast, hi, Value.ofWhole_of_isInt rfl, hn]
  have hcast' : (Value.int n).cast .int64 = .int m := by
    rw [Value.cast, Value.ofWhole_of_isInt rfl, hm]
  rw [hcast, Value.index?, hcast']
  simp only [Option.some.injEq, hm', hn', Scalar.width, Scalar.bytes, asIndex, Int.bmod]
  omega

theorem IsIndex.asIndex_eq {i : Int} (h : IsIndex i) : asIndex i = i := by
  unfold IsIndex at h
  simp only [asIndex, Int.bmod]
  omega

theorem map_asIndex {indices : List Int} (h : ∀ i ∈ indices, IsIndex i) :
    indices.map asIndex = indices :=
  (List.map_congr_left fun i hi => (h i hi).asIndex_eq).trans (List.map_id _)

namespace Accessor

open Program (indexArgs)

variable {a : Accessor} {p : Place} {id : Nat}

/-! ## The bodies -/

/-- The statements that read the index arguments. -/
def axes (n : Nat) : Block := (List.range n).map fun i => .arg i (.scalar .int32)

/-- The statement behind them. -/
def access (a : Accessor) (p : Place) : Stmt :=
  match a with
  | reader => .load p.id (List.range p.shape.length) (.scalar p.scalar)
  | writer => .arg p.shape.length (.scalar p.scalar)

/-- The last statement. -/
def effect (a : Accessor) (p : Place) : Stmt :=
  match a with
  | reader => .ret 0 p.shape.length
  | writer => .store p.id (List.range p.shape.length) p.shape.length

/-- The types of what the kernel takes behind the indices. -/
def inputs (a : Accessor) (p : Place) : List DType :=
  match a with
  | reader => []
  | writer => [.scalar p.scalar]

/-- The types of what the kernel returns. -/
def outputs (a : Accessor) (p : Place) : List DType :=
  match a with
  | reader => [.scalar p.scalar]
  | writer => []

@[simp] theorem length_axes (n : Nat) : (axes n).length = n := by simp [axes]

theorem foldl_axes (n : Nat) :
    (List.replicate n (DraftStep.arg (.scalar .int32))).foldl KernelDraft.extend .empty =
      ⟨axes n, List.replicate n (.scalar .int32), []⟩ := by
  induction n with
  | zero => rfl
  | succ n ih =>
    rw [List.replicate_succ', List.foldl_append, ih, List.replicate_succ']
    simp [KernelDraft.extend, KernelDraft.emit, axes, List.range_succ]

theorem kernel_body (a : Accessor) (p : Place) (id : Nat) :
    (a.kernel p id).body = axes p.shape.length ++ [a.access p, a.effect p] := by
  cases a <;>
  · simp only [kernel, Kernel.create, KernelDraft.ofSteps, steps, List.foldl_append, foldl_axes]
    simp [KernelDraft.extend, KernelDraft.emit, access, effect]

theorem kernel_args (a : Accessor) (p : Place) (id : Nat) :
    (a.kernel p id).args = List.replicate p.shape.length (.scalar .int32) ++
      match a with
      | reader => []
      | writer => [.scalar p.scalar] := by
  cases a <;>
  · simp only [kernel, Kernel.create, KernelDraft.ofSteps, steps, List.foldl_append, foldl_axes]
    simp [KernelDraft.extend, KernelDraft.emit]

/-- What stands at a position of the body. -/
theorem body_cases {i : Nat} {s : Stmt} (h : (a.kernel p id).body[i]? = some s) :
    (i < p.shape.length ∧ s = .arg i (.scalar .int32)) ∨
    (i = p.shape.length ∧ s = a.access p) ∨ (i = p.shape.length + 1 ∧ s = a.effect p) := by
  rw [kernel_body, List.getElem?_append] at h
  split at h
  · rename_i hi
    rw [length_axes] at hi
    simp only [axes, List.getElem?_map, List.getElem?_range hi] at h
    cases h
    exact .inl ⟨hi, rfl⟩
  · rename_i hi
    rw [length_axes] at hi h
    obtain ⟨j, rfl⟩ := Nat.exists_eq_add_of_le (Nat.le_of_not_lt hi)
    rw [Nat.add_sub_cancel_left] at h
    match j, h with
    | 0, h => cases h; exact .inr (.inl ⟨rfl, rfl⟩)
    | 1, h => cases h; exact .inr (.inr ⟨rfl, rfl⟩)

theorem body_axis {i : Nat} (h : i < p.shape.length) :
    (a.kernel p id).body[i]? = some (.arg i (.scalar .int32)) := by
  rw [kernel_body, List.getElem?_append_left (by simpa using h)]
  simp [axes, h]

theorem body_access : (a.kernel p id).body[p.shape.length]? = some (a.access p) := by
  simp [kernel_body]

theorem body_effect : (a.kernel p id).body[p.shape.length + 1]? = some (a.effect p) := by
  simp [kernel_body]

theorem lt_of_mem_access {o : Nat} (h : o ∈ (a.access p).operands) : o < p.shape.length := by
  cases a with
  | reader => simpa [access, Stmt.operands] using h
  | writer => simp [access, Stmt.operands] at h

theorem le_of_mem_effect {o : Nat} (h : o ∈ (a.effect p).operands) : o ≤ p.shape.length := by
  cases a with
  | reader => exact Nat.le_of_eq (List.mem_singleton.1 h)
  | writer =>
    rcases List.mem_append.1 h with h | h
    · exact Nat.le_of_lt (List.mem_range.1 h)
    · exact Nat.le_of_eq (List.mem_singleton.1 h)

theorem dtypeAt_access : (a.kernel p id).body.dtypeAt p.shape.length = .scalar p.scalar := by
  rw [Block.dtypeAt, body_access]
  cases a <;> rfl

theorem rets_reader (p : Place) (id : Nat) : (reader.kernel p id).rets = [.scalar p.scalar] := by
  simp only [kernel, Kernel.create, KernelDraft.ofSteps, steps, List.foldl_append, foldl_axes]
  simp [KernelDraft.extend, KernelDraft.emit, Block.dtypeAt, Stmt.dtype]

theorem rets_writer (p : Place) (id : Nat) : (writer.kernel p id).rets = [] := by
  simp only [kernel, Kernel.create, KernelDraft.ofSteps, steps, List.foldl_append, foldl_axes]
  simp [KernelDraft.extend, KernelDraft.emit]

theorem kernel_inputs (a : Accessor) (p : Place) (id : Nat) :
    (a.kernel p id).args = List.replicate p.shape.length (.scalar .int32) ++ a.inputs p := by
  rw [kernel_args]
  cases a <;> rfl

theorem kernel_outputs (a : Accessor) (p : Place) (id : Nat) :
    (a.kernel p id).rets = a.outputs p := by
  cases a with
  | reader => exact rets_reader p id
  | writer => exact rets_writer p id

/-- An accessor kernel tells what it does and to which place. -/
theorem kernel_inj {a b : Accessor} {p q : Place} {i j : Nat}
    (hr : (a.kernel p i).rets = (b.kernel q j).rets)
    (hb : (a.kernel p i).body = (b.kernel q j).body) : a = b ∧ p.id = q.id := by
  rw [kernel_body, kernel_body] at hb
  have hlast := (List.append_inj' hb rfl).2
  cases a <;> cases b
  · refine ⟨rfl, ?_⟩
    have haccess := (List.cons.inj hlast).1
    rw [access, access, Stmt.load.injEq] at haccess
    exact haccess.1
  · rw [rets_reader, rets_writer] at hr
    cases hr
  · rw [rets_reader, rets_writer] at hr
    cases hr
  · refine ⟨rfl, ?_⟩
    have heffect := (List.cons.inj (List.cons.inj hlast).2).1
    rw [effect, effect, Stmt.store.injEq] at heffect
    exact heffect.1

/-! ## Lowering -/

theorem wellFormed (a : Accessor) (p : Place) (id : Nat) :
    (a.kernel p id).body.WellFormed (a.kernel p id).args (a.kernel p id).rets.length where
  earlier i s h o ho := by
    rcases body_cases h with ⟨-, rfl⟩ | ⟨rfl, rfl⟩ | ⟨rfl, rfl⟩
    · simp [Stmt.operands] at ho
    · exact lt_of_mem_access ho
    · exact Nat.lt_succ_of_le (le_of_mem_effect ho)
  valued i s h o ho := by
    have hle : o ≤ p.shape.length := by
      rcases body_cases h with ⟨-, rfl⟩ | ⟨rfl, rfl⟩ | ⟨rfl, rfl⟩
      · simp [Stmt.operands] at ho
      · exact Nat.le_of_lt (lt_of_mem_access ho)
      · exact le_of_mem_effect ho
    rcases Nat.lt_or_eq_of_le hle with hlt | rfl
    · simp [Block.dtypeAt, body_axis hlt, Stmt.dtype]
    · simp [dtypeAt_access]
  declared i s h := by
    rcases body_cases h with ⟨hi, rfl⟩ | ⟨rfl, rfl⟩ | ⟨rfl, rfl⟩
    · change (a.kernel p id).args[i]? = _
      rw [kernel_args, List.getElem?_append_left (by simpa using hi)]
      simp [hi]
    · cases a with
      | reader => simp [access, Stmt.Declared, Stmt.dtype]
      | writer => simp [access, Stmt.Declared, kernel_args]
    · cases a with
      | reader => simp [effect, Stmt.Declared, rets_reader]
      | writer => trivial

/-- Everything is there for the last statement. -/
theorem live {i : Nat} {s : Stmt} (h : (a.kernel p id).body[i]? = some s) :
    Block.isLive (Block.marks (a.kernel p id).body 0) s i = true := by
  have hb := (wellFormed a p id).ordered
  -- It has an effect, it mentions the statement before it, and the two mention all axes.
  have hlast : Block.isLive (Block.marks (a.kernel p id).body 0) (a.effect p)
      (p.shape.length + 1) = true := by cases a <;> simp [Block.isLive, effect, Stmt.hasEffect]
  have hmarked := Block.operand_marked hb body_effect hlast
  have haccess : p.shape.length ∈ Block.marks (a.kernel p id).body 0 :=
    hmarked _ (by cases a <;> simp [effect, Stmt.operands])
  rcases body_cases h with ⟨hi, rfl⟩ | ⟨rfl, rfl⟩ | ⟨rfl, rfl⟩
  · have haxis : i ∈ Block.marks (a.kernel p id).body 0 := by
      cases a with
      | reader =>
        refine Block.operand_marked hb body_access (by simp [Block.isLive, haccess]) i ?_
        simpa [access, Stmt.operands] using hi
      | writer => exact hmarked i (by simpa [effect, Stmt.operands] using .inl hi)
    simp [Block.isLive, haxis]
  · simp [Block.isLive, haccess]
  · exact hlast

/-- With or without optimization the body is lowered as it is. -/
theorem lower_kernel (a : Accessor) (p : Place) (id : Nat) (optimize : Bool) :
    (a.kernel p id).lower optimize = .ok (a.kernel p id).body := by
  have hw := wellFormed a p id
  have hrets : (a.kernel p id).rets.length ≤ 32 := by
    cases a with
    | reader => simp [rets_reader]
    | writer => simp [rets_writer]
  rw [Kernel.lower_of_wellFormed hw hrets]
  cases optimize with
  | true => exact congrArg Except.ok (Block.dropDead_eq_self hw.ordered fun _ _ => live)
  | false => rfl

theorem reader_storeless (p : Place) (id : Nat) : (reader.kernel p id).body.Storeless := by
  intro s hs
  obtain ⟨i, hi⟩ := List.mem_iff_getElem?.1 hs
  rcases body_cases hi with ⟨-, rfl⟩ | ⟨-, rfl⟩ | ⟨-, rfl⟩ <;> rfl

/-! ## Runs -/

section Runs

variable {l : Launch} {m : Machine} {indices : List Int} {scalar : Scalar} {q : Pointer}

/-- The values of the first statements. -/
def axisValues (indices : List Int) : Launch.Values :=
  (indices.map fun i => some ((Value.int (Int64.ofInt i)).cast .int32)).toArray

theorem runFrom_axes {values : Launch.Values} {args more : List Value} {rest : List Stmt}
    (h : l.args.drop values.size = args ++ more) :
    l.runFrom values m
        (((List.range' values.size args.length).map fun i => .arg i (.scalar .int32)) ++ rest) =
      l.runFrom (values ++ (args.map fun v => some (v.cast .int32)).toArray) m rest := by
  induction args generalizing values with
  | nil => simp
  | cons v args ih =>
    have hv : l.args[values.size]? = some v := by
      have := congrArg List.head? h
      simpa [List.head?_drop] using this
    have hrest : l.args.drop (values.push (some (v.cast .int32))).size = args ++ more := by
      rw [Array.size_push, ← List.drop_drop, h]
      rfl
    rw [List.length_cons, List.range'_succ, List.map_cons, List.cons_append,
      Launch.runFrom_of_ok (Launch.step_arg hv)]
    have ih := ih hrest
    rw [Array.size_push] at ih
    rw [ih]
    simp

theorem run_accessor (hb : l.body = (a.kernel p id).body) {more : List Value}
    (hargs : l.args = indexArgs indices ++ more) (hn : indices.length = p.shape.length) :
    l.run m = l.runFrom (axisValues indices) m [a.access p, a.effect p] := by
  have h := @runFrom_axes l m #[] (indexArgs indices) more [a.access p, a.effect p] hargs
  have hlen : (indexArgs indices).length = p.shape.length := by simpa [indexArgs] using hn
  rw [Launch.run, hb, kernel_body, axes, List.range_eq_range', ← hlen]
  refine h.trans ?_
  rw [Array.empty_append, indexArgs, List.map_map]
  rfl

theorem indices_of_axes (hn : indices.length = p.shape.length) (values : Launch.Values)
    (hv : ∀ o < indices.length, values[o]? = (axisValues indices)[o]?) (s : Stmt) :
    (List.range p.shape.length).mapM (l.index values s) = .ok (indices.map asIndex) := by
  refine Outcome.mapM_eq_ok_iff.2 (List.forall₂_iff_get.2 ⟨by simp [hn], fun o h h' => ?_⟩)
  have ho : (List.range p.shape.length).get ⟨o, h⟩ = o := by simp
  have hlt : o < indices.length := by simpa using h'
  rw [ho]
  simp only [List.get_eq_getElem, List.getElem_map]
  refine Launch.index_of_some (v := (Value.int (Int64.ofInt indices[o])).cast .int32) ?_
    (index?_cast _)
  rw [hv o hlt]
  simp [axisValues, hlt]

/-- What the reader comes to: it leaves the word of the element in slot 0. -/
theorem run_reader (hb : l.body = (reader.kernel p id).body) (hargs : l.args = indexArgs indices)
    (hn : indices.length = p.shape.length) :
    l.run m =
      match l.locate p.id (indices.map asIndex) with
      | .error f => (.error ⟨p.shape.length, f⟩, m)
      | .ok (scalar, q) =>
        match m.device.read q scalar.bytes with
        | .error e => (.error ⟨p.shape.length, .device e⟩, m)
        | .ok bytes =>
          (.ok (), m.answer (((Value.ofBytes scalar bytes).cast p.scalar).word p.scalar)) := by
  have hsize : (axisValues indices).size = p.shape.length := by simpa [axisValues] using hn
  have hindices := indices_of_axes (l := l) hn (axisValues indices) (fun _ _ => rfl)
    (reader.access p)
  have hload := Launch.step_load (m := m) hindices
  have hd : l.body.dtypeAt p.shape.length = .scalar p.scalar := by rw [hb, dtypeAt_access]
  rw [← List.append_nil (indexArgs indices)] at hargs
  rw [run_accessor hb hargs hn, Launch.runFrom, access, hload]
  cases l.locate p.id (indices.map asIndex) with
  | error f => simp only [hsize]
  | ok r =>
    obtain ⟨scalar, q⟩ := r
    simp only
    cases m.device.read q scalar.bytes with
    | error e => simp only [hsize]
    | ok bytes =>
      have hvalue : ((axisValues indices).push (some (.ofBytes scalar bytes)))[p.shape.length]? =
          some (some (.ofBytes scalar bytes)) := by rw [← hsize, Array.getElem?_push_size]
      simp only
      rw [effect, Launch.runFrom_of_ok (Launch.step_ret hvalue hd (by decide))]
      rfl

/-- What the writer comes to: it writes the value to the element. -/
theorem run_writer (hb : l.body = (writer.kernel p id).body) {v : Value}
    (hargs : l.args = indexArgs indices ++ [v]) (hn : indices.length = p.shape.length) :
    l.run m =
      match l.locate p.id (indices.map asIndex) with
      | .error f => (.error ⟨p.shape.length + 1, f⟩, m)
      | .ok (scalar, q) =>
        match m.device.write q ((v.cast p.scalar).toBytes scalar) with
        | .error e => (.error ⟨p.shape.length + 1, .device e⟩, m)
        | .ok device => (.ok (), { m with device }) := by
  have hsize : (axisValues indices).size = p.shape.length := by simpa [axisValues] using hn
  have hv : l.args[p.shape.length]? = some v := by
    rw [hargs, List.getElem?_append_right (by simp [indexArgs, hn])]
    simp [indexArgs, hn]
  have harg : l.step m (axisValues indices) (writer.access p) =
      .ok (some (v.cast p.scalar), m) := by rw [access, Launch.step_arg hv]
  have hindices := indices_of_axes (l := l) hn
    ((axisValues indices).push (some (v.cast p.scalar)))
    (fun o ho => by rw [Array.getElem?_push, if_neg (by omega)]) (writer.effect p)
  have hvalue : ((axisValues indices).push (some (v.cast p.scalar)))[p.shape.length]? =
      some (some (v.cast p.scalar)) := by rw [← hsize, Array.getElem?_push_size]
  -- Whether there is such an element shows only when the last statement locates it.
  have hstore := Launch.step_store (m := m) hindices hvalue
  rw [run_accessor hb hargs hn, Launch.runFrom_of_ok harg, Launch.runFrom, effect, hstore]
  cases l.locate p.id (indices.map asIndex) with
  | error f => simp only [Array.size_push, hsize]
  | ok r =>
    obtain ⟨scalar, q⟩ := r
    simp only
    cases m.device.write q ((v.cast p.scalar).toBytes scalar) with
    | error e => simp only [Array.size_push, hsize]
    | ok device => rfl

/-- The arguments of an access. The reader has no use for the value. -/
def arguments (a : Accessor) (indices : List Int) (v : Value) : List Value :=
  indexArgs indices ++
    match a with
    | reader => []
    | writer => [v]

theorem length_arguments (a : Accessor) (v : Value) (id : Nat) :
    (a.arguments indices v).length = (a.kernel p id).args.length ↔
      indices.length = p.shape.length := by
  cases a <;> simp [arguments, indexArgs, kernel_args]

/-- An access ends where there is no element, and nothing has changed. -/
theorem run_unlocated {v : Value} {f : Failure} (hb : l.body = (a.kernel p id).body)
    (hargs : l.args = a.arguments indices v) (hn : indices.length = p.shape.length)
    (hl : l.locate p.id (indices.map asIndex) = .error f) :
    ∃ position, l.run m = (.error ⟨position, f⟩, m) := by
  cases a with
  | reader =>
    rw [arguments, List.append_nil] at hargs
    exact ⟨_, by rw [run_reader hb hargs hn, hl]⟩
  | writer => exact ⟨_, by rw [run_writer hb hargs hn, hl]⟩

end Runs

end Accessor

end FieldCompute
