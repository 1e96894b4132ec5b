import FieldCompute.Proofs.Launch.Safety
import FieldCompute.Proofs.Program.Ownership
import FieldCompute.Proofs.Value.Types
/-!
# Types of recorded values

Whatever a run records for a statement is of the type that the statement declares, and a load gives
a value of the type of its field (`Reaches.hasType`). Where loads declare the types of their fields
it makes no difference whether an operand is used as it is or as a value of its declared type
(`recorded_types`). A load that declares another type gives what its field holds all the same
(`load_ignores_declared_type`).
-/

namespace FieldCompute

namespace Launch

variable {l : Launch} {values values' : Values} {m n : Machine} {s : Stmt} {rest : List Stmt}

/-- The type of what the statement gives: an element is given as its field holds it. -/
def givenType? (l : Launch) : Stmt → Option DType
  | .load place _ _ => (l.binding? place).map fun b => .scalar b.field.place.scalar
  | s => some s.dtype

/-- If there is a load at the position, it declares the type of its field. -/
def Declares (l : Launch) (id : StmtId) : Prop :=
  ∀ place is d b, l.body[id]? = some (.load place is d) → l.binding? place = some b →
    d = .scalar b.field.place.scalar

/-- The values, each brought to the type that its statement declares. -/
def recast (l : Launch) (values : Values) : Values :=
  values.mapIdx fun id v => v.bind (·.castTo? (l.body.dtypeAt id))

theorem Declares.dtype_eq {id : StmtId} {d : DType} (h : l.Declares id)
    (hs : l.body[id]? = some s) (hd : l.givenType? s = some d) : d = s.dtype := by
  cases s with
  | load place is declared =>
    obtain ⟨b, hb, rfl⟩ := Option.map_eq_some_iff.1 hd
    exact (h place is declared b hs hb).symm
  | _ => exact (Option.some.inj hd).symm

/-! ## What is recorded -/

theorem locate_scalar {place : NodeId} {indices : List Int} {scalar : Scalar} {p : Pointer}
    (h : l.locate place indices = .ok (scalar, p)) :
    ∃ b, l.binding? place = some b ∧ b.field.place.scalar = scalar := by
  unfold locate at h
  split at h
  · cases h
  · split at h <;> cases h
    exact ⟨_, ‹_›, rfl⟩

theorem defined_eq_ok {α : Type} {id : StmtId} {x : Option α} {a : α}
    (h : l.defined id s x = .ok a) : x = some a := by
  cases x <;> cases h
  rfl

theorem evaluate_hasType {d : Device} {v : Value} (h : l.evaluate d values s = .ok (some v)) :
    ∃ t, l.givenType? s = some t ∧ v.HasType t := by
  cases s with
  | const w dtype =>
    simp only [evaluate, Outcome.map_eq_ok_iff, Option.some.injEq, exists_eq_right] at h
    exact ⟨dtype, rfl, Value.hasType_of_castTo? (defined_eq_ok h)⟩
  | arg i dtype =>
    simp only [evaluate, Outcome.map_eq_ok_iff, Option.some.injEq, exists_eq_right] at h
    obtain ⟨w, -, hv⟩ := Option.bind_eq_some_iff.1 (defined_eq_ok h)
    exact ⟨dtype, rfl, Value.hasType_of_castTo? hv⟩
  | unary op a dtype =>
    simp only [evaluate, Outcome.bind_eq_ok_iff, Outcome.map_eq_ok_iff, Option.some.injEq,
      exists_eq_right] at h
    obtain ⟨w, -, hv⟩ := h
    exact ⟨dtype, rfl, UnaryOp.eval?_hasType (defined_eq_ok hv)⟩
  | binary op a b dtype =>
    simp only [evaluate, Outcome.bind_eq_ok_iff, Outcome.map_eq_ok_iff, Option.some.injEq,
      exists_eq_right] at h
    obtain ⟨w, -, w', -, hv⟩ := h
    exact ⟨dtype, rfl, BinaryOp.eval?_hasType (defined_eq_ok hv)⟩
  | cast a dtype =>
    simp only [evaluate, Outcome.bind_eq_ok_iff, Outcome.map_eq_ok_iff, Option.some.injEq,
      exists_eq_right] at h
    obtain ⟨w, -, hv⟩ := h
    exact ⟨dtype, rfl, Value.hasType_of_castTo? (defined_eq_ok hv)⟩
  | load place is dtype =>
    simp only [evaluate, Outcome.bind_eq_ok_iff, Outcome.pure_eq, Except.ok.injEq,
      Option.some.injEq] at h
    obtain ⟨indices, -, ⟨scalar, p⟩, hl, bytes, -, rfl⟩ := h
    obtain ⟨b, hb, rfl⟩ := locate_scalar hl
    exact ⟨_, congrArg (Option.map _) hb, Value.ofBytes_hasType ..⟩
  | store | ret => cases h

/-- Every value so far is of the type that its statement gives. -/
theorem Reaches.hasType (h : l.Reaches m values n rest) {i : Nat} {v : Value}
    (hv : values[i]? = some (some v)) :
    ∃ s d, l.body[i]? = some s ∧ l.givenType? s = some d ∧ v.HasType d := by
  induction h with
  | start => simp at hv
  | @step values n n' s rest x hr hs ih =>
    rw [Array.getElem?_push] at hv
    split at hv
    · -- The latest value is that of the statement just run.
      subst i
      cases hv
      obtain ⟨d, hd, ht⟩ := evaluate_hasType (step_cases hs).1
      exact ⟨s, d, hr.steady.head, hd, ht⟩
    · exact ih hv

theorem Reaches.hasType_declared (h : l.Reaches m values n rest) {i : Nat} {v : Value}
    (hv : values[i]? = some (some v)) (hd : l.Declares i) : v.HasType (l.body.dtypeAt i) := by
  obtain ⟨s, d, hs, hgiven, ht⟩ := h.hasType hv
  rw [hd.dtype_eq hs hgiven] at ht
  rwa [Block.dtypeAt, hs]

theorem Reaches.hasType_load (h : l.Reaches m values n rest) {i : Nat} {v : Value} {place : NodeId}
    {is : List StmtId} {d : DType} (hv : values[i]? = some (some v))
    (hs : l.body[i]? = some (.load place is d)) :
    ∃ b, l.binding? place = some b ∧ v.HasType (.scalar b.field.place.scalar) := by
  obtain ⟨s, t, hs', hgiven, ht⟩ := h.hasType hv
  obtain rfl := Option.some.inj (hs'.symm.trans hs)
  obtain ⟨b, hb, rfl⟩ := Option.map_eq_some_iff.1 hgiven
  exact ⟨b, hb, ht⟩

/-! ## Using a value as it is or as its declared type -/

theorem Reaches.recast_eq (h : l.Reaches m values n rest) {o : StmtId} (hd : l.Declares o) :
    (l.recast values)[o]? = values[o]? := by
  rw [recast, Array.getElem?_mapIdx]
  cases hv : values[o]? with
  | none => rfl
  | some x =>
    cases x with
    | none => rfl
    | some v => exact congrArg some (h.hasType_declared hv hd)

section Congruence

variable (hsize : values'.size = values.size)

include hsize

theorem operand_congr {o : StmtId} (h : values'[o]? = values[o]?) :
    l.operand values' s o = l.operand values s o := by rw [operand, operand, hsize, h]

theorem index_congr {o : StmtId} (h : values'[o]? = values[o]?) :
    l.index values' s o = l.index values s o := by rw [index, index, operand_congr hsize h]

theorem indices_congr (is : List StmtId) (h : ∀ o ∈ is, values'[o]? = values[o]?) :
    is.mapM (l.index values' s) = is.mapM (l.index values s) := by
  induction is with
  | nil => rfl
  | cons o is ih =>
    obtain ⟨ho, his⟩ := List.forall_mem_cons.1 h
    rw [List.mapM_cons, List.mapM_cons, index_congr hsize ho, ih his]

/-- A statement depends on the values of its operands alone. -/
theorem step_congr (h : ∀ o ∈ s.operands, values'[o]? = values[o]?) :
    l.step m values' s = l.step m values s := by
  have hop {o : StmtId} (ho : o ∈ s.operands) : l.operand values' s o = l.operand values s o :=
    operand_congr hsize (h o ho)
  cases s with
  | const | arg => simp only [step, evaluate, affect, hsize]
  | unary op a d | cast a d =>
    have ha := hop (o := a) (by simp [Stmt.operands])
    simp only [step, evaluate, affect, hsize, ha]
  | binary op a b d =>
    have ha := hop (o := a) (by simp [Stmt.operands])
    have hb := hop (o := b) (by simp [Stmt.operands])
    simp only [step, evaluate, affect, hsize, ha, hb]
  | load place is d =>
    simp only [step, evaluate, affect, indices_congr hsize is h]
  | store place is v =>
    have hv := hop (o := v) (by simp [Stmt.operands])
    have his := indices_congr (l := l) (s := .store place is v) hsize is
      fun o ho => h o (by simp [Stmt.operands, ho])
    simp only [step, evaluate, affect, his, hv]
  | ret slot v =>
    have hv := hop (o := v) (by simp [Stmt.operands])
    simp only [step, evaluate, affect, hsize, hv]

end Congruence

/-- A recorded value is of the type that its statement declares, unless that is a load which
declares another type than that of its field; and every load gives a value of the type of its field.
So a statement does the same whether its operands are used as they are or as values of their
declared types. -/
theorem recorded_types (h : l.Reaches m values n rest) :
    (∀ (i : Nat) (v : Value), values[i]? = some (some v) → l.Declares i →
      v.HasType (l.body.dtypeAt i)) ∧
    (∀ (i : Nat) (v : Value) (place : NodeId) (is : List StmtId) (d : DType),
      values[i]? = some (some v) → l.body[i]? = some (.load place is d) →
        ∃ b, l.binding? place = some b ∧ v.HasType (.scalar b.field.place.scalar)) ∧
    ∀ s : Stmt, (∀ o ∈ s.operands, l.Declares o) →
      l.step n (l.recast values) s = l.step n values s := by
  refine ⟨fun i v hv hd => h.hasType_declared hv hd,
    fun i v place is d hv hs => h.hasType_load hv hs, fun s hs => ?_⟩
  have hsize : (l.recast values).size = values.size := by simp [recast]
  exact step_congr hsize fun o ho => h.recast_eq (hs o ho)

end Launch

/-! ## Loads of another type -/

/-- A tree with two numbers of type `int32`. -/
def pairTree : Node :=
  .mk 0 .root [] [.mk 1 (.place "x" .int32) [] [], .mk 2 (.place "y" .int32) [] []]

/-- The first of the numbers is 300. -/
def pairWritten : World :=
  (World.fresh.step (.addTree pairTree false)).step (.writeField 0 1 [] (.int 300))

/-- Copies the first number to the second one and to result slot 0. The load declares the type
`d`. -/
def copySteps (d : DType) : List DraftStep := [.emit (.load 1 [] d), .emit (.store 2 [] 0), .ret 0]

def copyLaunch (d : DType) : Launch :=
  pairWritten.program.engine.launchOf ⟨"copy", [.load 1 [] d, .store 2 [] 0, .ret 0 0], false⟩ []

def copyStart : Machine := ⟨pairWritten.program.device, pairWritten.program.slots⟩

theorem copyLaunch_binding? (d : DType) :
    (copyLaunch d).binding? 1 = some ⟨⟨0, 8⟩, ⟨⟨1, "x", .int32, []⟩, 0⟩⟩ := rfl

/-- The load gives 300, whatever type it declares. -/
theorem copyLaunch_reaches (d : DType) : (copyLaunch d).Reaches copyStart #[some (.int 300)]
    copyStart [.store 2 [] 0, .ret 0 0] := by
  have hlocate : (copyLaunch d).locate 1 [] = .ok (.int32, ⟨⟨0, 8⟩, 0⟩) := by
    rw [Launch.locate, copyLaunch_binding?]
    rfl
  have hread : copyStart.device.read ⟨⟨0, 8⟩, 0⟩ Scalar.int32.bytes = .ok [44, 1, 0, 0] := by
    decide
  have hvalue : Value.ofBytes .int32 [44, 1, 0, 0] = .int 300 := by decide +kernel
  have hindices : ([] : List StmtId).mapM ((copyLaunch d).index #[] (.load 1 [] d)) = .ok [] := rfl
  have hstart : (copyLaunch d).Reaches copyStart #[] copyStart (copyLaunch d).body := .start
  refine hstart.step ?_
  rw [Launch.step_load hindices, hlocate]
  simp only [hread, hvalue]

/-- A load that declares the type of its field. -/
theorem Launch.recorded_types_copied :
    (Value.int 300).HasType ((copyLaunch (.scalar .int32)).body.dtypeAt 0) := by
  have h := recorded_types (copyLaunch_reaches (.scalar .int32))
  refine h.1 0 _ rfl fun place is d b hs hb => ?_
  cases hs
  rw [copyLaunch_binding?] at hb
  cases hb
  rfl

/-- The world with a kernel whose load of 300 declares `int8`. -/
def narrowCopy : World := pairWritten.step (.createKernel "copy" .off (copySteps (.scalar .int8)))

/-- The load gives 300. The store takes it as it is and the return takes it for 44. -/
theorem load_ignores_declared_type :
    (∃ cs, Run World.Honest narrowCopy cs) ∧
    (Kernel.create 1 "copy" (.ofSteps (copySteps (.scalar .int8))) .off).lower true =
      .ok (copyLaunch (.scalar .int8)).body ∧
    (copyLaunch (.scalar .int8)).Reaches copyStart #[some (.int 300)] copyStart
      [.store 2 [] 0, .ret 0 0] ∧
    (copyLaunch (.scalar .int8)).body.dtypeAt 0 = .scalar .int8 ∧
    ¬(Value.int 300).HasType (.scalar .int8) ∧
    ((Program.readField 0 2 []).on (narrowCopy.step (.launch 0 1 [])).program).1 =
      .ok (.int 300) ∧
    (narrowCopy.step (.launch 0 1 [])).program.slots.load 0 = .ok 44 := by
  have tree : Run World.Honest _ _ := .once (c := .addTree pairTree false) trivial
  have written : Run World.Honest pairWritten _ :=
    tree.step (.writeField 0 1 [] (.int 300)) trivial
  have copy : Run World.Honest narrowCopy _ := written.step _ trivial
  refine ⟨⟨_, copy⟩, rfl, copyLaunch_reaches _, rfl, ?_, ?_, ?_⟩
  all_goals decide +kernel

end FieldCompute
