import FieldCompute.Proofs.Block.WellFormed
import FieldCompute.Proofs.Launch.Steps
import FieldCompute.Proofs.Program.Catalogue
import FieldCompute.Proofs.Value.Types
/-!
# Constant folding is evaluation

An evaluator kernel lowers iff none of its types is void (`lower_kernel`), and running it gives what
its operator gives (`run_kernel`): its arguments are cast once more on the way in, and the word in
slot 0 decodes to the value that went in. `evaluate_folds` puts them together for a program in any
state that a run comes to.
-/

namespace FieldCompute

open Routine Program

namespace EvaluatorKey

variable {key : EvaluatorKey} {id : Nat} {number : UInt32}

/-- The types that the kernel uses. -/
def dtypes (key : EvaluatorKey) : List DType :=
  match key.op with
  | .unary _ => [key.lhs, key.ret]
  | .binary _ => [key.lhs, key.rhs, key.ret]

/-- What the operator of the key makes of constants. -/
def eval? (key : EvaluatorKey) (args : List Value) : Option Value :=
  match key.op, args with
  | .unary op, [v] => op.eval? v key.lhs key.ret
  | .binary op, [a, b] => op.eval? a key.lhs b key.rhs key.ret
  | _, _ => none

theorem kernel_wellFormed_iff (key : EvaluatorKey) (id : Nat) (number : UInt32) :
    (key.kernel id number).body.WellFormed (key.kernel id number).args
      (key.kernel id number).rets.length ↔ .void ∉ key.dtypes := by
  obtain ⟨thread, op | op, ret, lhs, rhs, site⟩ := key
  · change Block.WellFormed [.arg 0 lhs, .unary op 0 ret, .ret 0 1] [lhs] 1 ↔ .void ∉ [lhs, ret]
    simp [Block.wellFormed_iff, Stmt.operands, Block.dtypeAt, Stmt.Declared, Stmt.dtype, eq_comm]
  · change Block.WellFormed [.arg 0 lhs, .arg 1 rhs, .binary op 0 1 ret, .ret 0 2] [lhs, rhs] 1 ↔
      .void ∉ [lhs, rhs, ret]
    simp [Block.wellFormed_iff, Stmt.operands, Block.dtypeAt, Stmt.Declared, Stmt.dtype, eq_comm,
      and_assoc]

theorem length_rets : (key.kernel id number).rets.length = 1 := by
  obtain ⟨thread, op | op, ret, lhs, rhs, site⟩ := key <;> rfl

/-- Without a void type the kernel lowers to its own body; with one it is rejected. -/
theorem lower_kernel (key : EvaluatorKey) (id : Nat) (number : UInt32) :
    .void ∉ key.dtypes ∧
      (key.kernel id number).lower false = .ok (key.kernel id number).body ∨
    .void ∈ key.dtypes ∧ ∃ defect, (key.kernel id number).lower false =
      .error (.invalidIr (key.kernel id number).name defect) := by
  have hslots : ¬ResultSlots.count < (key.kernel id number).rets.length := by
    rw [length_rets]; decide
  have hiff := Block.verify_eq_ok_iff.trans (kernel_wellFormed_iff key id number)
  simp only [Kernel.lower, if_neg hslots]
  cases hv : (key.kernel id number).body.verify (key.kernel id number).args
      (key.kernel id number).rets.length with
  | ok _ => exact .inl ⟨hiff.1 hv, rfl⟩
  | error defect =>
    refine .inr ⟨?_, defect, rfl⟩
    by_contra hn
    rw [hiff.2 hn] at hv
    cases hv

/-- A constant counts as its declared type. -/
theorem unary_eval?_cast (op : UnaryOp) (v : Value) (s : Scalar) (ret : DType) :
    op.eval? (v.cast s) (.scalar s) ret = op.eval? v (.scalar s) ret := by
  simp [UnaryOp.eval?]

theorem binary_eval?_cast (op : BinaryOp) (a b : Value) (s t : Scalar) (ret : DType) :
    op.eval? (a.cast s) (.scalar s) (b.cast t) (.scalar t) ret =
      op.eval? a (.scalar s) b (.scalar t) ret := by
  simp [BinaryOp.eval?]

/-- A result is of the declared type. -/
theorem eval?_cast (key : EvaluatorKey) (args : List Value) {v : Value} {s : Scalar}
    (h : key.eval? args = some v) (hs : key.ret = .scalar s) : v.cast s = v := by
  rw [← Value.hasType_scalar_iff, ← hs]
  unfold eval? at h
  split at h
  · exact UnaryOp.eval?_hasType h
  · exact BinaryOp.eval?_hasType h
  · cases h

/-- A statement that has a result if `result?` is one, and then the return of it. -/
theorem runFrom_result {l : Launch} {values : Launch.Values} {m : Machine} {s : Stmt}
    {t : Scalar} {statement : String} {result? : Option Value}
    (hstep : l.step m values s = match result? with
      | some v => .ok (some v, m)
      | none => .error (l.cannotEvaluate statement))
    (hd : l.body.dtypeAt values.size = .scalar t)
    (hcast : ∀ {v}, result? = some v → v.cast t = v) :
    (∃ v, result? = some v ∧ v.cast t = v ∧
      l.runFrom values m [s, .ret 0 values.size] = (.ok (), m.answer (v.word t))) ∨
    result? = none ∧ ∃ position statement,
      l.runFrom values m [s, .ret 0 values.size] =
        (.error ⟨position, l.cannotEvaluate statement⟩, m) := by
  cases result? with
  | none => exact .inr ⟨rfl, _, _, Launch.runFrom_of_error hstep⟩
  | some v =>
    have hv := hcast rfl
    have hlast : (values.push (some v))[values.size]? = some (some v) := Array.getElem?_push_size
    refine .inl ⟨v, rfl, hv, ?_⟩
    rw [Launch.runFrom_of_ok hstep, Launch.runFrom_of_ok (Launch.step_ret hlast hd (by decide)), hv]
    rfl

/-- Running the kernel leaves the word of the result in slot 0, or fails where there is none. -/
theorem run_kernel {l : Launch} (hb : l.body = (key.kernel id number).body)
    (hargs : l.args.length = (key.kernel id number).args.length) (hv : .void ∉ key.dtypes)
    (m : Machine) :
    (∃ v s, key.eval? l.args = some v ∧ key.ret = .scalar s ∧ v.cast s = v ∧
      l.run m = (.ok (), m.answer (v.word s))) ∨
    key.eval? l.args = none ∧
      ∃ position statement, l.run m = (.error ⟨position, l.cannotEvaluate statement⟩, m) := by
  have hcast {v : Value} {s : Scalar} (hs : key.ret = .scalar s)
      (he : key.eval? l.args = some v) : v.cast s = v := eval?_cast key l.args he hs
  obtain ⟨kernel, body, args, binding?⟩ := l
  obtain ⟨thread, op | op, ret, lhs, rhs, site⟩ := key
  -- The arguments are read first. What the operator makes of them is all that is left to the run.
  · change .void ∉ [lhs, ret] at hv
    simp only [List.mem_cons, List.not_mem_nil, or_false, not_or] at hv
    obtain ⟨s, rfl⟩ := DType.exists_scalar (Ne.symm hv.1)
    obtain ⟨t, rfl⟩ := DType.exists_scalar (Ne.symm hv.2)
    obtain ⟨v, rfl⟩ := List.length_eq_one_iff.1 hargs
    obtain rfl : body = [.arg 0 (.scalar s), .unary op 0 (.scalar t), .ret 0 1] := hb
    rw [Launch.run, Launch.runFrom_of_ok (Launch.step_arg rfl)]
    have hstep := @Launch.step_unary ⟨kernel, [.arg 0 (.scalar s), .unary op 0 (.scalar t),
      .ret 0 1], [v], binding?⟩ #[some (v.cast s)] m (.scalar t) op 0 _ rfl
    have hd : Block.dtypeAt [.arg 0 (.scalar s), .unary op 0 (.scalar t), .ret 0 1] 0 =
      .scalar s := rfl
    rw [hd, unary_eval?_cast] at hstep
    rcases runFrom_result hstep rfl (hcast rfl) with ⟨r, he, hr, hrun⟩ | ⟨he, hrun⟩
    · exact .inl ⟨r, t, he, rfl, hr, hrun⟩
    · exact .inr ⟨he, hrun⟩
  · change .void ∉ [lhs, rhs, ret] at hv
    simp only [List.mem_cons, List.not_mem_nil, or_false, not_or] at hv
    obtain ⟨s, rfl⟩ := DType.exists_scalar (Ne.symm hv.1)
    obtain ⟨s', rfl⟩ := DType.exists_scalar (Ne.symm hv.2.1)
    obtain ⟨t, rfl⟩ := DType.exists_scalar (Ne.symm hv.2.2)
    obtain ⟨v, w, rfl⟩ := List.length_eq_two.1 hargs
    obtain rfl : body = [.arg 0 (.scalar s), .arg 1 (.scalar s'), .binary op 0 1 (.scalar t),
      .ret 0 2] := hb
    rw [Launch.run, Launch.runFrom_of_ok (Launch.step_arg rfl),
      Launch.runFrom_of_ok (Launch.step_arg rfl)]
    have hstep := @Launch.step_binary ⟨kernel, [.arg 0 (.scalar s), .arg 1 (.scalar s'),
      .binary op 0 1 (.scalar t), .ret 0 2], [v, w], binding?⟩
      #[some (v.cast s), some (w.cast s')] m (.scalar t) op 0 1 _ _ rfl rfl
    have hd0 : Block.dtypeAt [.arg 0 (.scalar s), .arg 1 (.scalar s'), .binary op 0 1 (.scalar t),
      .ret 0 2] 0 = .scalar s := rfl
    have hd1 : Block.dtypeAt [.arg 0 (.scalar s), .arg 1 (.scalar s'), .binary op 0 1 (.scalar t),
      .ret 0 2] 1 = .scalar s' := rfl
    rw [hd0, hd1, binary_eval?_cast] at hstep
    rcases runFrom_result hstep rfl (hcast rfl) with ⟨r, he, hr, hrun⟩ | ⟨he, hrun⟩
    · exact .inl ⟨r, t, he, rfl, hr, hrun⟩
    · exact .inr ⟨he, hrun⟩

end EvaluatorKey

namespace Program

variable {p p' : Program}

/-- What evaluating leaves alone: results, the kernel list, fields, arrays and all memory. -/
structure Undisturbed (p p' : Program) : Prop where
  backend : p'.backend = p.backend
  trees : p'.trees = p.trees
  ndarrays : p'.ndarrays = p.ndarrays
  textures : p'.textures = p.textures
  slots : p'.slots = p.slots
  listed : p'.listed = p.listed

instance : IsTrans Program Undisturbed where
  trans _ _ _ h h' := ⟨h'.1.trans h.1, h'.2.trans h.2, h'.3.trans h.3, h'.4.trans h.4,
    h'.5.trans h.5, h'.6.trans h.6⟩

theorem Discreet.undisturbed (h : p.Discreet p') : p.Undisturbed p' :=
  ⟨h.backend, h.trees, h.ndarrays, h.textures, h.slots, h.listed⟩

/-- Evaluating on the program answers as `value?` says, unless one of the types is void. -/
structure Folds (p : Program) (run : Op Value) (value? : Option Value) (dtypes : List DType) :
    Prop where
  defined : .void ∉ dtypes → ∀ v, (run.on p).1 = .ok v ↔ value? = some v
  undefined : .void ∉ dtypes →
    ((∃ kernel s, (run.on p).1 = .error (.error (.evaluation kernel s))) ↔ value? = none)
  void : .void ∈ dtypes →
    (∃ kernel defect, (run.on p).1 = .error (.error (.invalidIr kernel defect))) ∧
      (run.on p).2.evaluators = p.evaluators ∧ (run.on p).2.kernels = p.kernels
  undisturbed : p.Undisturbed (run.on p).2

/-- Without a void type, an answer or a failure to evaluate is all that is asked for. -/
theorem Folds.intro {run : Op Value} {value? : Option Value} {dtypes : List DType}
    {r : Except Failure Value} (hv : .void ∉ dtypes) (hon : run.on p = (r, p'))
    (hr : match value? with
      | some v => r = .ok v
      | none => ∃ kernel s, r = .error (.error (.evaluation kernel s)))
    (hp : p.Undisturbed p') : p.Folds run value? dtypes := by
  refine ⟨?_, ?_, fun h => absurd h hv, by rw [hon]; exact hp⟩ <;> intro _ <;> rw [hon]
  · intro v
    cases value? with
    | none =>
      obtain ⟨kernel, s, rfl⟩ := hr
      simp
    | some w =>
      subst hr
      simp
  · cases value? with
    | none =>
      obtain ⟨kernel, s, rfl⟩ := hr
      simp
    | some w =>
      subst hr
      simp

/-- What an evaluator's run answers. -/
def Answers (key : EvaluatorKey) (args : List Value) (r : Except Failure ResultSlots) : Prop :=
  match key.eval? args with
  | some v => ∃ slots w, r = .ok slots ∧ slots.load 0 = .ok w ∧ Value.decode? w key.ret = some v
  | none => ∃ kernel s, r = .error (.error (.evaluation kernel s))

theorem runApart_answers {key : EvaluatorKey} {id : Nat} {number : UInt32} {code : Code}
    {args : List Value} (hb : code.body = (key.kernel id number).body)
    (hargs : args.length = (key.kernel id number).args.length) (hv : .void ∉ key.dtypes)
    (p : Program) :
    Answers key args ((runApart code args).on p).1 ∧ ((runApart code args).on p).2 = p := by
  have hrun := EvaluatorKey.run_kernel (l := p.engine.launchOf code args) hb hargs hv
    ⟨p.engine.device, .empty⟩
  have hargs' : (p.engine.launchOf code args).args = args := rfl
  rw [hargs'] at hrun
  rw [runApart, on_of, Answers]
  rcases hrun with ⟨v, s, he, hs, hcast, hr⟩ | ⟨he, position, statement, hr⟩
  · rw [Engine.run_on _ _ _ _ hr, he]
    refine ⟨⟨_, v.word s, rfl, Machine.load_answer _ _, ?_⟩, ?_⟩
    · rw [hs]
      have := Value.ofWord_word v s
      rw [hcast] at this
      exact congrArg some this
    · simp only [Engine.faultAfter?, Option.or_none]
      rfl
  · rw [Engine.run_on _ _ _ _ hr, he]
    refine ⟨⟨_, _, rfl⟩, ?_⟩
    simp only [Engine.faultAfter?, Engine.faultOf?, Launch.cannotEvaluate, Option.or_none]
    rfl

/-- Measuring a run that leaves the program alone changes neither its answer nor that. -/
theorem timed_cases {α : Type} {a : Op α} {P : Except Failure α → Prop}
    (h : ∀ q : Program, P (a.on q).1 ∧ (a.on q).2 = q) (c : Config) (name : String) (p : Program) :
    P ((timed c name a).on p).1 ∧ p.Discreet ((timed c name a).on p).2 := by
  obtain ⟨q, t, hpq, hqt, hon⟩ := timed_on c name a p
  obtain ⟨ha, hstay⟩ := h q
  rw [hstay] at hqt
  rw [hon]
  exact ⟨ha, (IsTrans.trans _ _ _ hpq hqt).discreet⟩

/-- A kernel that has its code and the right number of arguments is ready. -/
theorem prepare_ready {k : Kernel} {code : Code} {args : List Value} (hk : k.code? = some code)
    (hargs : args.length = k.args.length) (thread : Thread) (p : Program) :
    ∃ c q, p.Discreet q ∧ (prepare thread k args).on p = (.ok (c, code), q) := by
  obtain ⟨c, q, hq⟩ : ∃ c q, (thisConfig thread).on p = (.ok c, q) := ⟨_, _, rfl⟩
  refine ⟨c, q, ((thisConfig_told thread).ends hq).discreet, ?_⟩
  rw [prepare, if_neg (by simpa using hargs), on_bind_of_ok hq, codeUnder, hk]
  rfl

theorem evaluate_on {key : EvaluatorKey} {id : Nat} {number : UInt32} {code : Code}
    {args : List Value} {q : Program} (hev : (evaluator key).on p = (.ok id, q))
    (hk : q.kernels.find? id = some { key.kernel id number with code? := some code })
    (hargs : args.length = (key.kernel id number).args.length) :
    ∃ c r, q.Discreet r ∧ (evaluate key args).on p =
      (timed c (key.kernel id number).name (runApart code args) >>= fun slots =>
        resultOf { key.kernel id number with code? := some code } slots key.ret).on r := by
  obtain ⟨c, r, hqr, hprep⟩ := prepare_ready (k := { key.kernel id number with code? := some code })
    rfl hargs key.thread q
  refine ⟨c, r, hqr, ?_⟩
  rw [evaluate, on_bind_of_ok hev, on_bind_of_ok (kernelOf_known hk), on_bind_of_ok hprep]

/-- The evaluator that is at hand answers as its operator. -/
theorem evaluate_from {key : EvaluatorKey} {id : Nat} {number : UInt32} {code : Code}
    {args : List Value} {q : Program} (hev : (evaluator key).on p = (.ok id, q)) (hq : p.Undisturbed q)
    (hk : q.kernels.find? id = some { key.kernel id number with code? := some code })
    (hb : code.body = (key.kernel id number).body)
    (hargs : args.length = (key.kernel id number).args.length) (hv : .void ∉ key.dtypes) :
    p.Folds (evaluate key args) (key.eval? args) key.dtypes := by
  obtain ⟨c, r, hqr, hon⟩ := evaluate_on hev hk hargs
  obtain ⟨hans, hrt⟩ := timed_cases (a := runApart code args) (P := Answers key args)
    (runApart_answers hb hargs hv) c (key.kernel id number).name r
  have hpt := IsTrans.trans _ _ _ hq (IsTrans.trans _ _ _ hqr hrt).undisturbed
  obtain ⟨res, t, ht⟩ : ∃ res t,
      (timed c (key.kernel id number).name (runApart code args)).on r = (res, t) := ⟨_, _, rfl⟩
  rw [ht] at hans hpt
  unfold Answers at hans
  cases he : key.eval? args with
  | none =>
    rw [he] at hans
    obtain ⟨kernel, s, rfl⟩ := hans
    rw [on_bind_of_error ht] at hon
    exact .intro hv hon ⟨kernel, s, rfl⟩ hpt
  | some v =>
    rw [he] at hans
    obtain ⟨slots, w, rfl, hw, hd⟩ := hans
    rw [on_bind_of_ok ht, resultOf_on hw hd] at hon
    exact .intro hv hon rfl hpt

theorem evaluate_folds (hp : p.Hosted) (hc : p.Catalogued) (key : EvaluatorKey) (args : List Value)
    (hargs : args.length = (key.kernel 0 0).args.length) :
    p.Folds (evaluate key args) (key.eval? args) key.dtypes := by
  have hlen (id : Nat) (number : UInt32) : args.length = (key.kernel id number).args.length := hargs
  have h := evaluator_outcome hp key
  generalize hev : (evaluator key).on p = r at h
  cases h with
  | @known id hf =>
    -- It was kept when it was compiled, so its types are fine.
    obtain ⟨number, code, hk, -, hl⟩ := hc.evaluator hf
    rcases EvaluatorKey.lower_kernel key id number with ⟨hv, hb⟩ | ⟨-, defect, hb⟩
    · rw [hb, Except.ok.injEq] at hl
      exact evaluate_from hev (Discreet.undisturbed (Std.Refl.refl p)) hk hl.symm (hlen ..) hv
    · rw [hb] at hl; cases hl
  | @failed q e hq hl =>
    rcases EvaluatorKey.lower_kernel key p.nextKernel p.nextEvaluator with
      ⟨hv, hb⟩ | ⟨hv, defect, hb⟩
    · rw [hb] at hl; cases hl
    · rw [hb, Except.error.injEq] at hl
      have hon : (evaluate key args).on p = (.error (.error e), q) := by
        rw [evaluate, on_bind_of_error hev]
      refine ⟨fun h => absurd hv h, fun h => absurd hv h, ?_, ?_⟩ <;> rw [hon]
      · intro _
        exact ⟨⟨_, defect, by rw [hl]⟩, hq.evaluators, hq.kernels⟩
      · exact hq.undisturbed
  | @kept q code hq hlt hl hn =>
    rcases EvaluatorKey.lower_kernel key p.nextKernel p.nextEvaluator with
      ⟨hv, hb⟩ | ⟨-, defect, hb⟩
    · rw [hb, Except.ok.injEq] at hl
      refine evaluate_from hev ?_ (Table.find?_insert_self ..) hl.symm (hlen ..) hv
      exact ⟨hq.backend, hq.trees, hq.ndarrays, hq.textures, hq.slots, hq.listed⟩
    · rw [hb] at hl; cases hl

end Program

/-- In every state that a run comes to, whatever evaluators there are, evaluating an operator on
constants answers as the operator does: with its value where it has one, with a failure to evaluate
where it has none, and with a defect if one of the types in use is void; then nothing is cached.
Results, the kernel list, fields and memory stay as they are. -/
theorem Run.constantFolding {w : World} {cs : List Command} (r : Run (fun _ _ => True) w cs) :
    (∀ thread op v operand ret,
      w.program.Folds (Program.evaluateUnary thread op v operand ret) (op.eval? v operand ret)
        [operand, ret]) ∧
    (∀ thread op a lhs b rhs ret,
      w.program.Folds (Program.evaluateBinary thread op a lhs b rhs ret) (op.eval? a lhs b rhs ret)
        [lhs, rhs, ret]) := by
  obtain ⟨hp, hc⟩ := r.catalogued
  exact ⟨fun thread op v operand ret =>
    Program.evaluate_folds hp hc ⟨thread, .unary op, ret, operand, operand, ""⟩ [v] rfl,
    fun thread op a lhs b rhs ret =>
      Program.evaluate_folds hp hc ⟨thread, .binary op, ret, lhs, rhs, ""⟩ [a, b] rfl⟩

/-- A program that has added up two small numbers. -/
def addedOnce : World :=
  World.fresh.step
    (.evaluateBinary 0 .add (.int 1) (.scalar .int8) (.int 2) (.scalar .int8) (.scalar .int8))

/-- The evaluator that it has by then gives a sum that wraps around. -/
theorem Run.constantFolding_wraps :
    Run (fun _ _ => True) addedOnce
      [.evaluateBinary 0 .add (.int 1) (.scalar .int8) (.int 2) (.scalar .int8) (.scalar .int8)] ∧
    ((Program.evaluateBinary 0 .add (.int 100) (.scalar .int8) (.int 100) (.scalar .int8)
      (.scalar .int8)).on addedOnce.program).1 = .ok (.int (-56)) := by
  have r : Run (fun _ _ => True) addedOnce _ := .once trivial
  exact ⟨r, (((constantFolding r).2 ..).defined (by decide) _).2 (by decide)⟩

end FieldCompute
