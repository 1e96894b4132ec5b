import FieldCompute.Proofs.Program.Attempts
import FieldCompute.Proofs.Program.ConstantFolding
/-!
# Requests for evaluators

`requested` says what asking for an evaluator comes to on any backend, also one that refuses to
compile: the kernel is known, or it is made and kept, or making it fails. The rest of an evaluation,
and finalizing, touch the cached evaluators no further (`evaluate_aside`, `finalize_same`). The
kernel of a key computes the operator of the key on its types (`EvaluatorKey.ComputedBy`).
-/

namespace FieldCompute

open Routine Program

namespace EvaluatorKey

variable {key : EvaluatorKey} {id : Nat} {number : UInt32}

/-- The types of the kernel's arguments. -/
def operands (key : EvaluatorKey) : List DType :=
  match key.op with
  | .unary _ => [key.lhs]
  | .binary _ => [key.lhs, key.rhs]

theorem args_kernel (key : EvaluatorKey) (id : Nat) (number : UInt32) :
    (key.kernel id number).args = key.operands := by
  obtain ⟨thread, op | op, ret, lhs, rhs, site⟩ := key <;> rfl

theorem rets_kernel (key : EvaluatorKey) (id : Nat) (number : UInt32) :
    (key.kernel id number).rets = [key.ret] := by
  obtain ⟨thread, op | op, ret, lhs, rhs, site⟩ := key <;> rfl

/-- Different numbers make different names. -/
theorem name_kernel_inj {key' : EvaluatorKey} {id' : Nat} {number' : UInt32}
    (h : (key.kernel id number).name = (key'.kernel id' number').name) : number = number' := by
  have hs : toString number = toString number' := by simpa [kernel, Kernel.create] using h
  have hr : number.toNat.repr = number'.toNat.repr := hs
  rw [Nat.repr_eq_ofList_toDigits, Nat.repr_eq_ofList_toDigits, String.ofList_inj] at hr
  have hread (n : Nat) : Nat.ofDigitChars 10 (Nat.toDigits 10 n) 0 = n :=
    Nat.ofDigitChars_toDigits (by decide) (by decide)
  rw [← UInt32.toNat_inj, ← hread number.toNat, hr, hread]

/-- A compiled kernel takes the operands of the key and returns a result of its type. Run on any
arguments, it leaves what the operator makes of them in slot 0 and nothing else, or fails where the
operator has no value. -/
structure ComputedBy (key : EvaluatorKey) (k : Kernel) : Prop where
  args : k.args = key.operands
  rets : k.rets = [key.ret]
  runs : ∃ code, k.code? = some code ∧
    ∀ (l : Launch) (m : Machine), l.body = code.body → l.args.length = k.args.length →
      match key.eval? l.args with
      | some v => ∃ s, key.ret = .scalar s ∧ l.run m = (.ok (), m.answer (v.word s))
      | none => ∃ halt, l.run m = (.error halt, m)

theorem computedBy_kernel {code : Code} (hv : .void ∉ key.dtypes)
    (hb : code.body = (key.kernel id number).body) :
    key.ComputedBy { key.kernel id number with code? := some code } where
  args := args_kernel key id number
  rets := rets_kernel key id number
  runs := by
    refine ⟨code, rfl, fun l m hl hargs => ?_⟩
    rcases run_kernel (hl.trans hb) hargs hv m with ⟨v, s, he, hs, -, hr⟩ | ⟨he, _, _, hr⟩
    · rw [he]
      exact ⟨s, hs, hr⟩
    · rw [he]
      exact ⟨_, hr⟩

end EvaluatorKey

namespace Program

variable {α : Type} {p p' q : Program} {key : EvaluatorKey} {args : List Value}

/-! ## What does not touch evaluators -/

/-- What the cache of evaluators is made of: the entries, the kernels and the two counts. -/
def cached (p : Program) := (p.evaluators, p.kernels, p.nextEvaluator, p.nextKernel)

/-- Evaluators, kernels and the counts of both stay. -/
def Same (p p' : Program) : Prop := p'.cached = p.cached

instance : Std.Refl Same := ⟨fun _ => rfl⟩

instance : IsTrans Program Same := ⟨fun _ _ _ h h' => h'.trans h⟩

theorem Same.eqs (h : p.Same p') : p'.evaluators = p.evaluators ∧ p'.kernels = p.kernels ∧
    p'.nextEvaluator = p.nextEvaluator ∧ p'.nextKernel = p.nextKernel := by
  simpa [Same, cached] using h

theorem Told.same (h : p.Told p') : p.Same p' := by
  obtain ⟨_, _, _, rfl⟩ := h
  rfl

/-- Once there is an evaluator, evaluating is no business of the cache. -/
theorem evaluate_same {id : Nat} (h : (evaluator key).on p = (.ok id, q)) (args : List Value) :
    q.Same ((evaluate key args).on p).2 := by
  rw [evaluate, on_bind_of_ok h]
  have hrun (c : Config) (name : String) (code : Code) :
      (timed c name (runApart code args)).Along Same := by
    intro p
    obtain ⟨q, t, hpq, hqt, hon⟩ := timed_on c name (runApart code args) p
    have hq : q.Same ((runApart code args).on q).2 := rfl
    rw [hon]
    exact IsTrans.trans _ _ _ hpq.same (IsTrans.trans _ _ _ hq hqt.same)
  refine Along.bind (fun p => ?_) (fun k => ?_) q
  · rw [kernelOf_still]
    exact Std.Refl.refl p
  · refine ((prepare_told key.thread k args).mono Told.same).bind fun x => ?_
    refine (hrun x.1 k.name x.2).bind fun slots p => ?_
    rw [resultOf_still]
    exact Std.Refl.refl p

/-- Entries and numbers of evaluators stay, compiled kernels stay as they are, and kernel ids are
only taken. -/
structure Aside (p p' : Program) : Prop where
  evaluators : p'.evaluators = p.evaluators
  nextEvaluator : p'.nextEvaluator = p.nextEvaluator
  nextKernel : p.nextKernel ≤ p'.nextKernel
  compiled {id : Nat} {k : Kernel} :
    p.kernels.find? id = some k → k.isCompiled = true → p'.kernels.find? id = some k

theorem Same.aside (h : p.Same p') : p.Aside p' := by
  obtain ⟨he, hk, hn, hi⟩ := h.eqs
  exact ⟨he, hn, Nat.le_of_eq hi.symm, fun hf _ => hk ▸ hf⟩

/-- Backends and their events have no part in the cache, so finalizing only forgets the entries. -/
theorem finalize_same (hf : p.finalized = false) : p.emptied.Same (finalize.on p).2 := by
  obtain ⟨_, e, r, -, hon, -⟩ := finalize_attempted hf
  rw [hon]
  rfl

/-! ## One request -/

/-- The kernel that a request makes. There is none if the key has its evaluator. -/
def makes? (p : Program) (key : EvaluatorKey) : Option Kernel :=
  match p.evaluators.find? key with
  | some _ => none
  | none => some (key.kernel p.nextKernel p.nextEvaluator)

/-- The key's kernel can be compiled as things are. -/
def Admits (p : Program) (key : EvaluatorKey) : Prop :=
  .void ∉ key.dtypes ∧ p.backend.refusal? .compile none = none

/-- The failure is about compiling the kernel. -/
inductive CannotCompile (k : Kernel) : Failure → Prop
  | malformed (defect : Block.Defect) : CannotCompile k (.error (.invalidIr k.name defect))
  | refused (reason : String) : CannotCompile k (.error (.compilation k.name reason))

/-- What asking for an evaluator comes to, on whatever backend: it is known, or it cannot be
compiled, or it is kept. Making one uses up a number and an id in either case. -/
inductive Requested (p : Program) (key : EvaluatorKey) : Except Failure Nat × Program → Prop
  | known {id : Nat} : p.evaluators.find? key = some id → Requested p key (.ok id, p)
  | failed {q : Program} {e : Failure} :
    p.evaluators.find? key = none → ¬p.Admits key → p.numbered.Same q →
    CannotCompile (key.kernel p.nextKernel p.nextEvaluator) e → Requested p key (.error e, q)
  | made {q : Program} {code : Code} :
    p.evaluators.find? key = none → p.Admits key → p.numbered.Same q → p.Undisturbed q →
    code.body = (key.kernel p.nextKernel p.nextEvaluator).body →
    Requested p key (.ok p.nextKernel,
      { q with
        kernels := q.kernels.insert p.nextKernel
          { key.kernel p.nextKernel p.nextEvaluator with code? := some code }
        evaluators := q.evaluators.insert key p.nextKernel })

theorem requested (p : Program) (key : EvaluatorKey) :
    Requested p key ((evaluator key).on p) := by
  cases he : p.evaluators.find? key with
  | some id =>
    rw [evaluator, on_get_bind, he]
    exact .known he
  | none =>
    obtain ⟨q, checks, hq, hon⟩ := evaluator_on he
    have hd : p.numbered.Discreet q := hq.discreet
    rw [hon]
    rcases EvaluatorKey.lower_kernel key p.nextKernel p.nextEvaluator with
      ⟨hv, hl⟩ | ⟨hv, defect, hl⟩
    · rw [hl]
      cases hb : p.backend.refusal? .compile none with
      | some reason => exact .failed he (fun ha => by simp [ha.2] at hb) hq.same (.refused reason)
      | none =>
        exact .made he ⟨hv, hb⟩ hq.same
          ⟨hd.backend, hd.trees, hd.ndarrays, hd.textures, hd.slots, hd.listed⟩ rfl
    · rw [hl]
      exact .failed he (fun ha => ha.1 hv) hq.same (.malformed defect)

/-- Whatever follows a request within an evaluation is no business of the cache. -/
theorem evaluate_aside (p : Program) (key : EvaluatorKey) (args : List Value) :
    ((evaluator key).on p).2.Aside ((evaluate key args).on p).2 := by
  obtain ⟨r, q, h⟩ : ∃ r q, (evaluator key).on p = (r, q) := ⟨_, _, rfl⟩
  cases r with
  | error e =>
    rw [evaluate, on_bind_of_error h, h]
    exact Same.aside rfl
  | ok id =>
    rw [h]
    exact (evaluate_same h args).aside

end Program

end FieldCompute
