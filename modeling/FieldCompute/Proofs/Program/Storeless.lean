import FieldCompute.Proofs.Program.Wiring
/-!
# Commands that store nothing

Reading a field and evaluating an operator run code without stores, and so may a launch. Such a
command is a chain of calm moves (`World.step_storeless`), so it changes no byte in use.
-/

namespace FieldCompute

open Routine Program Relation

theorem EvaluatorKey.kernel_storeless (key : EvaluatorKey) (id : Nat) (number : UInt32) :
    (key.kernel id number).body.Storeless := by
  have hbody : (key.kernel id number).body.all (!·.isStore) = true := by
    obtain ⟨_, op | op, _, _, _, _⟩ := key <;> rfl
  intro s hs
  simpa using List.all_eq_true.1 hbody s hs

namespace Program

variable {p : Program} {k : Kernel} {ok : World → Command → Prop}

/-- An evaluator that is at hand is compiled, and its code stores nothing. -/
theorem Catalogued.evaluator_storeless (h : p.Catalogued) (hp : p.Hosted) {key : EvaluatorKey}
    {id : Nat} {q : Program} (hev : (Program.evaluator key).on p = (.ok id, q)) :
    ∃ k code, q.kernels.find? id = some k ∧ k.code? = some code ∧ code.body.Storeless := by
  have hcases := evaluator_outcome hp key
  rw [hev] at hcases
  cases hcases with
  | known hf =>
    obtain ⟨number, code, hk, -, hl⟩ := h.evaluator hf
    exact ⟨_, code, hk, rfl, Kernel.lower_storeless hl (key.kernel_storeless id number)⟩
  | @kept _ code hq hlt hl hn =>
    exact ⟨_, code, Table.find?_insert_self .., rfl,
      Kernel.lower_storeless hl (key.kernel_storeless _ _)⟩

theorem Catalogued.evaluate_calm (h : p.Catalogued) (key : EvaluatorKey) (args : List Value) :
    Chained Calm p ((evaluate key args).on p).2 := by
  intro hp
  refine bind_at (evaluator_calm key p) (fun {q id} hq => ?_) hp
  obtain ⟨k, code, hk, hcode, hs⟩ := h.evaluator_storeless hp hq
  rw [on_bind_of_ok (kernelOf_known hk)]
  intro hq'
  refine bind_at (chained_of_quiet (prepare_quiet key.thread k args) q) (fun {r x} hr => ?_) hq'
  have hready := prepared hq' key.thread k args
  rw [hr] at hready
  -- What is ready to run is the code that the evaluator was kept with.
  obtain rfl : x.2 = code := by
    cases hready with
    | ready _ hc _ =>
      rcases hc with hc | ⟨hc, -⟩
      · exact Option.some.inj (hc.symm.trans hcode)
      · rw [hcode] at hc; cases hc
  refine bind_at (timed_along (fun h => h) (a := runApart x.2 args)
    (fun p => ran_calm hs p .empty args) x.1 k.name r) fun {_ slots} _ => ?_
  exact chained_of_quiet (resultOf_quiet k slots key.ret) _

theorem Wired.readField_calm (h : p.Wired) (thread : Thread) (id : NodeId) (indices : List Int) :
    Chained Calm p ((readField thread id indices).on p).2 := by
  intro hp
  refine bind_at (accessor_calm .reader id p) (fun {q kernel} hq => ?_) hp
  have hcases := h.accessed hp .reader id
  rw [hq] at hcases
  cases hcases with
  | @served _ t place _ k hb hw hhas hid _ hs =>
    have hlaunch : Chained Calm q ((launch thread kernel (indexArgs indices)).on q).2 :=
      launch_calm hs.find thread _ fun code hc => by
        rw [hs.code_body (hw.makes hs.find hc)]
        exact Accessor.reader_storeless place kernel
    exact bind_at hlaunch fun {r _} _ => chained_of_quiet (readResult_quiet kernel) r

end Program

namespace World

variable {w : World} {c : Command}

/-- The command stores nothing, gives no tree storage and does not go past the program. -/
def Storeless (w : World) : Command → Prop
  | .addTree .. | .writeField .. | .fillNdarray .. | .finalize | .drop => False
  | .launch _ kernel _ => ∀ k, w.program.kernels.find? kernel = some k → k.body.Storeless
  | .runGuest k .. => k.body.Storeless
  | c => ¬c.IsRaw

theorem step_storeless (hp : w.program.Hosted) (hm : w.program.Moored) (h : w.program.Wired)
    (hc : w.Storeless c) :
    (w.step c).program.Hosted ∧ ReflTransGen Calm w (w.step c) := by
  by_cases hcalm : c.IsCalm
  · exact step_calm hp hm hcalm
  cases c with
  | readField thread place indices =>
    exact step_chained hp (h.readField_calm thread place indices) rfl rfl
  | evaluateUnary thread op v operand ret =>
    exact step_chained hp (h.evaluate_calm _ _) rfl rfl
  | evaluateBinary thread op a lhs b rhs ret =>
    exact step_chained hp (h.evaluate_calm _ _) rfl rfl
  | launch thread kernel args =>
    refine step_chained hp ?_ rfl rfl
    cases hk : w.program.kernels.find? kernel with
    | none =>
      rw [launch_unknown hk]
      exact Std.Refl.refl w.program
    | some k =>
      refine launch_calm hk thread args fun code hcode => ?_
      obtain ⟨-, optimize, hl⟩ := h.makes hk hcode
      exact Kernel.lower_storeless hl (hc k hk)
  | runGuest k c args slots =>
    refine step_chained hp ?_ rfl rfl
    rw [runGuest, expect, on_answer_bind]
    cases hl : k.lower c.advancedOptimization with
    | error e => exact Std.Refl.refl w.program
    | ok body =>
      have hs : (⟨k.name, body, c.checksBounds⟩ : Code).body.Storeless :=
        Kernel.lower_storeless hl hc
      exact ran_calm hs w.program slots args
  | addTree | writeField | fillNdarray | finalize | drop => exact hc.elim
  | _ => exact absurd hc hcalm

end World

end FieldCompute
