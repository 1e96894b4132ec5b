import FieldCompute.Proofs.Program.Lenient
/-!
# Commands that only add accessors

Commands that neither add trees nor remove them go along `Remembers`: no accessor is lost, and what
is added stands for a new kernel (`World.step_remembers`).
-/

namespace FieldCompute

open Routine

namespace Program

variable {α : Type} {p p' : Program}

/-- The trees are the same, and accessors are added at most, with new kernels. -/
structure Remembers (p p' : Program) : Prop where
  trees : p'.trees = p.trees
  nextKernel : p.nextKernel ≤ p'.nextKernel
  kept {key : Accessor × NodeId} {kernel : Nat} :
    p.accessors.find? key = some kernel → p'.accessors.find? key = some kernel
  made {key : Accessor × NodeId} {kernel : Nat} :
    p'.accessors.find? key = some kernel →
      p.accessors.find? key = some kernel ∨ p.nextKernel ≤ kernel

theorem Remembers.of_same (ht : p'.trees = p.trees) (ha : p'.accessors = p.accessors)
    (hn : p.nextKernel ≤ p'.nextKernel) : p.Remembers p' :=
  ⟨ht, hn, fun hf => by rwa [ha], fun hf => .inl (by rwa [← ha])⟩

instance : Std.Refl Remembers := ⟨fun _ => .of_same rfl rfl (Nat.le_refl _)⟩

instance : IsTrans Program Remembers where
  trans _ _ _ h h' := by
    refine ⟨h'.trees.trans h.trees, Nat.le_trans h.nextKernel h'.nextKernel,
      fun hf => h'.kept (h.kept hf), fun hf => ?_⟩
    rcases h'.made hf with hf | hn
    · exact h.made hf
    · exact .inr (Nat.le_trans h.nextKernel hn)

theorem Quiet.remembers (h : p.Quiet p') : p.Remembers p' :=
  .of_same h.trees h.accessors h.nextKernel

theorem remembers_of_quiet {a : Op α} (h : a.Along Quiet) : a.Along Remembers :=
  h.mono Quiet.remembers

/-- Whatever the engine does. -/
theorem onEngine_remembers (a : Routine Engine Failure α) : (onEngine a).Along Remembers :=
  fun _ => .of_same rfl rfl (Nat.le_refl _)

theorem keepCode_remembers (id : Nat) (code : Code) : (keepCode id code).Along Remembers :=
  (remembers_of_quiet (kernelOf_quiet id)).bind fun _ _ => .of_same rfl rfl (Nat.le_refl _)

theorem remembers_lenient : Lenient Engine.Anything Remembers where
  quiet := Quiet.remembers
  keepCode := keepCode_remembers
  engine := Engine.anything_lenient
  withEngine _ := .of_same rfl rfl (Nat.le_refl _)
  ndarrays _ _ := .of_same rfl rfl (Nat.le_refl _)

theorem remembers_coarse : Coarse Remembers := remembers_lenient.toCoarse

theorem createKernel_remembers (name : String) (mode : AutodiffMode) (steps : List DraftStep) :
    (createKernel name mode steps).Along Remembers :=
  fun _ => .of_same rfl rfl (Nat.le_succ _)

theorem accessor_remembers (a : Accessor) (id : NodeId) : (accessor a id).Along Remembers := by
  intro p
  have h := accessor_outcome p a id
  generalize (accessor a id).on p = r at h ⊢
  cases h with
  | known _ => exact Std.Refl.refl p
  | notAField _ => exact Std.Refl.refl p
  | made _ hnone =>
    refine ⟨rfl, Nat.le_succ _, fun {key kernel} hf => ?_, fun {key kernel} hf => ?_⟩
    · have hne : key ≠ (a, id) := by
        rintro rfl
        rw [hnone] at hf
        cases hf
      rwa [Table.find?_insert_of_ne hne]
    · rw [Table.find?_insert] at hf
      split at hf
      · cases hf
        exact .inr (Nat.le_refl _)
      · exact .inl hf

theorem runCode_remembers (code : Code) (args : List Value) : (runCode code args).Along Remembers :=
  fun _ => .of_same rfl rfl (Nat.le_refl _)

theorem runApart_remembers (code : Code) (args : List Value) :
    (runApart code args).Along Remembers := fun _ => .of_same rfl rfl (Nat.le_refl _)

theorem evaluator_remembers (hp : p.Hosted) (key : EvaluatorKey) :
    p.Remembers ((evaluator key).on p).2 := by
  have h := evaluator_outcome hp key
  generalize (evaluator key).on p = r at h ⊢
  cases h with
  | known _ => exact Std.Refl.refl p
  | failed hq _ => exact hq.toQuiet.remembers
  | kept hq _ _ _ => exact .of_same hq.trees hq.accessors hq.nextKernel

theorem evaluate_remembers (hp : p.Hosted) (key : EvaluatorKey) (args : List Value) :
    p.Remembers ((evaluate key args).on p).2 :=
  remembers_coarse.evaluate runApart_remembers (evaluator_remembers hp key) args

theorem runGuest_remembers (k : Kernel) (c : Config) (args : List Value) (slots : ResultSlots) :
    (runGuest k c args slots).Along Remembers :=
  (remembers_of_quiet (answered_quiet _)).bind fun _ _ => .of_same rfl rfl (Nat.le_refl _)

theorem createTexture_remembers (i : Image) : (createTexture i).Along Remembers := by
  have halloc : (allocateImage i).Along Remembers := onEngine_remembers _
  exact halloc.bind fun _ _ => .of_same rfl rfl (Nat.le_refl _)

end Program

/-- The command neither adds trees nor removes them. -/
def Command.LeavesTrees : Command → Prop
  | .addTree .. | .destroyTree _ | .finalize | .drop => False
  | _ => True

open Program in
theorem World.step_remembers {w : World} (hp : w.program.Hosted) {c : Command}
    (hc : c.LeavesTrees) : w.program.Remembers (w.step c).program := by
  have ending {α : Type} {op : Op α} (h : w.program.Remembers (op.on w.program).2)
      (ha : c.action = (do let _ ← op; return none)) :
      w.program.Remembers (w.step c).program := by
    rw [step_op ha]
    exact h
  have handing {op : Op Allocation} (h : op.Along Remembers) (ha : c.action = some <$> op) :
      w.program.Remembers (w.step c).program := by
    rw [step_op_handing ha]
    exact h w.program
  cases c with
  | addTree | destroyTree | finalize | drop => exact hc.elim
  | checkFault => exact ending (onEngine_remembers _ _) rfl
  | accessor a place => exact ending (accessor_remembers _ _ _) rfl
  | readField thread place indices =>
    exact ending (remembers_coarse.readField accessor_remembers runCode_remembers _ _ _ _) rfl
  | writeField thread place indices v =>
    exact ending (remembers_coarse.writeField accessor_remembers runCode_remembers _ _ _ _ _) rfl
  | createKernel name mode steps => exact ending (createKernel_remembers _ _ _ _) rfl
  | launch thread kernel args =>
    exact ending (remembers_coarse.launch runCode_remembers _ _ _ _) rfl
  | evaluator key => exact ending (evaluator_remembers hp key) rfl
  | evaluateUnary thread op v operand ret => exact ending (evaluate_remembers hp _ _) rfl
  | evaluateBinary thread op a lhs b rhs ret => exact ending (evaluate_remembers hp _ _) rfl
  | runGuest k c args slots => exact ending (runGuest_remembers _ _ _ _ _) rfl
  | createTexture i => exact ending (createTexture_remembers _ _) rfl
  | allocateImage i => exact handing (onEngine_remembers _) rfl
  | deviceAllocate size => exact handing (onEngine_remembers _) rfl
  | deviceImage i => exact handing (onEngine_remembers _) rfl
  | _ => exact remembers_lenient.step trivial

end FieldCompute
