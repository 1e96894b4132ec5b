import FieldCompute.Proofs.Program.Attempts
import FieldCompute.Proofs.Program.Commands
/-!
# Relations that let memory come and go

What a relation between programs is about is no business of most commands. Along a `Lenient`
relation go all commands that ask the pool for memory, give it back or write to it
(`Lenient.step`); if it is `AboutEngine`, those besides that change the lists of the program
(`AboutEngine.step`). What is left to be shown of it are the commands that run code, the images and
the end of the program.
-/

namespace FieldCompute

open Routine

namespace Engine

/-- Requests to the pool go along the relation, and so does whatever leaves the pool and the record
of faults alone. -/
structure Lenient (E : Engine → Engine → Prop) : Prop where
  allocate (size : Nat) (zero : Bool) : (onPool (Pool.allocate size zero)).Along E
  release (a : Allocation) : (onPool (Pool.release a)).Along E
  deallocate (a : Allocation) : (onPool (Pool.onDevice (·.deallocate a))).Along E
  terminate : (onPool Pool.terminate).Along E
  rewritten {e : Engine} {d : Device} : e.device.Rewritten d → E e (e.withDevice d)
  beside {e e' : Engine} : e'.pool = e.pool → e'.fault = e.fault → E e e'

namespace Lenient

variable {α : Type} {E : Engine → Engine → Prop}

theorem refl (h : Lenient E) (e : Engine) : E e e := h.beside rfl rfl

/-- A request through the pool is refused if there is none. -/
theorem throughPool (h : Lenient E) {a : Routine Pool DeviceError α} (ha : (onPool a).Along E) :
    (throughPool a).Along E := by
  intro e
  rw [Program.throughPool_on]
  split
  · exact ha e
  · exact h.refl e

theorem releaseNdarray (h : Lenient E) (a : Allocation) : (Engine.releaseNdarray a).Along E :=
  h.throughPool (h.release a)

variable [IsTrans Engine E]

theorem materialize (h : Lenient E) (t : FieldTree) : (Engine.materialize t).Along E := by
  refine .bind h.refl fun packing => ?_
  refine .bind (h.throughPool (h.allocate _ _)) fun allocation => ?_
  exact fun _ => h.beside rfl rfl

theorem destroy (h : Lenient E) (tree : Nat) : (Engine.destroy tree).Along E := by
  intro e
  rw [Program.destroy_on]
  cases e.storage.find? tree with
  | none => exact h.refl e
  | some s =>
    have hforgotten : E e { e with storage := e.storage.erase tree } := h.beside rfl rfl
    exact IsTrans.trans _ _ _ hforgotten (h.releaseNdarray s.allocation _)

theorem finalize (h : Lenient E) : Engine.finalize.Along E := by
  have : Std.Refl E := ⟨h.refl⟩
  have hdetach : (modify ({ · with attached := false }) :
      Routine Engine Failure PUnit).Along E := fun _ => h.beside rfl rfl
  refine .get_bind fun e => ?_
  have hforgotten : E e { e with storage := .empty } := h.beside rfl rfl
  rw [on_set_bind]
  refine IsTrans.trans _ _ _ hforgotten ?_
  split
  · have hall : (e.storage.values.forM fun s => Engine.releaseNdarray s.allocation).Along E :=
      Along.forM _ fun s => h.releaseNdarray s.allocation
    exact (hall.bind fun _ => hdetach) _
  · exact hdetach _

end Lenient

/-- The engine may do anything. -/
def Anything (_ _ : Engine) : Prop := True

instance : IsTrans Engine Anything := ⟨fun _ _ _ _ _ => trivial⟩

theorem anything_lenient : Lenient Anything where
  allocate _ _ _ := trivial
  release _ _ := trivial
  deallocate _ _ := trivial
  terminate _ := trivial
  rewritten _ := trivial
  beside _ _ := trivial

end Engine

namespace Program

variable {α : Type} {p p' : Program} {E : Engine → Engine → Prop} {R : Program → Program → Prop}

/-! ## Memory -/

/-- Along with its engine the program moves along `R` if the engine does along `E`, and the arrays
may be others. -/
structure Lenient (E : Engine → Engine → Prop) (R : Program → Program → Prop) : Prop
    extends Coarse R where
  engine : Engine.Lenient E
  withEngine {p : Program} {e : Engine} : E p.engine e → R p (p.withEngine e)
  ndarrays {p : Program} (ndarrays : Table Nat Ndarray) (nextNdarray : Nat) :
    R p { p with ndarrays, nextNdarray }

namespace Lenient

theorem refl (h : Lenient E R) (p : Program) : R p p := h.quiet (Std.Refl.refl p)

theorem onEngine (h : Lenient E R) {a : Routine Engine Failure α} (ha : a.Along E) :
    (Program.onEngine a).Along R := fun p => h.withEngine (ha p.engine)

/-- A call that the backend refuses does nothing. -/
theorem guarded (h : Lenient E R) {a : Routine Engine Failure Unit} (ha : a.Along E)
    (call : BackendCall) (subject? : Option Nat) :
    (onBackend (Backend.guarded call subject? a)).Along R := by
  intro p
  cases hr : p.backend.refusal? call subject? with
  | some reason =>
    rw [guarded_refused hr]
    exact h.refl p
  | none =>
    rw [guarded_accepted hr]
    exact h.onEngine ha p

/-- What rewrites bytes of the device itself, or fails. -/
theorem rewrites (h : Lenient E R) {f : Device → Except DeviceError Device}
    (hf : ∀ {d d'}, f d = .ok d' → d.Rewritten d') :
    (Program.onEngine (Engine.onPool (Pool.onDevice f))).Along R := by
  intro p
  rw [onPool_through, Pool.onDevice_on]
  cases hd : f p.pool.device with
  | error e => exact h.refl p
  | ok d => exact h.withEngine (h.engine.rewritten (hf hd))

theorem allocateMemory (h : Lenient E R) (size : Nat) (zero : Bool) :
    (Program.allocateMemory size zero).Along R :=
  h.onEngine (h.engine.throughPool (h.engine.allocate _ _))

/-- The calls that end a program are calls of its engine. -/
theorem endCall [IsTrans Engine E] (h : Lenient E R) (c : EndCall) : c.op.Along R := by
  cases c with
  | synchronize => exact h.guarded (a := pure ()) h.engine.refl .synchronize none
  | releaseNdarray a => exact h.guarded (h.engine.releaseNdarray a) .releaseNdarray a.id
  | releaseTexture a => exact h.guarded (h.engine.deallocate a) .releaseTexture a.id
  | destroy tree => exact h.guarded (h.engine.destroy tree) .destroy tree
  | finalize => exact h.guarded h.engine.finalize .finalize none
  | terminate => exact h.onEngine h.engine.terminate

variable [IsTrans Program R]

theorem createNdarray (h : Lenient E R) (dtype : DType) (shape : List Nat) (layout : ArrayLayout)
    (zero : Bool) : (Program.createNdarray dtype shape layout zero).Along R := by
  unfold Program.createNdarray
  split
  · exact h.refl
  · exact (h.allocateMemory _ zero).bind fun a _ => h.ndarrays _ _

theorem deleteNdarray [IsTrans Engine E] (h : Lenient E R) (id : Nat) :
    (Program.deleteNdarray id).Along R := by
  have hforget : (modify fun p => { p with ndarrays := p.ndarrays.erase id } : Op _).Along R :=
    fun p => h.ndarrays _ p.nextNdarray
  refine ((ndarray_quiet id).mono h.quiet).bind fun a => hforget.bind fun _ => ?_
  exact h.endCall (.releaseNdarray a.allocation)

theorem fillNdarray (h : Lenient E R) (id : Nat) (pattern : UInt32) :
    (Program.fillNdarray id pattern).Along R := by
  refine ((ndarray_quiet id).mono h.quiet).bind fun a => .get_bind fun p => ?_
  rw [on_answer_bind]
  cases hd : p.device.fill a.allocation pattern with
  | error e => exact h.refl p
  | ok d => exact h.withEngine (h.engine.rewritten (.fill hd))

end Lenient

/-! ## The lists of the program -/

/-- The backend has nothing to do, and the program is not finalized meanwhile. -/
structure Idle (p p' : Program) : Prop where
  backend : p'.backend = p.backend
  finalized : p'.finalized = p.finalized

instance : Std.Refl Idle := ⟨fun _ => ⟨rfl, rfl⟩⟩

instance : IsTrans Program Idle where
  trans _ _ _ h h' := ⟨h'.backend.trans h.backend, h'.finalized.trans h.finalized⟩

theorem Quiet.idle (h : p.Quiet p') : p.Idle p' := ⟨h.backend, h.finalized⟩

theorem keepCode_idle (id : Nat) (code : Code) : (keepCode id code).Along Idle :=
  ((kernelOf_quiet id).mono Quiet.idle).bind fun _ _ => ⟨rfl, rfl⟩

theorem createKernel_idle (name : String) (mode : AutodiffMode) (steps : List DraftStep) :
    (createKernel name mode steps).Along Idle := fun _ => ⟨rfl, rfl⟩

theorem accessor_idle (a : Accessor) (place : NodeId) : (accessor a place).Along Idle := by
  intro p
  have h := accessor_outcome p a place
  generalize (accessor a place).on p = x at h ⊢
  cases h <;> exact ⟨rfl, rfl⟩

theorem evaluator_idle (key : EvaluatorKey) : (evaluator key).Along Idle := by
  have hcompile (c : Config) (k : Kernel) : (compileUnder c k).Along Idle :=
    (compileUnder_told c k).mono fun h => h.quiet.idle
  refine .get_bind fun p => ?_
  split
  · exact Std.Refl.refl p
  · have hcounted : p.Idle { p with nextEvaluator := p.nextEvaluator + 1 } := ⟨rfl, rfl⟩
    rw [on_set_bind]
    refine IsTrans.trans _ _ _ hcounted ?_
    refine Along.bind (takeKernelId_quiet.mono Quiet.idle) (fun id => ?_) _
    refine Along.bind ((thisConfig_quiet key.thread).mono Quiet.idle) fun c => ?_
    exact (hcompile _ _).bind fun code _ => ⟨rfl, rfl⟩

/-- The relation leaves out everything but the engine, and whether the program is finalized. -/
structure AboutEngine (E : Engine → Engine → Prop) (R : Program → Program → Prop) : Prop where
  engine : Engine.Lenient E
  withEngine {p : Program} {e : Engine} : E p.engine e → R p (p.withEngine e)
  idle {p p' : Program} : p.Idle p' → R p p'

namespace AboutEngine

theorem lenient (h : AboutEngine E R) : Lenient E R where
  quiet hq := h.idle hq.idle
  keepCode id code := (keepCode_idle id code).mono h.idle
  engine := h.engine
  withEngine := h.withEngine
  ndarrays _ _ := h.idle ⟨rfl, rfl⟩

variable [IsTrans Engine E] [IsTrans Program R]

theorem addTree (h : AboutEngine E R) (root : Node) (compileOnly : Bool) :
    (Program.addTree root compileOnly).Along R := by
  intro p
  have hm := h.engine.materialize (p.trees.add root compileOnly).1 p.engine
  have hlisted : R p (p.registered root compileOnly) := h.idle ⟨rfl, rfl⟩
  have hunlisted : R p (p.rejected root compileOnly) := h.idle ⟨rfl, rfl⟩
  rw [addTree_on]
  split
  · exact hlisted
  · split
    · exact hunlisted
    · generalize (Engine.materialize (p.trees.add root compileOnly).1).on p.engine = x at hm ⊢
      obtain ⟨f | _, e⟩ := x
      · exact IsTrans.trans _ _ _ hunlisted (h.withEngine hm)
      · exact IsTrans.trans _ _ _ hlisted (h.withEngine hm)

theorem destroyTree (h : AboutEngine E R) (id : Nat) : (Program.destroyTree id).Along R := by
  intro p
  rw [destroyTree_on]
  split
  · exact h.idle (Std.Refl.refl p)
  · rename_i t _
    have hforgotten : R p (p.forgetting id t) := h.idle ⟨rfl, rfl⟩
    split
    · exact hforgotten
    · split
      · exact hforgotten
      · exact IsTrans.trans _ _ _ hforgotten (h.withEngine (h.engine.destroy id p.engine))

/-- What finalizing does to the program that it has emptied. -/
theorem finalize (h : AboutEngine E R) (hf : p.finalized = false) :
    R p.emptied (Program.finalize.on p).2 := by
  have : Std.Refl R := ⟨fun p => h.idle (Std.Refl.refl p)⟩
  obtain ⟨answers, _, _, ha, -⟩ := finalize_attempted hf
  refine ha.along (fun step hm => ?_) fun _ _ => h.idle ⟨rfl, rfl⟩
  obtain ⟨c, -, rfl⟩ := List.mem_map.1 hm
  exact h.lenient.endCall c

end AboutEngine

end Program

/-! ## Commands -/

/-- The command is quiet, or it is about kept code or memory from the pool. -/
def Command.IsPooled : Command → Prop
  | .synchronize | .compile .. | .adoptCode .. | .allocateMemory .. | .createNdarray ..
  | .deleteNdarray _ | .fillNdarray .. | .deviceFree _ | .deviceWrite .. | .deviceFill ..
  | .poolAllocate .. | .poolRelease _ | .poolTerminate => True
  | c => c.IsQuiet

/-- Besides, the command may list and unlist trees and kernels. -/
def Command.IsListing : Command → Prop
  | .addTree .. | .destroyTree _ | .accessor .. | .createKernel .. | .evaluator _ => True
  | c => c.IsPooled

namespace Program

variable {E : Engine → Engine → Prop} {R : Program → Program → Prop} [IsTrans Engine E]
  [IsTrans Program R] {w : World} {c : Command}

theorem Lenient.step (h : Lenient E R) (hc : c.IsPooled) : R w.program (w.step c).program := by
  have along {α : Type} {op : Op α} (hop : op.Along R)
      (ha : c.action = (do let _ ← op; return none)) : R w.program (w.step c).program := by
    rw [World.step_op ha]
    exact hop w.program
  have handing {op : Op Allocation} (hop : op.Along R) (ha : c.action = some <$> op) :
      R w.program (w.step c).program := by
    rw [World.step_op_handing ha]
    exact hop w.program
  cases c with
  | synchronize => exact along (h.endCall .synchronize) rfl
  | compile thread kernel => exact along (h.compile thread kernel) rfl
  | adoptCode kernel c => exact along (h.adoptCode kernel c) rfl
  | allocateMemory size zero => exact handing (h.allocateMemory size zero) rfl
  | createNdarray dtype shape layout zero =>
    exact along (h.createNdarray dtype shape layout zero) rfl
  | deleteNdarray id => exact along (h.deleteNdarray id) rfl
  | fillNdarray id pattern => exact along (h.fillNdarray id pattern) rfl
  | deviceFree a => exact along (h.onEngine (h.engine.deallocate a)) rfl
  | deviceWrite p bytes => exact along (h.rewrites .write) rfl
  | deviceFill a pattern => exact along (h.rewrites .fill) rfl
  | poolAllocate size zero => exact handing (h.onEngine (h.engine.allocate size zero)) rfl
  | poolRelease a => exact along (h.onEngine (h.engine.release a)) rfl
  | poolTerminate => exact along (h.onEngine h.engine.terminate) rfl
  | _ => exact h.quiet (And.left (World.step_quiet hc))

theorem AboutEngine.step (h : AboutEngine E R) (hc : c.IsListing) :
    R w.program (w.step c).program := by
  have along {α : Type} {op : Op α} (hop : op.Along R)
      (ha : c.action = (do let _ ← op; return none)) : R w.program (w.step c).program := by
    rw [World.step_op ha]
    exact hop w.program
  cases c with
  | addTree root compileOnly => exact along (h.addTree root compileOnly) rfl
  | destroyTree tree => exact along (h.destroyTree tree) rfl
  | accessor a place => exact along ((accessor_idle a place).mono h.idle) rfl
  | createKernel name mode steps =>
    exact along ((createKernel_idle name mode steps).mono h.idle) rfl
  | evaluator key => exact along ((evaluator_idle key).mono h.idle) rfl
  | _ => exact h.lenient.step hc

end Program

end FieldCompute
