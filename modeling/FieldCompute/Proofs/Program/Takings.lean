import FieldCompute.Proofs.Device.Takings
import FieldCompute.Proofs.Program.Lenient
/-!
# What a finalized program takes from its device

All that a program does with memory goes through its pool, but for images and for what callers ask
of the device themselves. So once the pool is terminated, which finalizing does, no other command
takes memory from the device (`World.step_takes`).
-/

namespace FieldCompute

open Routine

/-! ## The engine -/

namespace Engine

/-- Through the pool, once that is terminated, nothing is taken from the device. -/
def TakesNothing (e e' : Engine) : Prop := e.pool.TakesAtMost 0 e'.pool

instance : IsTrans Engine TakesNothing where
  trans _ _ _ h h' := h.trans h'

variable {α : Type}

theorem onPool_takes {a : Routine Pool DeviceError α} (h : a.Along (Pool.TakesAtMost 0)) :
    (onPool a).Along TakesNothing := by
  intro e
  rw [Program.onPool_on]
  exact h e.pool

theorem takings_lenient : Lenient TakesNothing where
  allocate _ _ := onPool_takes (Pool.allocate_takes _ _)
  release a := onPool_takes (Pool.release_takes a)
  deallocate a := onPool_takes (Pool.deallocate_takes a)
  terminate := onPool_takes Pool.terminate_takes
  rewritten h := .rewritten rfl h
  beside {e e'} hp _ := by
    rw [TakesNothing, hp]
    exact Std.Refl.refl e.pool

theorem checkFault_takes : checkFault.Along TakesNothing := by
  refine .get_bind fun e => ?_
  rw [on_set_bind]
  split <;> exact Std.Refl.refl e.pool

/-- Code writes to the memory that there is. -/
theorem run_takes (e : Engine) (slots : ResultSlots) (code : Code) (args : List Value) :
    e.TakesNothing ((Engine.run code args).on (e, slots)).2.1 := by
  obtain ⟨fault, he⟩ := Program.ran e slots code args
  rw [he]
  exact .rewritten rfl (Launch.run_rewritten (e.launchOf code args) ⟨e.device, slots⟩)

end Engine

/-! ## The program -/

namespace Program

variable {α : Type} {p p' p'' : Program} {n : Nat}

/-- The program stays finalized, and if it becomes so its pool is terminated. Once that is so, the
bytes in use on the device become at most `n` more. -/
structure TakesAtMost (n : Nat) (p p' : Program) : Prop where
  stays : p.finalized = true → p'.finalized = true
  ends : p'.finalized = true → p.finalized = true ∨ p'.pool.terminated = true
  pool : p.pool.TakesAtMost n p'.pool

namespace TakesAtMost

theorem of_pool (hf : p'.finalized = p.finalized) (h : p.pool.TakesAtMost n p'.pool) :
    TakesAtMost n p p' := ⟨fun h => hf.trans h, fun h => .inl (hf ▸ h), h⟩

theorem of_same (hf : p'.finalized = p.finalized) (hp : p'.pool = p.pool) : TakesAtMost n p p' :=
  .of_pool hf (by rw [hp]; exact Std.Refl.refl _)

theorem of_quiet (h : p.Quiet p') : TakesAtMost n p p' :=
  .of_same h.finalized (congrArg (·.engine.pool) h.backend)

theorem trans {m : Nat} (h : TakesAtMost m p p') (h' : TakesAtMost n p' p'') :
    TakesAtMost (m + n) p p'' := by
  refine ⟨h'.stays ∘ h.stays, fun hf => ?_, h.pool.trans h'.pool⟩
  rcases h'.ends hf with hf | ht
  · exact (h.ends hf).imp_right h'.pool.terminated
  · exact .inr ht

end TakesAtMost

instance : Std.Refl (TakesAtMost n) := ⟨fun _ => .of_same rfl rfl⟩

instance : IsTrans Program (TakesAtMost 0) where
  trans _ _ _ h h' := h.trans h'

/-- Whatever becomes of the routine, it takes nothing from the device once the pool is terminated. -/
def TakesNothing (a : Op α) : Prop := a.Along (TakesAtMost 0)

theorem quiet_takes {a : Op α} (h : a.Along Quiet) : TakesNothing a := h.mono .of_quiet

theorem onEngine_takes {a : Routine Engine Failure α} (h : a.Along Engine.TakesNothing) :
    TakesNothing (onEngine a) := fun p => .of_pool rfl (h p.engine)

theorem takings_aboutEngine : AboutEngine Engine.TakesNothing (TakesAtMost 0) where
  engine := Engine.takings_lenient
  withEngine h := .of_pool rfl h
  idle h := .of_same h.finalized (congrArg (·.engine.pool) h.backend)

/-! ### Kernels -/

theorem takings_coarse : Coarse (TakesAtMost 0) := takings_aboutEngine.lenient.toCoarse

theorem accessor_takes (a : Accessor) (place : NodeId) : TakesNothing (accessor a place) :=
  (accessor_idle a place).mono takings_aboutEngine.idle

theorem runCode_takes (code : Code) (args : List Value) : TakesNothing (runCode code args) := by
  intro p
  rw [runCode_on]
  exact .of_pool rfl (Engine.run_takes p.engine p.slots code args)

theorem runApart_takes (code : Code) (args : List Value) : TakesNothing (runApart code args) :=
  fun p => .of_pool rfl (Engine.run_takes p.engine .empty code args)

theorem runGuest_takes (k : Kernel) (c : Config) (args : List Value) (slots : ResultSlots) :
    TakesNothing (runGuest k c args slots) :=
  (quiet_takes (answered_quiet _)).bind fun body p =>
    .of_pool rfl (Engine.run_takes p.engine slots ⟨k.name, body, c.checksBounds⟩ args)

theorem evaluate_takes (key : EvaluatorKey) (args : List Value) :
    TakesNothing (evaluate key args) :=
  fun p => takings_coarse.evaluate runApart_takes
    (takings_aboutEngine.idle (evaluator_idle key p)) args

/-! ### The end -/

/-- A program whose pool may go on has it terminated at its end. -/
theorem finalize_takes : TakesNothing finalize := by
  intro p
  cases hf : p.finalized with
  | true =>
    rw [finalize_twice hf]
    exact Std.Refl.refl p
  | false =>
    obtain ⟨_, e, r, -, hon, -, -, hpool⟩ := finalize_attempted hf
    have hcalls := takings_aboutEngine.finalize hf
    refine ⟨fun _ => by rw [hon]; rfl, fun _ => .inr ?_, hcalls.pool⟩
    rw [hon]
    exact hpool

theorem drop_takes : TakesNothing drop := by
  refine .get_bind fun p => ?_
  split
  · refine Along.bind finalize_takes.attempt (fun r => ?_) p
    split
    · exact .done _
    · exact quiet_takes (tell_quiet _)
  · exact Std.Refl.refl p

/-! ### Images -/

theorem allocateImage_takes (i : Image) :
    (allocateImage i).Along (TakesAtMost (i.bytes?.getD 0)) := by
  intro p
  rw [allocateImage_on]
  refine .of_pool rfl (Pool.fromDevice_takes (fun h => ?_) p.pool)
  obtain ⟨size, hs, ha⟩ := Device.allocateImage_eq_ok_iff.1 h
  rwa [hs]

theorem createTexture_takes (i : Image) :
    (createTexture i).Along (TakesAtMost (i.bytes?.getD 0)) := by
  intro p
  have h := allocateImage_takes i p
  rw [createTexture, on_bind]
  cases hx : (allocateImage i).on p with
  | mk r q =>
    rw [hx] at h
    cases r with
    | error e => exact h
    | ok a => exact ⟨h.stays, h.ends, h.pool⟩

end Program

/-! ## Commands -/

/-- The bytes that the command asks of the device itself. -/
def Command.askedBytes : Command → Nat
  | .createTexture i | .allocateImage i | .deviceImage i => i.bytes?.getD 0
  | .deviceAllocate size => size
  | _ => 0

open Program in
/-- Of a program whose pool is terminated, a command takes no more from the device than it asks of
the device itself. -/
theorem World.step_takes (w : World) (c : Command) :
    w.program.TakesAtMost c.askedBytes (w.step c).program := by
  have along {α : Type} {op : Op α} {n : Nat} (hop : op.Along (TakesAtMost n))
      (ha : c.action = (do let _ ← op; return none)) :
      w.program.TakesAtMost n (w.step c).program := by
    rw [step_op ha]
    exact hop w.program
  have handing {op : Op Allocation} {n : Nat} (hop : op.Along (TakesAtMost n))
      (ha : c.action = some <$> op) : w.program.TakesAtMost n (w.step c).program := by
    rw [step_op_handing ha]
    exact hop w.program
  cases c with
  | checkFault => exact along (onEngine_takes Engine.checkFault_takes) rfl
  | readField thread place indices =>
    exact along (takings_coarse.readField accessor_takes runCode_takes _ _ _) rfl
  | writeField thread place indices v =>
    exact along (takings_coarse.writeField accessor_takes runCode_takes _ _ _ _) rfl
  | launch thread kernel args => exact along (takings_coarse.launch runCode_takes _ _ _) rfl
  | evaluateUnary thread op v operand ret => exact along (evaluate_takes _ _) rfl
  | evaluateBinary thread op a lhs b rhs ret => exact along (evaluate_takes _ _) rfl
  | runGuest k c args slots => exact along (runGuest_takes _ _ _ _) rfl
  | allocateImage i => exact handing (allocateImage_takes i) rfl
  | createTexture i => exact along (createTexture_takes i) rfl
  | deviceImage i => exact handing (allocateImage_takes i) rfl
  | deviceAllocate size =>
    have hdevice : (Pool.fromDevice (·.allocate size)).Along (Pool.TakesAtMost size) :=
      Pool.fromDevice_takes id
    rw [step_onPool_handing rfl]
    exact .of_pool rfl (hdevice w.program.pool)
  | finalize => exact along finalize_takes rfl
  | drop => exact along drop_takes rfl
  | _ => exact takings_aboutEngine.step trivial

end FieldCompute
