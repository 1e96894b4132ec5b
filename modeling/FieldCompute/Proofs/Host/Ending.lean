import FieldCompute.Proofs.Host.Isolation
import FieldCompute.Proofs.Program.Lenient
/-!
# The end of one program of several

However many of the calls at the end of a program fail, the program has ended: it holds nothing, one
program fewer is alive and counted, and dropping it does nothing more
(`Host.finalize_tolerates_failures`). Whatever is called on the programs of a host, its counter
stands for those that are alive (`HostRun.instances_eq`).
-/

namespace FieldCompute

open Routine

/-! ## Programs that go on -/

namespace Program

variable {α : Type}

/-- The program is not ended meanwhile. -/
def Unended (p p' : Program) : Prop := p'.finalized = p.finalized

instance : Std.Refl Unended := ⟨fun _ => rfl⟩

instance : IsTrans Program Unended := ⟨fun _ _ _ h h' => Eq.trans h' h⟩

theorem unended_aboutEngine : AboutEngine Engine.Anything Unended where
  engine := Engine.anything_lenient
  withEngine _ := rfl
  idle h := h.finalized

theorem unended_coarse : Coarse Unended := unended_aboutEngine.lenient.toCoarse

theorem quiet_unended {op : Op α} (h : op.Along Quiet) : op.Along Unended := h.mono Quiet.finalized

theorem accessor_unended (a : Accessor) (place : NodeId) : (accessor a place).Along Unended :=
  (accessor_idle a place).mono Idle.finalized

theorem runCode_unended (code : Code) (args : List Value) : (runCode code args).Along Unended :=
  fun _ => rfl

theorem runGuest_unended (k : Kernel) (c : Config) (args : List Value) (slots : ResultSlots) :
    (runGuest k c args slots).Along Unended :=
  (quiet_unended (answered_quiet _)).bind fun _ _ => rfl

theorem onEngine_unended (a : Routine Engine Failure α) : (onEngine a).Along Unended := fun _ => rfl

theorem checkFault_unended : checkFault.Along Unended := onEngine_unended _

theorem allocateImage_unended (i : Image) : (allocateImage i).Along Unended := fun _ => rfl

theorem createTexture_unended (i : Image) : (createTexture i).Along Unended :=
  (allocateImage_unended i).bind fun _ _ => rfl

end Program

open Program in
/-- Only finalizing a program and dropping it end it. -/
theorem Command.unended {c : Command} (hf : c ≠ .finalize) (hd : c ≠ .drop) :
    c.action.Along Unended := by
  have along {α : Type} {op : Op α} (hop : op.Along Unended) :
      (do let _ ← op; return none : Op (Option Allocation)).Along Unended :=
    hop.bind fun _ => .done _
  have handing {op : Op Allocation} (hop : op.Along Unended) : (some <$> op).Along Unended := by
    intro p
    rw [on_map]
    exact hop p
  have evaluated (key : EvaluatorKey) (args : List Value) : (evaluate key args).Along Unended :=
    fun p => unended_coarse.evaluate (fun _ _ _ => rfl) (evaluator_idle key p).finalized args
  intro p
  have hprogram := World.step_program ⟨p, []⟩ c
  cases c with
  | finalize => exact absurd rfl hf
  | drop => exact absurd rfl hd
  | launch thread kernel args =>
    exact along (unended_coarse.launch runCode_unended thread kernel args) p
  | readField thread place indices =>
    exact along (unended_coarse.readField accessor_unended runCode_unended thread place indices) p
  | writeField thread place indices v =>
    exact along
      (unended_coarse.writeField accessor_unended runCode_unended thread place indices v) p
  | evaluateUnary => exact along (evaluated _ _) p
  | evaluateBinary => exact along (evaluated _ _) p
  | runGuest k c args slots => exact along (runGuest_unended k c args slots) p
  | createTexture i => exact along (createTexture_unended i) p
  | checkFault => exact along checkFault_unended p
  | allocateImage i => exact handing (allocateImage_unended i) p
  | deviceAllocate => exact handing (onEngine_unended _) p
  | deviceImage => exact handing (onEngine_unended _) p
  | _ =>
    rw [← hprogram]
    exact unended_aboutEngine.step trivial

namespace Host

open Program

variable {α : Type} {h h' : Host} {i : Nat} {p q : Program}

/-- How many programs have not ended. -/
def live (h : Host) : Nat := (h.programs.toList.filter (!·.finalized)).length

/-- Only what becomes of the program that is called changes how many are alive. -/
theorem live_on (hp : h.programs[i]? = some p) (op : Op α) :
    ((Host.on i op).on h).2.live + (!p.finalized).toNat =
      h.live + (!(Routine.on op p).2.finalized).toNat := by
  obtain ⟨hlt, hget⟩ := Array.getElem?_eq_some_iff.1 hp
  have hget' : h.programs.toList[i] = p := hget
  have hcounted : (!p.finalized).toNat ≤ h.live := by
    rw [live, ← List.countP_eq_length_filter, ← hget']
    cases hf : !h.programs.toList[i].finalized with
    | false => exact Nat.zero_le _
    | true => exact List.countP_pos_iff.2 ⟨_, List.getElem_mem hlt, hf⟩
  have hset : ((Host.on i op).on h).2.live =
      h.live - (!p.finalized).toNat + (!(Routine.on op p).2.finalized).toNat := by
    have hone (b : Bool) : (if b = true then 1 else 0) = b.toNat := by cases b <;> rfl
    simp only [on_on op hp, live, Array.toList_setIfInBounds, ← List.countP_eq_length_filter,
      List.countP_set hlt, hget', hone]
  omega

theorem instances_on (i : Nat) (op : Op α) (h : Host) :
    ((Host.on i op).on h).2.instances = h.instances := by
  cases hP : h.programs[i]? with
  | none => rw [on_on_none op hP]
  | some P => rw [on_on op hP]

/-- The end of a program that was alive is counted. -/
theorem ending_on (hp : h.programs[i]? = some p) (op : Op Unit) :
    (ending i op).on h = (((Host.on i op).on h).1,
      { ((Host.on i op).on h).2 with
        instances := if p.finalized then h.instances else h.instances - 1 }) := by
  have halive : h.isAlive i = !p.finalized := by rw [isAlive, hp, Option.any_some]
  have hsame := instances_on i op h
  rw [ending, on_get_bind, halive, on_bind, on_attempt]
  simp only
  cases p.finalized with
  | false => simp [hsame]
  | true =>
    simp only [Bool.not_true, Bool.false_eq_true, if_false, if_true, on_answer]
    rw [← hsame]

/-- Whichever of the calls at its end fail, and in whatever order its tables list what it has, a
program that has not ended makes every one of them once and in that order, each after all that went
before, and a call that the backend refuses fails with the reason given. The answer is the first
failure if there is one, and each failure is told as a warning. The program holds nothing any more
and is finalized, its pool is terminated, all else of it is as before, but for the engine. One
program fewer is alive, the counter is one lower, and dropping this one then changes nothing and
makes no call. -/
theorem finalize_tolerates_failures (hp : h.programs[i]? = some p) (hf : p.finalized = false) :
    ∃ (answers : List (Except Failure Unit)) (e : Engine) (r : Except Failure Unit) (h' : Host),
      (finalize i).on h = (r, h') ∧
      Attempted p.emptied (p.endCalls.map EndCall.op) answers
        { p.emptied.withEngine e with events := p.events ++ answers.flatMap warning } ∧
      (∀ (k : Nat) (c : EndCall) (reason : String), p.endCalls[k]? = some c →
        c.refusal? p.backend = some reason →
        answers[k]? = some (.error (.error (.runtime reason)))) ∧
      (r = .ok () ↔ ∀ r ∈ answers, r = .ok ()) ∧ (∀ f, r = .error f ↔ FirstFailure answers f) ∧
      h'.log = h.log ++ (p.events ++ answers.flatMap warning) ∧
      h'.programs[i]? = some { p with
        finalized := true, ndarrays := .empty, textures := [], trees := .empty, accessors := .empty
        evaluators := .empty, functionIndex := .empty, listed := [], events := []
        backend := { p.backend with engine := e } } ∧
      e.pool.terminated = true ∧ h'.instances + 1 = h.instances ∧ h'.live + 1 = h.live ∧
      (drop i).on h' = (.ok (), h') := by
  obtain ⟨answers, e, r, ha, hon, hok, hfirst, hpool⟩ := finalize_attempted hf
  rw [hon] at ha
  have hfin := ending_on hp Program.finalize
  rw [on_on Program.finalize hp, hon, hf] at hfin
  have hlt := (Array.getElem?_eq_some_iff.1 hp).1
  have hprogram := Array.getElem?_setIfInBounds_self_of_lt
    (a := { p.emptied.withEngine e with events := [] }) hlt
  have hlive := live_on hp Program.finalize
  rw [on_on Program.finalize hp, hon, hf] at hlive
  refine ⟨answers, e, r, _, hfin, ha, fun k c reason hk hc => ha.refused hk hc, hok, hfirst, rfl,
    hprogram, hpool, UInt64.sub_add_cancel .., hlive, ?_⟩
  have hdrop := drop_on (p := { p.emptied.withEngine e with events := [] }) rfl
  have hagain := ending_on (h := { h with
    programs := h.programs.setIfInBounds i { p.emptied.withEngine e with events := [] }
    log := h.log ++ (p.events ++ answers.flatMap warning), instances := h.instances - 1 })
    hprogram Program.drop
  rw [on_look_at hprogram rfl (by rw [hdrop]), hdrop] at hagain
  exact hagain

/-- A program that has an array, a texture, a tree and a tree that is only compiled. Its backend
refuses to give anything back, and the pool keeps an allocation that was freed behind its back. -/
def unwilling : Host :=
  let refusals : List Refusal := [⟨.synchronize, none, "busy"⟩, ⟨.releaseNdarray, some 1, "array"⟩,
    ⟨.releaseTexture, none, "texture"⟩, ⟨.destroy, none, "tree"⟩, ⟨.finalize, none, "backend"⟩]
  let setUp : Routine Host Failure Unit := do
    let i ← createWith 0 {} { Backend.host {} with refusals }
    on i do
      deleteNdarray (← createNdarray (.scalar .int8) [5] .aos true)
      onEngine (Engine.onPool (Pool.onDevice (·.deallocate ⟨0, 5⟩)))
      let _ ← createNdarray (.scalar .int8) [3] .aos true
      let _ ← createTexture ⟨.scalar .float32, 4, [2, 2]⟩
      let _ ← addTree (.mk 0 .root [] [.mk 1 (.place "x" .int32) [] []]) false
      let _ ← addTree (.mk 2 .root [] [.mk 3 (.place "y" .int32) [] []]) true
  (setUp.on .empty).2

/-- All six calls fail and are warned of. The first failure is the answer, and the program has
ended. -/
theorem finalize_tolerates_failures_unwilling :
    unwilling.programs[0]?.map (·.endCalls) =
      some [.synchronize, .releaseNdarray ⟨1, 3⟩, .releaseTexture ⟨2, 64⟩, .destroy 0, .finalize,
        .terminate] ∧
    unwilling.live = 1 ∧ unwilling.instances = 1 ∧
    ∃ h' : Host, (finalize 0).on unwilling = (.error (.error (.runtime "busy")), h') ∧
      h'.log.length = 6 ∧ h'.live = 0 ∧ h'.instances = 0 ∧
      (drop 0).on h' = (.ok (), h') := by
  have hf : unwilling.programs[0]?.map (·.finalized) = some false := by decide +kernel
  obtain ⟨p, hp, hf⟩ := Option.map_eq_some_iff.1 hf
  obtain ⟨answers, e, r, h', hon, -, -, -, -, -, -, -, hcount, hlive, hdrop⟩ :=
    finalize_tolerates_failures hp hf
  have halive : unwilling.live = 1 := by decide +kernel
  have hone : unwilling.instances = 1 := by decide +kernel
  have hanswer : ((finalize 0).on unwilling).1 = .error (.error (.runtime "busy")) := by
    decide +kernel
  have hlog : ((finalize 0).on unwilling).2.log.length = 6 := by decide +kernel
  have hzero : h'.instances = 0 := (UInt64.add_left_inj 1).1 (hcount.trans hone)
  rw [hon] at hanswer hlog
  refine ⟨by decide +kernel, halive, hone, h', ?_, hlog, by omega, hzero, hdrop⟩
  rw [hon, ← hanswer]

/-! ## The counter -/

/-- The counter stands for the programs that are alive. -/
def Tallied (h : Host) : Prop := h.instances = .ofNat h.live

/-- Neither the counter nor how many programs are alive differs. -/
structure Steady (h h' : Host) : Prop where
  instances : h'.instances = h.instances
  live : h'.live = h.live

instance : Std.Refl Steady := ⟨fun _ => ⟨rfl, rfl⟩⟩

instance : IsTrans Host Steady where
  trans _ _ _ h h' := ⟨h'.instances.trans h.instances, h'.live.trans h.live⟩

theorem Steady.tallied (hs : Steady h h') (ht : h.Tallied) : h'.Tallied := by
  rw [Tallied, hs.instances, hs.live, ht]

theorem on_steady {op : Op α} (hop : op.Along Unended) (i : Nat) : (Host.on i op).Along Steady := by
  intro h
  refine ⟨instances_on i op h, ?_⟩
  cases hp : h.programs[i]? with
  | none => rw [on_on_none op hp]
  | some p =>
    have hlive := live_on hp op
    rw [hop p] at hlive
    exact Nat.add_right_cancel hlive

theorem keepCode_steady (q : Nat) (k : KernelRef) (code : Code) :
    (keepCode q k code).Along Steady := by
  refine Along.bind (on_steady (quiet_unended (kernelOf_quiet k.id)) k.owner) fun kernel => ?_
  split
  · refine (on_steady (unended_coarse.keepCode k.id code) k.owner).bind fun _ => ?_
    split
    · exact fun _ => ⟨rfl, rfl⟩
    · exact .done _
  · exact .done _

theorem runAt_steady (home q : Nat) (code : Code) (args : List Value) :
    (runAt home q code args).Along Steady := by
  refine Along.bind (on_steady ?slots q) fun _ => Along.bind (on_steady ?run home) fun x =>
    Along.bind (on_steady ?back q) fun _ => .answer x.1
  all_goals exact fun _ => rfl

theorem launch_steady (thread : Thread) (q : Nat) (k : KernelRef) (args : List Value) :
    (launch thread q k args).Along Steady := by
  refine .get_bind fun h => ?_
  split
  · exact on_steady (unended_coarse.launch runCode_unended thread k.id args) q h
  · refine Along.bind (on_steady (quiet_unended (kernelOf_quiet k.id)) k.owner) (fun kernel => ?_) h
    refine (on_steady (quiet_unended (prepare_quiet thread kernel args)) q).bind fun x => ?_
    refine (keepCode_steady q k x.2).bind fun _ => .get_bind fun t => ?_
    split
    · refine Along.bind (on_steady (quiet_unended (profilerStart_quiet _)) q) (fun _ => ?_) t
      refine (Along.attempt (runAt_steady _ q x.2 args)).bind fun r => ?_
      exact (on_steady (quiet_unended profilerStop_quiet) q).bind fun _ => .answer r
    · exact runAt_steady _ q x.2 args t

theorem compile_steady (thread : Thread) (q : Nat) (k : KernelRef) :
    (compile thread q k).Along Steady := by
  rw [compile]
  split
  · exact on_steady (unended_coarse.compile thread k.id) q
  · refine Along.bind (on_steady (quiet_unended (kernelOf_quiet k.id)) k.owner) fun kernel => ?_
    have hcode := (thisConfig_quiet thread).bind fun c => codeUnder_quiet c kernel
    exact (on_steady (quiet_unended hcode) q).bind fun code => keepCode_steady q k code

theorem readField_steady (thread : Thread) (q : Nat) (place : NodeId) (indices : List Int) :
    (readField thread q place indices).Along Steady :=
  (on_steady (accessor_unended .reader place) q).bind fun kernel =>
    (launch_steady thread q ⟨q, kernel⟩ _).bind fun _ =>
      on_steady (quiet_unended (readResult_quiet kernel)) q

theorem writeField_steady (thread : Thread) (q : Nat) (place : NodeId) (indices : List Int)
    (v : Value) : (writeField thread q place indices v).Along Steady :=
  (on_steady (accessor_unended .writer place) q).bind fun kernel =>
    launch_steady thread q ⟨q, kernel⟩ _

theorem createWith_tallied (thread : Thread) (c : Config) (b : Backend) (ht : h.Tallied) :
    ((createWith thread c b).on h).2.Tallied := by
  rw [createWith, on_answer_bind]
  cases hp : Program.create thread c b with
  | error e => exact ht
  | ok p =>
    have hlive : live { h with programs := h.programs.push p, instances := h.instances + 1 } =
        h.live + 1 := by
      simp [live, (create_ok hp).2.2.2]
    simp only [on_get_bind, on_set_bind, on_pure]
    rw [Tallied, hlive, UInt64.ofNat_add, ← ht]
    rfl

theorem create_tallied (thread : Thread) (c : Config) (ht : h.Tallied) :
    ((create thread c).on h).2.Tallied := by
  rw [create]
  generalize Backends.initial.resolve c.arch = x
  obtain ⟨arch, events⟩ := x
  simp only
  rw [on_modify_bind, on_get_bind, on_answer_bind]
  have hlog : Tallied { h with log := h.log ++ events } := ht
  split
  · exact createWith_tallied thread _ _ hlog
  · exact hlog

/-- What leaves a program ended is counted if the program was alive. -/
theorem ending_tallied {op : Op Unit} (hop : ∀ p, (Routine.on op p).2.finalized = true) (i : Nat)
    (ht : h.Tallied) : ((ending i op).on h).2.Tallied := by
  cases hp : h.programs[i]? with
  | none =>
    have hdead : h.isAlive i = false := by rw [isAlive, hp, Option.any_none]
    rw [ending, on_get_bind, hdead, on_bind, on_attempt, on_on_none op hp]
    exact ht
  | some p =>
    have hlive := live_on hp op
    rw [hop p, Bool.not_true, Bool.toNat_false, Nat.add_zero] at hlive
    rw [ending_on hp]
    change (if p.finalized then h.instances else h.instances - 1) =
      .ofNat ((Host.on i op).on h).2.live
    rw [ht, ← hlive]
    cases p.finalized with
    | true => rfl
    | false =>
      simp only [Bool.not_false, Bool.toNat_true, Bool.false_eq_true, if_false]
      rw [UInt64.ofNat_add]
      exact UInt64.add_sub_cancel ..

end Host

/-! ## Calls -/

namespace HostCall

open Host Program

variable {h : Host} {c : HostCall}

/-- The call ends no program, unless it finalizes or drops one. A command that does neither ends none
(`Command.unended`). -/
def EndsOpenly : HostCall → Prop
  | program _ op => op.Along Unended
  | _ => True

/-- The counter stands for the programs that are alive, after the call as before it. -/
theorem after_tallied (hc : c.EndsOpenly) (ht : h.Tallied) : (c.after h).Tallied := by
  cases c with
  | create thread c =>
    rw [after, action, on_bind_snd fun _ _ => rfl]
    exact create_tallied thread c ht
  | buildTree below =>
    rw [after, action, on_bind_snd fun _ _ => rfl]
    exact ht
  | takeLog => exact ht
  | program q op => exact (on_steady hc q h).tallied ht
  | finalize q => exact ending_tallied finalized_finalize q ht
  | drop q => exact ending_tallied finalized_drop q ht
  | compile thread q k => exact (compile_steady thread q k h).tallied ht
  | launch thread q k args => exact (launch_steady thread q k args h).tallied ht
  | readField thread q place indices =>
    rw [after, action, on_bind_snd fun _ _ => rfl]
    exact (readField_steady thread q place indices h).tallied ht
  | writeField thread q place indices v =>
    exact (writeField_steady thread q place indices v h).tallied ht

end HostCall

/-- Whatever is called on the programs of a host, its counter stands for those that are alive. -/
theorem HostRun.instances_eq {h : Host} {cs : List HostCall} (r : HostRun h cs)
    (hcs : ∀ c ∈ cs, c.EndsOpenly) : h.instances = .ofNat h.live := by
  induction r with
  | start => rfl
  | step c _ ih =>
    rw [List.forall_mem_append] at hcs
    exact c.after_tallied (hcs.2 c (List.mem_singleton.2 rfl)) (ih hcs.1)

end FieldCompute
