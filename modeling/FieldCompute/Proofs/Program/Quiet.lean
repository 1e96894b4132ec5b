import FieldCompute.Proofs.Program.Moves
/-!
# Quiet operations

Settings, results, profile, functions and counters are no business of trees, kernels or memory: the
operations on them are `Quiet`. What compiling and measuring do besides answering is only `Told`.
`guarded_on` and `compileUnder_outcome` say what backend calls come to on a backend that refuses
none.
-/

namespace FieldCompute

open Routine Relation

namespace Program

variable {α : Type} {p p' : Program}

theorem Hosted.of_backend (h : p.Hosted) (hb : p'.backend = p.backend) : p'.Hosted :=
  (congrArg Backend.refusals hb).trans h

theorem onBackend_on (a : Routine Backend Failure α) (p : Program) :
    (onBackend a).on p = ((a.on p.backend).1, { p with backend := (a.on p.backend).2 }) := rfl

theorem onEngine_on (a : Routine Engine Failure α) (p : Program) :
    (onEngine a).on p = ((a.on p.engine).1, p.withEngine (a.on p.engine).2) := rfl

/-- What is refused does nothing. -/
theorem guarded_refused {call : BackendCall} {subject? : Option Nat} {reason : String}
    (h : p.backend.refusal? call subject? = some reason) (a : Routine Engine Failure α) :
    (onBackend (Backend.guarded call subject? a)).on p =
      (.error (.error (.runtime reason)), p) := by
  rw [onBackend_on, Backend.guarded, on_get_bind, h]
  rfl

/-- What is not refused is a call of the engine. -/
theorem guarded_accepted {call : BackendCall} {subject? : Option Nat}
    (h : p.backend.refusal? call subject? = none) (a : Routine Engine Failure α) :
    (onBackend (Backend.guarded call subject? a)).on p = (onEngine a).on p := by
  rw [onBackend_on, Backend.guarded, on_get_bind, h]
  rfl

theorem Hosted.refusal? (h : p.Hosted) (call : BackendCall) (subject? : Option Nat) :
    p.backend.refusal? call subject? = none := by
  simp only [Backend.refusal?, show p.backend.refusals = [] from h, List.find?_nil, Option.map_none]

theorem guarded_on (h : p.Hosted) (call : BackendCall) (subject? : Option Nat)
    (a : Routine Engine Failure α) :
    (onBackend (Backend.guarded call subject? a)).on p = (onEngine a).on p :=
  guarded_accepted (h.refusal? call subject?) a

/-- Settings, events and the profile may differ, and nothing else. -/
def Told (p p' : Program) : Prop :=
  ∃ overlay profiler events, p' = { p with overlay, profiler, events }

instance : Std.Refl Told := ⟨fun p => ⟨p.overlay, p.profiler, p.events, rfl⟩⟩

instance : IsTrans Program Told where
  trans := by
    rintro p _ _ ⟨_, _, _, rfl⟩ ⟨overlay, profiler, events, rfl⟩
    exact ⟨overlay, profiler, events, rfl⟩

theorem Told.discreet (h : p.Told p') : p.Discreet p' := by
  obtain ⟨_, _, _, rfl⟩ := h
  exact ⟨.of_lasting rfl (Nat.le_refl _), rfl, rfl⟩

theorem Told.quiet (h : p.Told p') : p.Quiet p' := h.discreet.toQuiet

theorem answered_quiet (r : Except Failure α) : (Routine.answer r : Op α).Along Quiet := .answer r

theorem kernelOf_on (id : Nat) (p : Program) :
    (kernelOf id).on p = match p.kernels.find? id with
      | some k => (.ok k, p)
      | none => (.error (.misuse (.unknownKernel id)), p) := by
  rw [kernelOf, on_get_bind]
  cases p.kernels.find? id <;> rfl

theorem kernelOf_known {id : Nat} {k : Kernel} (hk : p.kernels.find? id = some k) :
    (kernelOf id).on p = (.ok k, p) := by rw [kernelOf_on, hk]

theorem kernelOf_unknown {id : Nat} (hk : p.kernels.find? id = none) :
    (kernelOf id).on p = (.error (.misuse (.unknownKernel id)), p) := by rw [kernelOf_on, hk]

theorem kernelOf_still (id : Nat) (p : Program) : ((kernelOf id).on p).2 = p := by
  rw [kernelOf_on]
  split <;> rfl

theorem kernelOf_quiet (id : Nat) : (kernelOf id).Along Quiet := by
  intro p
  rw [kernelOf_still]
  exact Std.Refl.refl p

theorem tell_told (events : List Event) : (tell events).Along Told := fun _ => ⟨_, _, _, rfl⟩

theorem tell_quiet (events : List Event) : (tell events).Along Quiet :=
  (tell_told events).mono Told.quiet

theorem thisConfig_told (thread : Thread) : (thisConfig thread).Along Told :=
  fun _ => ⟨_, _, _, rfl⟩

theorem thisConfig_quiet (thread : Thread) : (thisConfig thread).Along Quiet :=
  (thisConfig_told thread).mono Told.quiet

theorem updateConfig_quiet (thread : Thread) (change : Config → Config) :
    (updateConfig thread change).Along Quiet := fun _ => .of_lasting rfl (Nat.le_refl _)

theorem storeResult_quiet (slot : Nat) (w : UInt64) : (storeResult slot w).Along Quiet :=
  .get_bind fun p => by
    rw [allowed, on_answer_bind]
    split
    · exact .of_lasting rfl (Nat.le_refl _)
    · exact Std.Refl.refl p

theorem takeResults_quiet (slots : ResultSlots) :
    (modify ({ · with slots }) : Op Unit).Along Quiet := fun _ => .of_lasting rfl (Nat.le_refl _)

theorem profilerStart_told (name : String) : (profilerStart name).Along Told :=
  fun _ => ⟨_, _, _, rfl⟩

theorem profilerStop_told : profilerStop.Along Told := fun _ => ⟨_, _, _, rfl⟩

theorem profilerStart_quiet (name : String) : (profilerStart name).Along Quiet :=
  (profilerStart_told name).mono Told.quiet

theorem profilerStop_quiet : profilerStop.Along Quiet := profilerStop_told.mono Told.quiet

theorem clearProfile_quiet : clearProfile.Along Quiet := fun _ => .of_lasting rfl (Nat.le_refl _)

theorem takeKernelId_quiet : takeKernelId.Along Quiet :=
  fun _ => .of_lasting rfl (Nat.le_succ _)

theorem takeGlobalId_quiet : takeGlobalId.Along Quiet := fun _ => .of_lasting rfl (Nat.le_refl _)

theorem function_quiet (key : FunctionKey) : (function key).Along Quiet :=
  .get_bind fun p => by
    split
    · exact Std.Refl.refl p
    · exact .of_lasting rfl (Nat.le_refl _)

theorem setBody_quiet (f : Nat) (b : Block) : (setBody f b).Along Quiet :=
  .get_bind fun p => by
    split
    · exact Std.Refl.refl p
    · exact .of_lasting rfl (Nat.le_refl _)

theorem compileUnder_told (c : Config) (k : Kernel) : (compileUnder c k).Along Told := by
  refine (Along.answer _).bind fun body => ?_
  split
  · exact (tell_told _).bind fun _ => .get_bind fun p => Along.answer _ p
  · exact .get_bind fun p => Along.answer _ p

theorem codeUnder_told (c : Config) (k : Kernel) : (codeUnder c k).Along Told := by
  unfold codeUnder
  split
  · exact .done _
  · exact compileUnder_told c k

theorem codeUnder_quiet (c : Config) (k : Kernel) : (codeUnder c k).Along Quiet :=
  (codeUnder_told c k).mono Told.quiet

theorem prepare_told (thread : Thread) (k : Kernel) (args : List Value) :
    (prepare thread k args).Along Told := by
  have h : (do let c ← thisConfig thread; return (c, ← codeUnder c k) : Op _).Along Told :=
    (thisConfig_told thread).bind fun c => (codeUnder_told c k).bind fun _ => .done _
  unfold prepare
  split
  · exact (Along.fail _).bind fun _ => h
  · exact h

theorem prepare_quiet (thread : Thread) (k : Kernel) (args : List Value) :
    (prepare thread k args).Along Quiet := (prepare_told thread k args).mono Told.quiet

/-- Compiling fails as lowering does, or as the backend does, and else gives the lowered body. -/
theorem compileUnder_on (c : Config) (k : Kernel) (p : Program) :
    ∃ q, p.Told q ∧ (compileUnder c k).on p =
      (match k.lower c.advancedOptimization with
      | .error e => .error (.error e)
      | .ok body =>
        match p.backend.refusal? .compile none with
        | some reason => .error (.error (.compilation k.name reason))
        | none => .ok ⟨k.name, body, c.checksBounds⟩, q) := by
  refine ⟨_, compileUnder_told c k p, Prod.ext ?_ rfl⟩
  have hc (q : Program) (hq : q.backend = p.backend) (body : Block) :
      (q.backend.compile c k.name body).mapError Failure.error =
        match p.backend.refusal? .compile none with
        | some reason => .error (.error (.compilation k.name reason))
        | none => .ok ⟨k.name, body, c.checksBounds⟩ := by
    rw [Backend.compile, hq]
    cases p.backend.refusal? .compile none <;> rfl
  rw [compileUnder, expect, on_answer_bind]
  cases k.lower c.advancedOptimization with
  | error e => rfl
  | ok body =>
    simp only [Outcome.mapError_ok]
    split
    · rw [tell, on_modify_bind, on_get_bind, expect, on_answer]
      exact hc _ rfl body
    · rw [on_get_bind, expect, on_answer]
      exact hc _ rfl body

/-- A backend that refuses nothing compiles what lowers. -/
theorem compileUnder_outcome (h : p.Hosted) (c : Config) (k : Kernel) :
    ∃ q, p.Told q ∧ (compileUnder c k).on p =
      (match k.lower c.advancedOptimization with
      | .ok body => .ok ⟨k.name, body, c.checksBounds⟩
      | .error e => .error (.error e), q) := by
  obtain ⟨q, hq, hon⟩ := compileUnder_on c k p
  refine ⟨q, hq, ?_⟩
  rw [hon, h.refusal?]
  cases k.lower c.advancedOptimization <;> rfl

/-- The code of a kernel is what it has or what it makes. -/
theorem codeUnder_makes (hp : p.Hosted) {c : Config} {k : Kernel} {code : Code}
    (h : (codeUnder c k).on p = (.ok code, p')) : k.code? = some code ∨ k.Makes code := by
  unfold codeUnder at h
  split at h
  · cases h; exact .inl ‹_›
  · obtain ⟨q, -, hc⟩ := compileUnder_outcome hp c k
    rw [h] at hc
    cases hl : k.lower c.advancedOptimization with
    | error e => rw [hl] at hc; cases hc
    | ok body => rw [hl] at hc; cases hc; exact .inr ⟨rfl, _, hl⟩

end Program

end FieldCompute
