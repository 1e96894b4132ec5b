import FieldCompute.Proofs.Device.FreeLists
import FieldCompute.Proofs.Program.Teardown
/-!
# Failures at the end of a program

The teardown makes its calls one after the other, each once, whatever became of the ones before
(`Program.Attempted`), and the backend may refuse any of them. Whatever fails, the calls change
nothing of the program but its engine and what it tells (`Program.Attempted.frame`).
-/

namespace FieldCompute

open Routine

/-! ## The calls -/

/-- A call by which a program gives something back at its end. -/
inductive EndCall where
  | synchronize
  | releaseNdarray (a : Allocation)
  | releaseTexture (a : Allocation)
  | destroy (tree : Nat)
  | finalize
  /-- The one call that is made to the pool and not to the backend. -/
  | terminate
deriving DecidableEq, Repr

namespace EndCall

def op : EndCall → Op Unit
  | synchronize => Program.synchronize
  | releaseNdarray a => Program.onBackend (Backend.releaseNdarray a)
  | releaseTexture a => Program.onBackend (Backend.releaseTexture a)
  | destroy tree => Program.onBackend (Backend.destroy tree)
  | finalize => Program.onBackend Backend.finalize
  | terminate => Program.onEngine (Engine.onPool Pool.terminate)

/-- Why the backend refuses the call, if it does. -/
def refusal? (b : Backend) : EndCall → Option String
  | synchronize => b.refusal? .synchronize none
  | releaseNdarray a => b.refusal? .releaseNdarray a.id
  | releaseTexture a => b.refusal? .releaseTexture a.id
  | destroy tree => b.refusal? .destroy tree
  | finalize => b.refusal? .finalize none
  | terminate => none

end EndCall

namespace Program

/-- The calls that end a program: one for every array and every texture, and one for every tree
that may have storage. -/
def endCalls (p : Program) : List EndCall :=
  [.synchronize] ++ p.ndarrays.values.map (.releaseNdarray ·.allocation) ++
    p.textures.map (.releaseTexture ·.allocation) ++
    (p.trees.live.filter (!·.compileOnly)).map (.destroy ·.id) ++ [.finalize] ++ [.terminate]

theorem teardown_eq (p : Program) : p.teardown = p.endCalls.map EndCall.op := by
  simp [teardown, endCalls, EndCall.op, Function.comp_def]

/-! ## What a call does -/

/-- A call changes the engine at most. -/
theorem guarded_engine (a : Routine Engine Failure Unit) (call : BackendCall)
    (subject? : Option Nat) (p : Program) :
    ∃ e, ((onBackend (Backend.guarded call subject? a)).on p).2 = p.withEngine e := by
  cases h : p.backend.refusal? call subject? with
  | some reason => exact ⟨p.engine, by rw [guarded_refused h]; rfl⟩
  | none => exact ⟨(a.on p.engine).2, by rw [guarded_accepted h, onEngine_on]⟩

end Program

namespace EndCall

theorem op_refused {p : Program} {c : EndCall} {reason : String}
    (h : c.refusal? p.backend = some reason) :
    c.op.on p = (.error (.error (.runtime reason)), p) := by
  cases c with
  | terminate => cases h
  | _ => exact Program.guarded_refused h _

theorem op_engine (c : EndCall) (p : Program) : ∃ e, (c.op.on p).2 = p.withEngine e := by
  cases c with
  | terminate => exact ⟨_, rfl⟩
  | _ => exact Program.guarded_engine ..

end EndCall

namespace Program

/-! ## One call after the other -/

/-- The warning that is told if a step failed. -/
def warning : Except Failure Unit → List Event
  | .ok () => []
  | .error e => [.teardownStepFailed e.message]

/-- The program after it has been warned of how a step ended. -/
def warned (p : Program) (r : Except Failure Unit) : Program :=
  { p with events := p.events ++ warning r }

/-- The steps are taken one after the other, each once and whatever became of the ones before, and
these are their answers. -/
inductive Attempted : Program → List (Op Unit) → List (Except Failure Unit) → Program → Prop
  | nil {p : Program} : Attempted p [] [] p
  | cons {p q q' : Program} {step : Op Unit} {steps : List (Op Unit)} {r : Except Failure Unit}
      {answers : List (Except Failure Unit)} :
    step.on p = (r, q) → Attempted (q.warned r) steps answers q' →
      Attempted p (step :: steps) (r :: answers) q'

/-- The first failure among the answers. -/
def FirstFailure (answers : List (Except Failure Unit)) (e : Failure) : Prop :=
  ∃ before after, answers = before ++ .error e :: after ∧ ∀ r ∈ before, r = .ok ()

variable {p q : Program} {steps : List (Op Unit)} {answers : List (Except Failure Unit)}

/-- The failure that an answer is, if it is one. -/
def failure? : Except Failure Unit → Option Failure
  | .ok () => none
  | .error e => some e

theorem attemptStep_warned (step : Op Unit) (p : Program) :
    (attemptStep step).on p =
      (.ok (failure? (step.on p).1), (step.on p).2.warned (step.on p).1) := by
  rw [attemptStep_on]
  obtain ⟨e | _, q⟩ := step.on p
  · rfl
  · simp [failure?, warned, warning]

/-- All steps are taken. -/
theorem exists_attempted (steps : List (Op Unit)) (p : Program) :
    ∃ answers q, Attempted p steps answers q ∧
      (steps.mapM attemptStep).on p = (.ok (answers.map failure?), q) := by
  induction steps generalizing p with
  | nil => exact ⟨[], p, .nil, rfl⟩
  | cons step steps ih =>
    obtain ⟨answers, q, ha, hon⟩ := ih ((step.on p).2.warned (step.on p).1)
    refine ⟨(step.on p).1 :: answers, q, .cons rfl ha, ?_⟩
    rw [List.mapM_cons, on_bind_of_ok (attemptStep_warned step p), on_bind_of_ok hon]
    rfl

theorem findSome?_failure? {e : Failure} :
    (answers.map failure?).findSome? id = some e ↔ FirstFailure answers e := by
  have hok (r : Except Failure Unit) : failure? r = none ↔ r = .ok () := by
    cases r <;> simp [failure?]
  have herror (r : Except Failure Unit) : failure? r = some e ↔ r = .error e := by
    cases r <;> simp [failure?]
  simp [List.findSome?_map, List.findSome?_eq_some_iff, FirstFailure, hok, herror]

/-- The answer to all steps is the first failure, if there is one. -/
theorem runAll_on (steps : List (Op Unit)) (p : Program) :
    ∃ answers q r, Attempted p steps answers q ∧ (runAll steps).on p = (r, q) ∧
      (r = .ok () ↔ ∀ r ∈ answers, r = .ok ()) ∧ ∀ e, r = .error e ↔ FirstFailure answers e := by
  obtain ⟨answers, q, ha, hon⟩ := exists_attempted steps p
  rw [runAll, on_bind_of_ok hon]
  cases h : (answers.map failure?).findSome? id with
  | none =>
    refine ⟨answers, q, .ok (), ha, rfl, ?_, ?_⟩
    · simp only [true_iff]
      intro r hr
      have hnone := List.findSome?_eq_none_iff.1 h (failure? r) (List.mem_map_of_mem hr)
      cases r with
      | ok _ => rfl
      | error e => cases hnone
    · intro e
      rw [← findSome?_failure?, h]
      simp
  | some e =>
    have hfirst := findSome?_failure?.1 h
    refine ⟨answers, q, .error e, ha, rfl, ?_, ?_⟩
    · obtain ⟨before, after, rfl, -⟩ := hfirst
      refine ⟨fun hok => (by cases hok), fun hall => ?_⟩
      cases hall (.error e) (by simp)
    · intro e'
      rw [← findSome?_failure?, h]
      simp

namespace Attempted

/-- Steps along a relation are taken along it. -/
theorem along {R : Program → Program → Prop} [Std.Refl R] [IsTrans Program R]
    (h : Attempted p steps answers q) (hsteps : ∀ step ∈ steps, step.Along R)
    (hwarned : ∀ p r, R p (warned p r)) : R p q := by
  induction h with
  | nil => exact Std.Refl.refl _
  | @cons p q q' step steps r answers hs _ ih =>
    have hstep := (hsteps _ List.mem_cons_self).ends hs
    have hrest := ih fun step hm => hsteps step (List.mem_cons_of_mem _ hm)
    exact IsTrans.trans _ _ _ (IsTrans.trans _ _ _ hstep (hwarned q r)) hrest

/-- Steps that change the engine at most leave warnings besides. -/
theorem frame (h : Attempted p steps answers q)
    (hsteps : ∀ step ∈ steps, ∀ p : Program, ∃ e, (Routine.on step p).2 = p.withEngine e) :
    ∃ e, q = { p.withEngine e with events := p.events ++ answers.flatMap warning } := by
  induction h with
  | @nil p => exact ⟨p.engine, by simp [withEngine, engine]⟩
  | @cons p q q' step steps r answers hs _ ih =>
    obtain ⟨e, he⟩ := hsteps _ List.mem_cons_self p
    obtain ⟨e', rfl⟩ := ih fun step hm => hsteps step (List.mem_cons_of_mem _ hm)
    obtain rfl : q = p.withEngine e := by rwa [hs] at he
    exact ⟨e', by simp [warned, withEngine]⟩

/-- What the last step ends in, whatever is told afterwards. -/
theorem last {I : Program → Prop} {step : Op Unit}
    (h : Attempted p (steps ++ [step]) answers q) (hstep : ∀ p, I (Routine.on step p).2)
    (hwarned : ∀ p r, I p → I (warned p r)) : I q := by
  induction steps generalizing p answers with
  | nil =>
    obtain _ | ⟨hs, hrest⟩ := h
    cases hrest
    have hI := hstep p
    rw [hs] at hI
    exact hwarned _ _ hI
  | cons first steps ih =>
    obtain _ | ⟨-, hrest⟩ := h
    exact ih hrest

/-- A call that the backend refuses fails with the reason that is given, wherever it stands. -/
theorem refused {calls : List EndCall} (h : Attempted p (calls.map EndCall.op) answers q) {k : Nat}
    {c : EndCall} {reason : String} (hk : calls[k]? = some c)
    (hc : c.refusal? p.backend = some reason) :
    answers[k]? = some (.error (.error (.runtime reason))) := by
  induction calls generalizing p answers k with
  | nil => cases hk
  | cons first calls ih =>
    obtain _ | ⟨hs, hrest⟩ := h
    cases k with
    | zero =>
      cases hk
      rw [EndCall.op_refused hc] at hs
      cases hs
      rfl
    | succ k =>
      -- The refusals outlast the call, as it changes the engine at most.
      obtain ⟨e, he⟩ := first.op_engine p
      rw [hs] at he
      cases he
      exact ih hrest hk (by rw [← hc]; cases c <;> rfl)

end Attempted

/-! ## Finalizing -/

/-- Finalizing makes all calls on the emptied program, of which it changes the engine at most. In
the end the pool is terminated. -/
theorem finalize_attempted (hf : p.finalized = false) :
    ∃ answers e r, Attempted p.emptied (p.endCalls.map EndCall.op) answers (finalize.on p).2 ∧
      finalize.on p =
        (r, { p.emptied.withEngine e with events := p.events ++ answers.flatMap warning }) ∧
      (r = .ok () ↔ ∀ r ∈ answers, r = .ok ()) ∧ (∀ e, r = .error e ↔ FirstFailure answers e) ∧
      e.pool.terminated = true := by
  have hsteps : ∀ step ∈ p.endCalls.map EndCall.op, ∀ p : Program,
      ∃ e, (Routine.on step p).2 = p.withEngine e := by
    intro step hm p
    obtain ⟨c, -, rfl⟩ := List.mem_map.1 hm
    exact c.op_engine p
  have hlast : ∃ steps, p.endCalls.map EndCall.op = steps ++ [EndCall.terminate.op] :=
    ⟨_, List.map_append⟩
  have hterminate (p : Program) : (EndCall.terminate.op.on p).2.pool.terminated = true := by
    rw [EndCall.op, onPool_through]
    exact congrArg Pool.terminated (Pool.terminate_snd p.pool)
  obtain ⟨answers, q, r, ha, hon, hok, hfirst⟩ := runAll_on (p.endCalls.map EndCall.op) p.emptied
  have hfin : finalize.on p = (r, q) := by rw [finalize_on hf, teardown_eq, hon]
  obtain ⟨e, he⟩ := ha.frame hsteps
  obtain ⟨steps, hsplit⟩ := hlast
  have hpool : q.pool.terminated = true := by
    rw [hsplit] at ha
    exact ha.last (I := fun p => p.pool.terminated = true) hterminate fun _ _ h => h
  refine ⟨answers, e, r, by rwa [hfin], by rw [hfin, he]; rfl, hok, hfirst, ?_⟩
  rwa [he] at hpool

theorem drop_on (hf : p.finalized = true) : drop.on p = (.ok (), p) := by
  rw [drop, on_get_bind, hf]
  rfl

/-- Finalizing leaves an emptied program, unless the program has been finalized before. -/
theorem finalize_ends (p : Program) :
    (finalize.on p).2 = p ∨
      ∃ e events, (finalize.on p).2 = { p.emptied.withEngine e with events } := by
  cases hf : p.finalized with
  | true => exact .inl (by rw [finalize_twice hf])
  | false =>
    obtain ⟨_, e, _, -, hon, -⟩ := finalize_attempted hf
    exact .inr ⟨e, _, by rw [hon]⟩

theorem drop_emptied (hf : p.finalized = false) :
    ∃ e events, (drop.on p).2 = { p.emptied.withEngine e with events } := by
  obtain ⟨_, e, r, -, hon, -⟩ := finalize_attempted hf
  refine ⟨e, ?_⟩
  rw [drop, on_get_bind, hf]
  simp only [Bool.not_false, if_true]
  rw [on_bind, on_attempt, hon]
  cases r <;> exact ⟨_, rfl⟩

theorem drop_ends (p : Program) :
    (drop.on p).2 = p ∨ ∃ e events, (drop.on p).2 = { p.emptied.withEngine e with events } := by
  cases hf : p.finalized with
  | true => exact .inl (by rw [drop_on hf])
  | false => exact .inr (drop_emptied hf)

theorem finalized_finalize (p : Program) : (finalize.on p).2.finalized = true := by
  cases hf : p.finalized with
  | true => rw [finalize_twice hf, hf]
  | false =>
    obtain ⟨_, _, _, -, hon, -⟩ := finalize_attempted hf
    rw [hon]
    rfl

theorem finalized_drop (p : Program) : (drop.on p).2.finalized = true := by
  cases hf : p.finalized with
  | true => rw [drop_on hf, hf]
  | false =>
    obtain ⟨_, _, hon⟩ := drop_emptied hf
    rw [hon]
    rfl

end Program

end FieldCompute
