import FieldCompute.Proofs.Program.Unrecorded
/-!
# What becomes of the record of faults

A program remembers one fault. A command leaves the record alone, or it runs code and adds the fault
that this ends in, if there is none yet, or it checks for faults and empties it (`World.step_fault`).
-/

namespace FieldCompute

open Routine

/-! ## Running code -/

/-- Code that runs, on its arguments and with the result slots that it finds. -/
structure Execution where
  code : Code
  args : List Value
  slots : ResultSlots

namespace Program

/-- The message of the fault that the code ends in on the program as it is, if it does. -/
def faultIn? (p : Program) (x : Execution) : Option String :=
  Engine.faultAfter? x.code ((p.engine.launchOf x.code x.args).run ⟨p.device, x.slots⟩).1

/-- The fault that the code ends in is recorded, if there is code and no fault yet. -/
def Records (p : Program) (x? : Option Execution) (q : Program) : Prop :=
  q.engine.fault = p.engine.fault.or (x?.bind p.faultIn?)

variable {α : Type} {p p' q : Program} {x? : Option Execution} {thread : Thread} {find : Op Nat}
  {id : Nat} {k : Kernel} {code : Code} {args : List Value}

theorem Records.trans (h : p.Records x? q) (h' : q.Unrecorded p') : p.Records x? p' := Eq.trans h' h

/-- Whose run it is makes no difference, only the engine does. -/
theorem Records.of_backend (h : q.Records x? p') (hb : q.backend = p.backend) :
    p.Records x? p' := by
  have he : q.engine = p.engine := congrArg Backend.engine hb
  rw [Records, he] at h
  rw [Records, h]
  congr 2
  funext x
  rw [faultIn?, faultIn?, device, device, he]

/-- The code that runs if the kernel is launched that `find` comes to. -/
def readied? (p : Program) (thread : Thread) (find : Op Nat) (args : List Value) : Option Code :=
  ((do let k ← kernelOf (← find); return (← prepare thread k args).2 : Op Code).on p).1.toOption

theorem readied?_unknown (hk : p.kernels.find? id = none) :
    p.readied? thread (pure id) args = none := by
  rw [readied?, on_bind_of_ok (on_pure id p), on_bind_of_error (kernelOf_unknown hk)]
  rfl

theorem readied?_known (hk : p.kernels.find? id = some k) :
    p.readied? thread (pure id) args = (((prepare thread k args).on p).1.map (·.2)).toOption := by
  rw [readied?, on_bind_of_ok (on_pure id p), on_bind_of_ok (kernelOf_known hk), on_bind]
  obtain ⟨_ | _, _⟩ := (prepare thread k args).on p <;> rfl

/-- What a launch comes to, by the code that is readied for it. -/
inductive Launched (p : Program) (id : Nat) (args : List Value) :
    Option Code → Except Failure Unit × Program → Prop
  | unready {f : Failure} {q : Program} :
    (∀ kernel place indices shape, f ≠ .error (.outOfBounds kernel place indices shape)) →
    p.Discreet q → Launched p id args none (.error f, q)
  | ran {k : Kernel} {code : Code} {x : Except Failure Unit × Program} :
    p.kernels.find? id = some k → Runs k code → Ran p k code args x →
    Launched p id args (some code) x

theorem launched (hp : p.Hosted) (thread : Thread) (id : Nat) (args : List Value) :
    Launched p id args (p.readied? thread (pure id) args) ((launch thread id args).on p) := by
  cases hk : p.kernels.find? id with
  | none =>
    rw [readied?_unknown hk, launch_unknown hk]
    exact .unready (fun _ _ _ _ h => (by cases h)) (Std.Refl.refl p)
  | some k =>
    have h := prepared hp thread k args
    rw [readied?_known hk]
    generalize hx : (prepare thread k args).on p = x at h
    cases h with
    | miscounted hn =>
      rw [launch_unready hk hx]
      exact .unready (fun _ _ _ _ h => (by cases h)) (Std.Refl.refl p)
    | defective hl hq =>
      rw [launch_unready hk hx]
      refine .unready (fun kernel place indices shape h => ?_) hq
      rcases Kernel.lower_error hl with ⟨_, rfl⟩ | ⟨_, rfl⟩ <;> cases h
    | ready hargs hc hq =>
      obtain ⟨r, t, hr, ht, hon⟩ := launch_ready hk hx hc hq
      rw [hon]
      exact .ran hk hc (runCode_ran hr ht)

end Program

/-! ## Commands -/

/-- What a command has to tell about faults: there was one, or they were checked for. -/
inductive Notice where
  | fault (message : String)
  | checked
deriving DecidableEq, Repr

/-- What the record of faults becomes. -/
def Notice.record (fault : Option String) : Notice → Option String
  | .fault message => fault.or (some message)
  | .checked => none

end FieldCompute
