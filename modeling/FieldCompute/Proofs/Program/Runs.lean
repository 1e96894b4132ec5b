import FieldCompute.Program.Fields
import FieldCompute.Program.Resources
import FieldCompute.Program.Teardown
/-!
# Runs of a program

A run starts with a fresh program on the host backend, whatever memory that can reserve at once, and
goes on with commands, by any threads in any order, successful or refused. Commands that only look
are left out. Besides the program's own operations there are those that other programs do to it
(they compile its kernels, have it run theirs and hand it results) and those that callers do through
its device and its pool. A property of all runs holds of every order in which callers take turns.
-/

namespace FieldCompute

/-- What somebody does to a program. -/
inductive Command where
  | updateConfig (thread : Thread) (change : Config → Config)
  | readConfig (thread : Thread)
  | storeResult (slot : Nat) (w : UInt64)
  | profilerStart (name : String)
  | profilerStop
  | clearProfile
  | takeKernelId
  | takeGlobalId
  | checkFault
  | synchronize
  | addTree (root : Node) (compileOnly : Bool)
  | destroyTree (tree : Nat)
  | accessor (a : Accessor) (place : NodeId)
  | readField (thread : Thread) (place : NodeId) (indices : List Int)
  | writeField (thread : Thread) (place : NodeId) (indices : List Int) (v : Value)
  | createKernel (name : String) (mode : AutodiffMode) (steps : List DraftStep)
  | compile (thread : Thread) (kernel : Nat)
  | launch (thread : Thread) (kernel : Nat) (args : List Value)
  | evaluator (key : EvaluatorKey)
  | evaluateUnary (thread : Thread) (op : UnaryOp) (v : Value) (operand ret : DType)
  | evaluateBinary (thread : Thread) (op : BinaryOp) (a : Value) (lhs : DType) (b : Value)
    (rhs ret : DType)
  | function (key : FunctionKey)
  | setBody (f : Nat) (b : Block)
  | allocateMemory (size : Nat) (zero : Bool)
  | allocateImage (i : Image)
  | createNdarray (dtype : DType) (shape : List Nat) (layout : ArrayLayout) (zero : Bool)
  | deleteNdarray (ndarray : Nat)
  | fillNdarray (ndarray : Nat) (pattern : UInt32)
  | createTexture (i : Image)
  | finalize
  | drop
  /-- Another program compiles a kernel of this one under settings of its own. -/
  | adoptCode (kernel : Nat) (c : Config)
  /-- The program gets a kernel of another program ready, with its own settings. -/
  | prepareGuest (thread : Thread) (k : Kernel) (args : List Value)
  /-- The program's backend runs a kernel of another program, with the results going elsewhere. -/
  | runGuest (k : Kernel) (c : Config) (args : List Value) (slots : ResultSlots)
  /-- Results come back from a run elsewhere. -/
  | takeResults (slots : ResultSlots)
  | deviceAllocate (size : Nat)
  | deviceImage (i : Image)
  | deviceFree (a : Allocation)
  | deviceWrite (p : Pointer) (bytes : List UInt8)
  | deviceFill (a : Allocation) (pattern : UInt32)
  | poolAllocate (size : Nat) (zero : Bool)
  | poolRelease (a : Allocation)
  | poolTerminate

namespace Program

/-- On whatever backend it is, a new program has made no evaluators, has told nothing and goes on. -/
theorem create_ok {thread : Thread} {c : Config} {b : Backend} {p : Program}
    (h : create thread c b = .ok p) :
    p.evaluators = .empty ∧ p.nextEvaluator = 0 ∧ p.events = [] ∧ p.finalized = false := by
  unfold create at h
  generalize Backend.start.on b = x at h
  obtain ⟨started, backend⟩ := x
  simp only at h
  split at h
  · cases h
  · cases started <;> cases h
    exact ⟨rfl, rfl, rfl, rfl⟩

/-- Keeps the code that another program on the host backend makes of a kernel. -/
def adoptCode (id : Nat) (c : Config) : Op Unit := do
  let k ← kernelOf id
  let body ← expect (k.lower c.advancedOptimization)
  keepCode id ⟨k.name, body, c.checksBounds⟩

/-- Runs a kernel of another program, compiled under settings of its own. -/
def runGuest (k : Kernel) (c : Config) (args : List Value) (slots : ResultSlots) : Op Unit := do
  let body ← expect (k.lower c.advancedOptimization)
  (Engine.run ⟨k.name, body, c.checksBounds⟩ args).zoom (fun p => (p.engine, slots))
    fun (engine, _) p => p.withEngine engine

end Program

namespace Command

open Program

private def quietly {α : Type} (op : Op α) : Op (Option Allocation) := do
  let _ ← op
  return none

/-- The operation, with the allocation that the caller gets from it. -/
def action : Command → Op (Option Allocation)
  | updateConfig thread change => quietly (Program.updateConfig thread change)
  | readConfig thread => quietly (thisConfig thread)
  | storeResult slot w => quietly (Program.storeResult slot w)
  | profilerStart name => quietly (Program.profilerStart name)
  | profilerStop => quietly Program.profilerStop
  | clearProfile => quietly Program.clearProfile
  | takeKernelId => quietly Program.takeKernelId
  | takeGlobalId => quietly Program.takeGlobalId
  | checkFault => quietly Program.checkFault
  | synchronize => quietly Program.synchronize
  | addTree root compileOnly => quietly (Program.addTree root compileOnly)
  | destroyTree tree => quietly (Program.destroyTree tree)
  | accessor a place => quietly (Program.accessor a place)
  | readField thread place indices => quietly (Program.readField thread place indices)
  | writeField thread place indices v => quietly (Program.writeField thread place indices v)
  | createKernel name mode steps => quietly (Program.createKernel name mode steps)
  | compile thread kernel => quietly (Program.compile thread kernel)
  | launch thread kernel args => quietly (Program.launch thread kernel args)
  | evaluator key => quietly (Program.evaluator key)
  | evaluateUnary thread op v operand ret =>
    quietly (Program.evaluateUnary thread op v operand ret)
  | evaluateBinary thread op a lhs b rhs ret =>
    quietly (Program.evaluateBinary thread op a lhs b rhs ret)
  | function key => quietly (Program.function key)
  | setBody f b => quietly (Program.setBody f b)
  | allocateMemory size zero => some <$> Program.allocateMemory size zero
  | allocateImage i => some <$> Program.allocateImage i
  | createNdarray dtype shape layout zero => quietly (Program.createNdarray dtype shape layout zero)
  | deleteNdarray ndarray => quietly (Program.deleteNdarray ndarray)
  | fillNdarray ndarray pattern => quietly (Program.fillNdarray ndarray pattern)
  | createTexture i => quietly (Program.createTexture i)
  | finalize => quietly Program.finalize
  | drop => quietly Program.drop
  | adoptCode kernel c => quietly (Program.adoptCode kernel c)
  | prepareGuest thread k args => quietly (prepare thread k args)
  | runGuest k c args slots => quietly (Program.runGuest k c args slots)
  | takeResults slots => quietly (modify ({ · with slots }))
  | deviceAllocate size => some <$> onEngine (Engine.onPool (Pool.fromDevice (·.allocate size)))
  | deviceImage i => some <$> onEngine (Engine.onPool (Pool.fromDevice (·.allocateImage i)))
  | deviceFree a => quietly (onEngine (Engine.onPool (Pool.onDevice (·.deallocate a))))
  | deviceWrite p bytes => quietly (onEngine (Engine.onPool (Pool.onDevice (·.write p bytes))))
  | deviceFill a pattern => quietly (onEngine (Engine.onPool (Pool.onDevice (·.fill a pattern))))
  | poolAllocate size zero => some <$> onEngine (Engine.onPool (Pool.allocate size zero))
  | poolRelease a => quietly (onEngine (Engine.onPool (Pool.release a)))
  | poolTerminate => quietly (onEngine (Engine.onPool Pool.terminate))

/-- The allocation that the caller gives up. -/
def surrendered? : Command → Option Allocation
  | deviceFree a | poolRelease a => some a
  | _ => none

end Command

/-- A program and the allocations that its callers got and still hold. -/
structure World where
  program : Program
  held : List Allocation

namespace World

/-- What is still held when an allocation has been given up. -/
def keep (held : List Allocation) : Option Allocation → List Allocation
  | none => held
  | some a => held.filter (·.id ≠ a.id)

/-- The world after a command. What a refused command gives up stays held. -/
def step (w : World) (c : Command) : World :=
  match c.action.on w.program with
  | (.ok (some a), p) => ⟨p, a :: w.held⟩
  | (.ok none, p) => ⟨p, keep w.held c.surrendered?⟩
  | (.error _, p) => ⟨p, w.held⟩

/-- The world of a program with the default settings that was just made. -/
def fresh : World where
  program := {
    arch := .host, overlay := .create 0 {}
    backend := { Backend.host {} with engine := { Engine.create {} with attached := true } }
    profiler := .empty, slots := .empty, trees := .empty, accessors := .empty, kernels := .empty
    listed := [], functions := [], functionIndex := .empty, evaluators := .empty
    nextEvaluator := 0, ndarrays := .empty, nextNdarray := 0, textures := [], nextKernel := 0
    nextGlobal := 0, finalized := false, events := [] }
  held := []

end World

/-- The worlds that a program on the host backend comes to, with the commands on the way there, each
of which was `ok`. -/
inductive Run (ok : World → Command → Prop) : World → List Command → Prop
  | start {thread : Thread} {c : Config} {reservable : Nat} {p : Program} :
    Program.create thread c (.host c reservable) = .ok p → Run ok ⟨p, []⟩ []
  | step {w : World} {cs : List Command} (c : Command) :
    Run ok w cs → ok w c → Run ok (w.step c) (cs ++ [c])

namespace Run

variable {ok : World → Command → Prop} {w : World} {cs : List Command}

theorem fresh : Run ok .fresh [] := .start (c := {}) rfl

theorem once {c : Command} (h : ok .fresh c) : Run ok (World.fresh.step c) [c] := .step c fresh h

theorem mono {ok' : World → Command → Prop} (h : ∀ w c, ok w c → ok' w c) (r : Run ok w cs) :
    Run ok' w cs := by
  induction r with
  | start hp => exact .start hp
  | step c _ hc ih => exact .step c ih (h _ _ hc)

/-- A run goes on with any commands. -/
theorem foldl (r : Run ok w cs) (later : List Command) :
    Run (fun _ _ => True) (later.foldl World.step w) (cs ++ later) := by
  induction later generalizing w cs ok with
  | nil => simpa using r.mono fun _ _ _ => trivial
  | cons c later ih =>
    have r' : Run (fun _ _ => True) w cs := r.mono fun _ _ _ => trivial
    rw [List.append_cons]
    exact ih (r'.step c trivial)

/-- What is true of all commands on the way there is true of each when it is given. -/
theorem and_all {P : Command → Prop} (r : Run ok w cs) (h : ∀ c ∈ cs, P c) :
    Run (fun w c => ok w c ∧ P c) w cs := by
  induction r with
  | start hp => exact .start hp
  | step c _ hc ih =>
    rw [List.forall_mem_append] at h
    exact .step c (ih h.1) ⟨hc, h.2 c (List.mem_singleton.2 rfl)⟩

/-- What holds at the start and after every command holds all along. -/
theorem inv {P : World → Prop}
    (start : ∀ {thread c reservable p},
      Program.create thread c (.host c reservable) = .ok p → P ⟨p, []⟩)
    (step : ∀ {w c}, P w → ok w c → P (w.step c)) (r : Run ok w cs) : P w := by
  induction r with
  | start hp => exact start hp
  | step c _ hc ih => exact step ih hc

end Run

end FieldCompute
