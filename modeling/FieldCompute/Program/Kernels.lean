import FieldCompute.Program
/-!
# Kernels of a program

A kernel is compiled once, when it is first needed, under the settings of the thread that needs it;
from then on its code is kept. A launch checks the number of arguments, compiles if it must, and
runs the code with the program's result slots.
-/

namespace FieldCompute.Program

variable {α : Type}

def kernelOf (id : Nat) : Op Kernel := do
  match (← get).kernels.find? id with
  | some k => pure k
  | none => throw (.misuse (.unknownKernel id))

/-- Keeps a kernel, new or changed. -/
def keepKernel (k : Kernel) : Op Unit :=
  modify fun p => { p with kernels := p.kernels.insert k.id k }

/-- Makes and lists a kernel; `make` is given its id. -/
def addKernel (make : Nat → Kernel) : Op Nat := do
  let id ← takeKernelId
  keepKernel (make id)
  modify fun p => { p with listed := p.listed ++ [id] }
  return id

/-- Makes a kernel from its construction. -/
def createKernel (name : String) (mode : AutodiffMode) (steps : List DraftStep) : Op Nat :=
  addKernel fun id => .create id name (.ofSteps steps) mode

/-- The listed kernels. -/
def kernelList (p : Program) : List Kernel := p.listed.filterMap p.kernels.find?

/-! ## Compiling -/

/-- Compiles a kernel under some settings. The code is not kept. -/
def compileUnder (c : Config) (k : Kernel) : Op Code := do
  let body ← expect (k.lower c.advancedOptimization)
  if c.printIr then tell [.loweredBody k.name body.text]
  expect ((← get).backend.compile c k.name body)

/-- The code of a kernel: what it has, or else what compiling it gives. -/
def codeUnder (c : Config) (k : Kernel) : Op Code :=
  match k.code? with
  | some code => pure code
  | none => compileUnder c k

/-- Keeps the code of a kernel, unless it has some. -/
def keepCode (id : Nat) (code : Code) : Op Unit := do
  let k ← kernelOf id
  keepKernel { k with code? := k.code?.or (some code) }

def compile (thread : Thread) (id : Nat) : Op Unit := do
  let k ← kernelOf id
  let c ← thisConfig thread
  keepCode id (← codeUnder c k)

/-! ## Launching -/

/-- What a launch of a kernel does before the code runs: the settings and the code. -/
def prepare (thread : Thread) (k : Kernel) (args : List Value) : Op (Config × Code) := do
  if args.length ≠ k.args.length then
    throw (.error (.argumentCount k.name k.args.length args.length))
  let c ← thisConfig thread
  return (c, ← codeUnder c k)

/-- Runs a routine and measures it if the settings ask for it, also if it fails. -/
def timed (c : Config) (name : String) (a : Op α) : Op α := do
  if c.kernelProfiler then
    profilerStart name
    let r ← a.attempt
    profilerStop
    .answer r
  else a

/-- Runs code with the program's result slots. -/
def runCode (code : Code) (args : List Value) : Op Unit :=
  (Engine.run code args).zoom (fun p => (p.engine, p.slots)) fun (engine, slots) p =>
    { p with slots }.withEngine engine

/-- Runs code with fresh result slots and gives them. -/
def runApart (code : Code) (args : List Value) : Op ResultSlots :=
  .of fun p =>
    let (r, engine, slots) := (Engine.run code args).on (p.engine, .empty)
    (r.map fun _ => slots, p.withEngine engine)

def launch (thread : Thread) (id : Nat) (args : List Value) : Op Unit := do
  let k ← kernelOf id
  let (c, code) ← prepare thread k args
  keepCode id code
  timed c k.name (runCode code args)

/-- A value that the kernel returned in slot 0. -/
def resultOf (k : Kernel) (slots : ResultSlots) (dtype : DType) : Op Value := do
  let w ← allowed (slots.load 0)
  match Value.decode? w dtype with
  | some v => pure v
  | none => throw (.error (.evaluation k.name "result 0"))

/-! ## Evaluators -/

/-- The kernel for a key. It is made and compiled, without optimization, when the key is first
asked for; if that fails nothing is kept. -/
def evaluator (key : EvaluatorKey) : Op Nat := do
  let p ← get
  match p.evaluators.find? key with
  | some id => pure id
  | none =>
    set { p with nextEvaluator := p.nextEvaluator + 1 }
    let id ← takeKernelId
    let k := key.kernel id p.nextEvaluator
    let c ← thisConfig key.thread
    let code ← compileUnder { c with advancedOptimization := false } k
    keepKernel { k with code? := some code }
    modify fun p => { p with evaluators := p.evaluators.insert key id }
    return id

/-- Evaluates an operator on constants through its evaluator, with result slots of its own. -/
def evaluate (key : EvaluatorKey) (args : List Value) : Op Value := do
  let k ← kernelOf (← evaluator key)
  let (c, code) ← prepare key.thread k args
  let slots ← timed c k.name (runApart code args)
  resultOf k slots key.ret

def evaluateUnary (thread : Thread) (op : UnaryOp) (v : Value) (operand ret : DType) : Op Value :=
  evaluate ⟨thread, .unary op, ret, operand, operand, ""⟩ [v]

def evaluateBinary (thread : Thread) (op : BinaryOp) (a : Value) (lhs : DType) (b : Value)
    (rhs ret : DType) : Op Value :=
  evaluate ⟨thread, .binary op, ret, lhs, rhs, ""⟩ [a, b]

/-! ## Functions -/

/-- The function of a key, made when the key is first asked for. -/
def function (key : FunctionKey) : Op Nat := do
  let p ← get
  match p.functionIndex.find? key.identity with
  | some i => pure i
  | none =>
    let i := p.functions.length
    set { p with
      functions := p.functions ++ [Function.create key]
      functionIndex := p.functionIndex.insert key.identity i }
    return i

/-- Sets the body of a function, unless it has one; says whether it did. -/
def setBody (i : Nat) (b : Block) : Op Bool := do
  let p ← get
  match p.functions[i]? with
  | none => pure false
  | some f =>
    let (done, f) := f.setBody b
    set { p with functions := p.functions.set i f }
    return done

end FieldCompute.Program
