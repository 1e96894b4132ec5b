import FieldCompute.Block.Liveness
import FieldCompute.Config
import FieldCompute.Failure
import FieldCompute.ResultSlots
import FieldCompute.Text.Messages
/-!
# Kernels

A kernel is a body with a signature. The signature grows with the body: a draft that takes an
argument declares it, and a draft that returns a value declares a result of that value's type.
Lowering checks a body against its signature and, if the settings ask for it, drops dead code.
-/

namespace FieldCompute

inductive AutodiffMode where
  | off | forward | reverse | check
deriving DecidableEq, Repr, Inhabited

namespace AutodiffMode

def all : List AutodiffMode := [off, forward, reverse, check]

def name : AutodiffMode → String
  | off => "none"
  | forward => "forward"
  | reverse => "reverse"
  | check => "check_autodiff_valid"

/-- The name in a kernel's description. -/
def tag : AutodiffMode → String
  | off => "None"
  | forward => "Forward"
  | reverse => "Reverse"
  | check => "CheckAutodiffValid"

end AutodiffMode

/-- A body under construction with the types of its arguments and results. -/
structure KernelDraft where
  body : Block
  args : List DType
  rets : List DType
deriving Repr

/-- One step of a construction. Each adds one statement. -/
inductive DraftStep where
  /-- Declares the next argument and reads it. -/
  | arg (dtype : DType)
  /-- Declares the next result and writes a value into it. -/
  | ret (value : StmtId)
  /-- Adds a statement and leaves the signature alone. -/
  | emit (s : Stmt)
deriving Repr

namespace KernelDraft

def empty : KernelDraft := ⟨[], [], []⟩

def emit (d : KernelDraft) (s : Stmt) : KernelDraft := { d with body := d.body ++ [s] }

/-- A result has the type of the value; of what is not there yet it is void. -/
def extend (d : KernelDraft) : DraftStep → KernelDraft
  | .arg dtype => { d with args := d.args ++ [dtype] }.emit (.arg d.args.length dtype)
  | .ret v => { d with rets := d.rets ++ [d.body.dtypeAt v] }.emit (.ret d.rets.length v)
  | .emit s => d.emit s

def ofSteps (steps : List DraftStep) : KernelDraft := steps.foldl extend empty

end KernelDraft

/-- A lowered body, ready to run. A body that checks bounds reports an access outside a field as a
fault. -/
structure Code where
  kernel : String
  body : Block
  checksBounds : Bool
deriving Repr

structure Kernel where
  id : Nat
  name : String
  body : Block
  args : List DType
  rets : List DType
  mode : AutodiffMode
  /-- Made to evaluate one operator. -/
  isEvaluator : Bool
  /-- What the first successful compilation gave. -/
  code? : Option Code
deriving Repr

namespace Kernel

/-- A kernel that has not been compiled. -/
def create (id : Nat) (name : String) (d : KernelDraft) (mode : AutodiffMode) : Kernel :=
  ⟨id, name, d.body, d.args, d.rets, mode, false, none⟩

def isCompiled (k : Kernel) : Bool := k.code?.isSome

/-- The kernel on one line, without its body. -/
def describe (k : Kernel) : String :=
  let signature (ds : List DType) := Text.bracketed (ds.map DType.tag)
  let parts :=
    [s!"id: {k.id}", s!"name: {Text.quoted k.name}", s!"args: {signature k.args}",
      s!"rets: {signature k.rets}", s!"autodiff_mode: {k.mode.tag}",
      s!"is_evaluator: {k.isEvaluator}", s!"compiled: {k.isCompiled}"]
  "Kernel \x7b " ++ Text.commaList parts ++ " \x7d"

/-- The body that is to run: checked against the signature and, on `optimize`, without dead code. -/
def lower (k : Kernel) (optimize : Bool) : Except Error Block := do
  if ResultSlots.count < k.rets.length then
    throw (.compilation k.name
      s!"{k.rets.length} return values exceed {ResultSlots.count} result slots")
  (k.body.verify k.args k.rets.length).mapError (.invalidIr k.name)
  return if optimize then k.body.dropDead else k.body

end Kernel

end FieldCompute
