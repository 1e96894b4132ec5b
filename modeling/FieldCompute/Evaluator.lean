import FieldCompute.Kernel
/-!
# Evaluators

An evaluator is a kernel that applies one scalar operator to its arguments and returns the result
in slot 0. Evaluators are told apart by a key that names the calling thread as well, so that a
compiled kernel never crosses threads.
-/

namespace FieldCompute

structure EvaluatorKey where
  thread : Thread
  op : ScalarOp
  ret : DType
  lhs : DType
  rhs : DType
  /-- Tells apart the places that ask. -/
  site : String
deriving DecidableEq, Repr

namespace ScalarOp

/-- The operator, which must be a unary one. -/
def asUnary : ScalarOp → Except Misuse UnaryOp
  | unary op => pure op
  | binary op => throw (.notUnary op)

/-- The operator, which must be a binary one. -/
def asBinary : ScalarOp → Except Misuse BinaryOp
  | binary op => pure op
  | unary op => throw (.notBinary op)

end ScalarOp

namespace EvaluatorKey

/-- The construction of the kernel. -/
def steps (k : EvaluatorKey) : List DraftStep :=
  match k.op with
  | .unary op => [.arg k.lhs, .emit (.unary op 0 k.ret), .ret 1]
  | .binary op => [.arg k.lhs, .arg k.rhs, .emit (.binary op 0 1 k.ret), .ret 2]

/-- The kernel under its id. The evaluators of a program are numbered from 0 on, and after `2 ^ 32`
of them from 0 again. -/
def kernel (k : EvaluatorKey) (id : Nat) (number : UInt32) : Kernel :=
  { Kernel.create id s!"jit_evaluator_{number}" (.ofSteps k.steps) .off with isEvaluator := true }

end EvaluatorKey

end FieldCompute
