import FieldCompute.Arch
import FieldCompute.Block
/-!
# Misuse

Calls that break a rule of the interface. They abort on the spot and leave the state as it was;
the message names the rule.
-/

namespace FieldCompute

inductive Misuse where
  | childOfPlace (node : NodeId)
  | emptyDense (extents : List Nat)
  | voidPlace
  | treeNotLive (tree : Nat)
  | slotOutOfRange (slot : Nat)
  | finalizedTwice
  | notLlvm (arch : Arch)
  | notUnary (op : BinaryOp)
  | notBinary (op : UnaryOp)
  | durationOverflow
  | zeroDivisor
  | unknownKernel (kernel : Nat)
  | unknownProgram (program : Nat)
deriving DecidableEq, Repr

def Misuse.message : Misuse → String
  | childOfPlace n => s!"cannot add children to place {n.text}"
  | emptyDense es => s!"dense shape must be non-empty: {Text.extents es}"
  | voidPlace => "cannot place a void field"
  | treeNotLive t => s!"snode tree {t} is not live"
  | slotOutOfRange i => s!"result slot {i} out of range"
  | finalizedTwice => "program finalized twice"
  | notLlvm a => s!"{a.name} is not an LLVM-backed arch"
  | notUnary op => s!"evaluator id holds binary operator {op.name}, not a unary one"
  | notBinary op => s!"evaluator id holds unary operator {op.name}, not a binary one"
  | durationOverflow => "overflow in iter::sum over durations"
  | zeroDivisor => "divide by zero error when dividing duration by scalar"
  | unknownKernel k => s!"kernel {k} is not known"
  | unknownProgram p => s!"program {p} is not known"

end FieldCompute
