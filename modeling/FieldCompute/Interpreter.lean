import FieldCompute.ResultSlots
import FieldCompute.Tree.Storage
import FieldCompute.Value.Arithmetic
import FieldCompute.Value.Bytes
/-!
# The interpreter

A body runs statement by statement. Every statement gives a value or has an effect on the machine:
it writes an element of a field or a result slot. The first statement that fails ends the run, and
what the statements before it did stays done.
-/

namespace FieldCompute

/-- What a run may change. -/
structure Machine where
  device : Device
  slots : ResultSlots
deriving Repr

/-- A body with all it reads besides memory. -/
structure Launch where
  kernel : String
  body : Block
  args : List Value
  binding? : NodeId → Option Binding

/-- Where and why a run ended early. -/
structure Halt where
  position : StmtId
  failure : Failure
deriving DecidableEq, Repr

/-- The index that a value stands for. -/
def Value.index? (v : Value) : Option Int :=
  match v.cast .int64 with
  | .int i => some i.toInt
  | _ => none

namespace Launch

/-- The values of the statements that have run, `none` where a statement gave no value. -/
abbrev Values := Array (Option Value)

variable (l : Launch)

/-- The failure to evaluate what `statement` describes. -/
def cannotEvaluate (statement : String) : Failure := .error (.evaluation l.kernel statement)

/-- The answer of the statement `s`, which must have one. -/
def defined {α : Type} (id : StmtId) (s : Stmt) : Option α → Except Failure α
  | some x => pure x
  | none => throw (l.cannotEvaluate (s.labelled id))

/-- The value of an operand of the statement `s`, whose position is the number of values so far. -/
def operand (values : Values) (s : Stmt) (id : StmtId) : Except Failure Value :=
  l.defined values.size s (values[id]?).join

def index (values : Values) (s : Stmt) (id : StmtId) : Except Failure Int := do
  match (← l.operand values s id).index? with
  | some i => pure i
  | none => throw (l.cannotEvaluate s!"index {id.text}")

/-- Where an element of a place is stored. -/
def locate (place : NodeId) (indices : List Int) : Except Failure (Scalar × Pointer) :=
  match l.binding? place with
  | none => throw (.error (.notMaterialized place))
  | some b =>
    match b.field.elementOffset? indices with
    | none => throw (.error (.outOfBounds l.kernel place indices b.field.place.shape))
    | some offset => pure (b.field.place.scalar, ⟨b.allocation, offset⟩)

/-- The value of a statement without effect. -/
def evaluate (d : Device) (values : Values) (s : Stmt) : Except Failure (Option Value) := do
  let operand := l.operand values s
  let id := values.size
  match s with
  | .const v dtype => some <$> l.defined id s (v.castTo? dtype)
  | .arg i dtype => some <$> l.defined id s (l.args[i]?.bind (·.castTo? dtype))
  | .unary op a dtype =>
    some <$> l.defined id s (op.eval? (← operand a) (l.body.dtypeAt a) dtype)
  | .binary op a b dtype =>
    some <$> l.defined id s
      (op.eval? (← operand a) (l.body.dtypeAt a) (← operand b) (l.body.dtypeAt b) dtype)
  | .cast a dtype => some <$> l.defined id s ((← operand a).castTo? dtype)
  | .load place is _ =>
    let (scalar, p) ← l.locate place (← is.mapM (l.index values s))
    let bytes ← (d.read p scalar.bytes).mapError Failure.device
    return some (.ofBytes scalar bytes)
  | .store .. | .ret .. => return none

/-- What a statement with an effect makes of the machine. -/
def affect (m : Machine) (values : Values) (s : Stmt) : Except Failure Machine := do
  let operand := l.operand values s
  match s with
  | .store place is v =>
    let indices ← is.mapM (l.index values s)
    let v ← operand v
    let (scalar, p) ← l.locate place indices
    let device ← (m.device.write p (v.toBytes scalar)).mapError Failure.device
    return { m with device }
  | .ret slot v =>
    let w ← l.defined values.size s ((← operand v).encode? (l.body.dtypeAt v))
    let slots ← (m.slots.store slot w).mapError Failure.misuse
    return { m with slots }
  | _ => return m

/-- Runs one statement: its value and the machine after it. -/
def step (m : Machine) (values : Values) (s : Stmt) : Except Failure (Option Value × Machine) :=
  return (← l.evaluate m.device values s, ← l.affect m values s)

/-- Runs the statements that are left, behind those that gave `values`. -/
def runFrom (values : Values) (m : Machine) : List Stmt → Except Halt Unit × Machine
  | [] => (.ok (), m)
  | s :: rest =>
    match l.step m values s with
    | .error failure => (.error ⟨values.size, failure⟩, m)
    | .ok (value, m) => runFrom (values.push value) m rest

/-- Runs the whole body. -/
def run (m : Machine) : Except Halt Unit × Machine := l.runFrom #[] m l.body

end Launch

end FieldCompute
