import FieldCompute.Operator
import FieldCompute.Text.Messages
/-!
# Kernel bodies

A body is a flat list of statements. A statement is named by its position and refers to others by
their positions; a place of a field tree is named by its node id. `Block.text` writes a body down,
one line per statement.
-/

namespace FieldCompute

/-- The position of a statement in its block. -/
abbrev StmtId := Nat

/-- The identity of a node in a field tree. -/
abbrev NodeId := Nat

def StmtId.text (id : StmtId) : String := "$" ++ toString (id : Nat)

def NodeId.text (id : NodeId) : String := "S" ++ toString (id : Nat)

inductive Stmt where
  | const (value : Value) (dtype : DType)
  /-- Reads a kernel argument. -/
  | arg (index : Nat) (dtype : DType)
  | unary (op : UnaryOp) (operand : StmtId) (dtype : DType)
  | binary (op : BinaryOp) (lhs rhs : StmtId) (dtype : DType)
  | cast (source : StmtId) (dtype : DType)
  /-- Reads one element of a place. -/
  | load (place : NodeId) (indices : List StmtId) (dtype : DType)
  /-- Writes one element of a place. -/
  | store (place : NodeId) (indices : List StmtId) (value : StmtId)
  /-- Writes a value into a result slot. -/
  | ret (slot : Nat) (value : StmtId)
deriving DecidableEq, BEq, Repr, Inhabited

namespace Stmt

/-- The type of the value that the statement gives. -/
def dtype : Stmt → DType
  | const _ d | arg _ d | unary _ _ d | binary _ _ _ d | cast _ d | load _ _ d => d
  | store .. | ret .. => .void

/-- The statements whose values are used, in the order of use. -/
def operands : Stmt → List StmtId
  | const .. | arg .. => []
  | unary _ a _ => [a]
  | binary _ a b _ => [a, b]
  | cast a _ => [a]
  | load _ is _ => is
  | store _ is v => is ++ [v]
  | ret _ v => [v]

/-- The statement with every operand replaced by its image. -/
def mapOperands (f : StmtId → StmtId) : Stmt → Stmt
  | const v d => const v d
  | arg i d => arg i d
  | unary op a d => unary op (f a) d
  | binary op a b d => binary op (f a) (f b) d
  | cast a d => cast (f a) d
  | load p is d => load p (is.map f) d
  | store p is v => store p (is.map f) (f v)
  | ret i v => ret i (f v)

/-- The statement is there for what it does and gives no value. -/
def hasEffect : Stmt → Bool
  | store .. | ret .. => true
  | _ => false

@[simp] theorem operands_mapOperands (f : StmtId → StmtId) (s : Stmt) :
    (s.mapOperands f).operands = s.operands.map f := by
  cases s <;> simp [mapOperands, operands]

@[simp] theorem dtype_mapOperands (f : StmtId → StmtId) (s : Stmt) :
    (s.mapOperands f).dtype = s.dtype := by cases s <;> rfl

@[simp] theorem hasEffect_mapOperands (f : StmtId → StmtId) (s : Stmt) :
    (s.mapOperands f).hasEffect = s.hasEffect := by cases s <;> rfl

private def element (place : NodeId) (indices : List StmtId) : String :=
  place.text ++ Text.bracketed (indices.map StmtId.text)

def text : Stmt → String
  | const v d => "const " ++ d.name ++ " " ++ v.text
  | arg i d => "arg[" ++ toString i ++ "] " ++ d.name
  | unary op a d => op.name ++ " " ++ d.name ++ " " ++ a.text
  | binary op a b d => op.name ++ " " ++ d.name ++ " " ++ a.text ++ ", " ++ b.text
  | cast a d => "cast " ++ d.name ++ " " ++ a.text
  | load p is d => "load " ++ d.name ++ " " ++ element p is
  | store p is v => "store " ++ element p is ++ " <- " ++ v.text
  | ret i v => "return[" ++ toString i ++ "] " ++ v.text

/-- The statement together with its position, as messages quote it. -/
def labelled (s : Stmt) (id : StmtId) : String := id.text ++ " = " ++ s.text

end Stmt

/-- The statements of a kernel or function body. -/
abbrev Block := List Stmt

namespace Block

/-- The type of the value at a position; void where there is no statement. -/
def dtypeAt (b : Block) (id : StmtId) : DType := (b[id]?.map Stmt.dtype).getD .void

/-- One line per statement. -/
def text (b : Block) : String :=
  String.join (b.zipIdx.map fun (s, id) => s.labelled id ++ "\n")

end Block

end FieldCompute
