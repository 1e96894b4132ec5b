import FieldCompute.Block
/-!
# Well-formed bodies

A body is checked against a signature before it is lowered: operands come earlier and have values,
arguments and result slots are declared, and a statement that gives a value is not declared void.
`verify` reports the first statement that breaks a rule, and the first rule that it breaks.
-/

namespace FieldCompute.Block

/-- What is wrong with a body. -/
inductive Defect where
  | useBeforeDef (stmt operand : StmtId)
  | argOutOfRange (stmt : StmtId) (index declared : Nat)
  | argTypeMismatch (stmt : StmtId) (index : Nat) (expected actual : DType)
  | voidOperand (stmt operand : StmtId)
  | voidResult (stmt : StmtId)
  | returnOutOfRange (stmt : StmtId) (slot declared : Nat)
deriving DecidableEq, Repr

def Defect.message : Defect → String
  | useBeforeDef s o => s!"{s.text} uses {o.text} before it is defined"
  | argOutOfRange s i n => s!"{s.text} reads argument {i} but the kernel declares {n}"
  | argTypeMismatch s i e a =>
    s!"{s.text} reads argument {i} as {a.name} but it is declared {e.name}"
  | voidOperand s o => s!"{s.text} uses void value {o.text}"
  | voidResult s => s!"{s.text} produces a value but is declared void"
  | returnOutOfRange s i n => s!"{s.text} returns into slot {i} but the kernel declares {n}"

/-- An operand comes earlier and is not void. -/
def checkOperand (b : Block) (id operand : StmtId) : Except Defect Unit :=
  if operand < id ∧ operand < b.length then
    if (b.dtypeAt operand).isVoid then throw (.voidOperand id operand) else pure ()
  else throw (.useBeforeDef id operand)

/-- What a statement declares agrees with the signature. -/
def checkDeclared (args : List DType) (numRets : Nat) (id : StmtId) (s : Stmt) :
    Except Defect Unit :=
  match s with
  | .arg index dtype =>
    match args[index]? with
    | none => throw (.argOutOfRange id index args.length)
    | some expected =>
      if expected = dtype then pure () else throw (.argTypeMismatch id index expected dtype)
  | .ret slot _ => if slot < numRets then pure () else throw (.returnOutOfRange id slot numRets)
  | s => if s.hasEffect || !s.dtype.isVoid then pure () else throw (.voidResult id)

def checkStmt (b : Block) (args : List DType) (numRets : Nat) (id : StmtId) (s : Stmt) :
    Except Defect Unit := do
  s.operands.forM (b.checkOperand id)
  checkDeclared args numRets id s

/-- Checks every statement in order. -/
def verify (b : Block) (args : List DType) (numRets : Nat) : Except Defect Unit :=
  b.zipIdx.forM fun (s, id) => b.checkStmt args numRets id s

end FieldCompute.Block
