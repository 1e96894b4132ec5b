import FieldCompute.Block.Verify
import FieldCompute.Proofs.Outcome
/-!
# What a verified body guarantees

`verify` stops at the first defect. A body that it accepts is `WellFormed`: every operand comes
earlier and has a value, and every statement keeps to the signature.
-/

namespace FieldCompute

theorem DType.exists_scalar {d : DType} (h : d ≠ .void) : ∃ s, d = .scalar s := by
  cases d with
  | void => exact absurd rfl h
  | scalar s => exact ⟨s, rfl⟩

/-- The statement agrees with a signature of arguments `args` and `numRets` result slots. -/
def Stmt.Declared (args : List DType) (numRets : Nat) : Stmt → Prop
  | .arg index dtype => args[index]? = some dtype
  | .ret slot _ => slot < numRets
  | .store .. => True
  | s => s.dtype ≠ .void

namespace Block

/-- What `verify` looks for, without the order in which it looks. -/
structure WellFormed (b : Block) (args : List DType) (numRets : Nat) : Prop where
  earlier (id : Nat) (s : Stmt) : b[id]? = some s → ∀ o : Nat, o ∈ s.operands → o < id
  valued (id : Nat) (s : Stmt) : b[id]? = some s → ∀ o ∈ s.operands, dtypeAt b o ≠ .void
  declared (id : Nat) (s : Stmt) : b[id]? = some s → s.Declared args numRets

theorem checkOperand_eq_ok_iff {b : Block} {id o : Nat} (hid : id < b.length) :
    checkOperand b id o = .ok () ↔ o < id ∧ dtypeAt b o ≠ .void := by
  unfold checkOperand
  by_cases h : o < id
  · have ho : o < b.length := by omega
    by_cases hv : dtypeAt b o = .void <;> simp [h, ho, hv, DType.isVoid]
  · simp [h]

theorem checkDeclared_eq_ok_iff {args : List DType} {numRets : Nat} {id : StmtId} {s : Stmt} :
    checkDeclared args numRets id s = .ok () ↔ s.Declared args numRets := by
  cases s with
  | arg index dtype =>
    cases h : args[index]? with
    | none => simp [checkDeclared, Stmt.Declared, h]
    | some expected => by_cases he : expected = dtype <;> simp [checkDeclared, Stmt.Declared, h, he]
  | ret slot v => by_cases h : slot < numRets <;> simp [checkDeclared, Stmt.Declared, h]
  | store p is v => simp [checkDeclared, Stmt.Declared, Stmt.hasEffect]
  | _ =>
    simp only [checkDeclared, Stmt.Declared, Stmt.hasEffect, Bool.false_or, DType.isVoid,
      Bool.not_eq_true', decide_eq_false_iff_not]
    split <;> simp_all

theorem checkStmt_eq_ok_iff {b : Block} {args : List DType} {numRets id : Nat} {s : Stmt}
    (hid : id < b.length) :
    checkStmt b args numRets id s = .ok () ↔
      (∀ o ∈ s.operands, o < id ∧ dtypeAt b o ≠ .void) ∧ s.Declared args numRets := by
  simp only [checkStmt, Outcome.seq_eq_ok_iff, checkDeclared_eq_ok_iff, List.forM_eq_forM,
    Outcome.forM_eq_ok_iff, checkOperand_eq_ok_iff hid]

/-- `verify` accepts what every single check accepts. -/
theorem verify_eq_ok_iff_checkStmt {b : Block} {args : List DType} {numRets : Nat} :
    verify b args numRets = .ok () ↔
      ∀ id s, b[id]? = some s → checkStmt b args numRets id s = .ok () := by
  simp only [verify, List.forM_eq_forM, Outcome.forM_eq_ok_iff, Prod.forall,
    List.mem_zipIdx_iff_getElem?]
  exact forall_comm

theorem verify_eq_ok_iff {b : Block} {args : List DType} {numRets : Nat} :
    verify b args numRets = .ok () ↔ WellFormed b args numRets := by
  have all : verify b args numRets = .ok () ↔ ∀ id s, b[id]? = some s →
      (∀ o ∈ s.operands, o < id ∧ dtypeAt b o ≠ .void) ∧ s.Declared args numRets := by
    rw [verify_eq_ok_iff_checkStmt]
    apply forall₃_congr
    intro id s hs
    exact checkStmt_eq_ok_iff (List.getElem?_eq_some_iff.1 hs).1
  rw [all]
  constructor
  · intro h
    exact ⟨fun id s hs o ho => ((h id s hs).1 o ho).1, fun id s hs o ho => ((h id s hs).1 o ho).2,
      fun id s hs => (h id s hs).2⟩
  · intro h id s hs
    exact ⟨fun o ho => ⟨h.earlier id s hs o ho, h.valued id s hs o ho⟩, h.declared id s hs⟩

/-- The rules, statement by statement. -/
theorem wellFormed_iff {b : Block} {args : List DType} {numRets : Nat} :
    WellFormed b args numRets ↔ ∀ x ∈ b.zipIdx,
      (∀ o : Nat, o ∈ x.1.operands → o < x.2 ∧ dtypeAt b o ≠ .void) ∧
        x.1.Declared args numRets := by
  simp only [Prod.forall, List.mem_zipIdx_iff_getElem?]
  constructor
  · intro h s id hs
    exact ⟨fun o ho => ⟨h.earlier id s hs o ho, h.valued id s hs o ho⟩, h.declared id s hs⟩
  · intro h
    exact ⟨fun id s hs o ho => ((h s id hs).1 o ho).1, fun id s hs o ho => ((h s id hs).1 o ho).2,
      fun id s hs => (h s id hs).2⟩

end Block

end FieldCompute
