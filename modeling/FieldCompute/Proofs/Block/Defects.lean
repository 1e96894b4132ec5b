import FieldCompute.Proofs.Block.WellFormed
/-!
# Which defect is reported

`Obeys` states the rules for one statement. `verify` goes by these rules, and a defect that it
reports is there (`Defect.Found`), in the first statement that breaks a rule
(`verify_reports_first`). There is one exception: an argument may be void if the signature declares
it void (`verify_accepts_void_argument`).
-/

namespace FieldCompute

/-- The statement reads an argument that it and the signature declare void. -/
def Stmt.ReadsVoid (args : List DType) (s : Stmt) : Prop :=
  ∃ index, s = .arg index .void ∧ args[index]? = some .void

namespace Block

/-- The statement `s` at position `id` keeps the rules: its operands are earlier statements that
have values, it agrees with the signature, and if it gives a value it says of which type. -/
structure Obeys (b : Block) (args : List DType) (numRets : Nat) (id : Nat) (s : Stmt) : Prop where
  operands (o : Nat) : o ∈ s.operands → o < id ∧ ∃ t, b[o]? = some t ∧ t.dtype ≠ .void
  arg (index : Nat) (dtype : DType) : s = .arg index dtype → args[index]? = some dtype
  ret (slot : Nat) (v : StmtId) : s = .ret slot v → slot < numRets
  valued : s.hasEffect = false → s.dtype ≠ .void

/-- The position of the statement that a defect is about. -/
def Defect.position : Defect → StmtId
  | useBeforeDef id _ | argOutOfRange id _ _ | argTypeMismatch id _ _ _ | voidOperand id _
  | voidResult id | returnOutOfRange id _ _ => id

/-- What a defect says of a body and a signature. -/
def Defect.Found (b : Block) (args : List DType) (numRets : Nat) : Defect → Prop
  | useBeforeDef id o => ∃ s, b[id]? = some s ∧ o ∈ s.operands ∧ id ≤ o
  | argOutOfRange id index declared =>
    (∃ dtype, b[id]? = some (.arg index dtype)) ∧ declared = args.length ∧ declared ≤ index
  | argTypeMismatch id index expected actual =>
    b[id]? = some (.arg index actual) ∧ args[index]? = some expected ∧ expected ≠ actual
  | voidOperand id o => ∃ s, b[id]? = some s ∧ o ∈ s.operands ∧ o < id ∧ dtypeAt b o = .void
  | voidResult id => ∃ s, b[id]? = some s ∧ s.hasEffect = false ∧ s.dtype = .void
  | returnOutOfRange id slot declared =>
    (∃ v, b[id]? = some (.ret slot v)) ∧ declared = numRets ∧ declared ≤ slot

/-- `verify` goes by the rule: it accepts a body if every statement keeps the rule, and else it
reports a defect that is there, in the first statement that does not. -/
structure VerifiedBy (b : Block) (args : List DType) (numRets : Nat)
    (rule : Nat → Stmt → Prop) : Prop where
  accepts : verify b args numRets = .ok () ↔ ∀ id s, b[id]? = some s → rule id s
  rejects (d : Defect) : verify b args numRets = .error d →
    d.Found b args numRets ∧ (∃ s, b[d.position]? = some s ∧ ¬rule d.position s) ∧
      ∀ id s, id < d.position → b[id]? = some s → rule id s

variable {b : Block} {args : List DType} {numRets id : Nat} {s : Stmt} {d : Defect}

/-! ## One statement -/

theorem dtypeAt_ne_void_iff {o : Nat} :
    dtypeAt b o ≠ .void ↔ ∃ t, b[o]? = some t ∧ t.dtype ≠ .void := by
  unfold dtypeAt
  cases b[o]? <;> simp

theorem obeys_or_readsVoid_iff :
    Obeys b args numRets id s ∨ s.ReadsVoid args ↔
      (∀ o : Nat, o ∈ s.operands → o < id ∧ dtypeAt b o ≠ .void) ∧ s.Declared args numRets := by
  simp only [dtypeAt_ne_void_iff]
  constructor
  · rintro (⟨hops, harg, hret, hvalued⟩ | ⟨index, rfl, hindex⟩)
    · refine ⟨hops, ?_⟩
      cases s with
      | arg index dtype => exact harg index dtype rfl
      | ret slot v => exact hret slot v rfl
      | store p is v => trivial
      | _ => exact hvalued rfl
    · exact ⟨nofun, hindex⟩
  · rintro ⟨hops, hdeclared⟩
    cases s with
    | arg index dtype =>
      -- All that is asked of an argument is the declared type, which may be void.
      by_cases hv : dtype = .void
      · subst hv
        exact .inr ⟨index, rfl, hdeclared⟩
      · refine .inl ⟨hops, ?_, nofun, fun _ => hv⟩
        intro _ _ h
        cases h
        exact hdeclared
    | ret slot v =>
      refine .inl ⟨hops, nofun, ?_, nofun⟩
      intro _ _ h
      cases h
      exact hdeclared
    | store p is v =>
      exact .inl ⟨hops, nofun, nofun, nofun⟩
    | _ =>
      exact .inl ⟨hops, nofun, nofun, fun _ => hdeclared⟩

theorem checkStmt_eq_ok_iff_obeys (hs : b[id]? = some s) :
    checkStmt b args numRets id s = .ok () ↔
      Obeys b args numRets id s ∨ s.ReadsVoid args := by
  rw [checkStmt_eq_ok_iff (List.getElem?_eq_some_iff.1 hs).1, obeys_or_readsVoid_iff]

theorem checkOperand_found {o : Nat} (hs : b[id]? = some s) (ho : o ∈ s.operands)
    (h : checkOperand b id o = .error d) : d.position = id ∧ d.Found b args numRets := by
  have hid := (List.getElem?_eq_some_iff.1 hs).1
  unfold checkOperand at h
  split at h
  · next hlt =>
    split at h
    · next hv =>
      cases h
      exact ⟨rfl, s, hs, ho, hlt.1, by simpa [DType.isVoid] using hv⟩
    · cases h
  · next hlt =>
    cases h
    exact ⟨rfl, s, hs, ho, Nat.le_of_not_lt fun h => hlt ⟨h, Nat.lt_trans h hid⟩⟩

theorem checkDeclared_found (hs : b[id]? = some s)
    (h : checkDeclared args numRets id s = .error d) :
    d.position = id ∧ d.Found b args numRets := by
  cases s with
  | arg index dtype =>
    simp only [checkDeclared] at h
    split at h
    · next hnone =>
      cases h
      exact ⟨rfl, ⟨dtype, hs⟩, rfl, List.getElem?_eq_none_iff.1 hnone⟩
    · next expected hsome =>
      split at h
      · cases h
      · next hne =>
        cases h
        exact ⟨rfl, hs, hsome, hne⟩
  | ret slot v =>
    simp only [checkDeclared] at h
    split at h
    · cases h
    · next hlt =>
      cases h
      exact ⟨rfl, ⟨v, hs⟩, rfl, by omega⟩
  | store p is v => simp [checkDeclared, Stmt.hasEffect] at h
  | _ =>
    simp only [checkDeclared, Stmt.hasEffect, Bool.false_or] at h
    split at h
    · cases h
    · next hv =>
      cases h
      exact ⟨rfl, _, hs, rfl, by simpa [DType.isVoid] using hv⟩

/-- The defect that the check of a statement reports is there. -/
theorem checkStmt_found (hs : b[id]? = some s) (h : checkStmt b args numRets id s = .error d) :
    d.position = id ∧ d.Found b args numRets := by
  rcases Outcome.bind_eq_error_iff.1 h with h | ⟨_, -, h⟩
  · obtain ⟨i, o, ho, h, -⟩ := Outcome.forM_eq_error_iff.1 h
    exact checkOperand_found hs (List.mem_of_getElem? ho) h
  · exact checkDeclared_found hs h

/-! ## All statements -/

theorem verify_eq_error_iff :
    verify b args numRets = .error d ↔
      ∃ id s, b[id]? = some s ∧ checkStmt b args numRets id s = .error d ∧
        ∀ j t, j < id → b[j]? = some t → checkStmt b args numRets j t = .ok () := by
  simp only [verify, List.forM_eq_forM, Outcome.forM_eq_error_iff, Prod.exists, Prod.forall,
    List.getElem?_zipIdx, Option.map_eq_some_iff, Prod.mk.injEq, Nat.zero_add]
  constructor
  · rintro ⟨id, _, _, ⟨s, hs, rfl, rfl⟩, he, hbefore⟩
    exact ⟨id, s, hs, he, fun j t hj ht => hbefore j t j hj ⟨t, ht, rfl, rfl⟩⟩
  · rintro ⟨id, s, hs, he, hbefore⟩
    refine ⟨id, s, id, ⟨s, hs, rfl, rfl⟩, he, ?_⟩
    rintro j _ _ hj ⟨t, ht, rfl, rfl⟩
    exact hbefore j t hj ht

theorem verifiedBy_obeys_or_readsVoid (b : Block) (args : List DType) (numRets : Nat) :
    VerifiedBy b args numRets fun id s => Obeys b args numRets id s ∨ s.ReadsVoid args := by
  constructor
  · rw [verify_eq_ok_iff_checkStmt]
    apply forall₃_congr
    intro id s hs
    exact checkStmt_eq_ok_iff_obeys hs
  · intro d hd
    obtain ⟨id, s, hs, he, hbefore⟩ := verify_eq_error_iff.1 hd
    obtain ⟨rfl, hfound⟩ := checkStmt_found hs he
    refine ⟨hfound, ⟨s, hs, ?_⟩, ?_⟩
    · rw [← checkStmt_eq_ok_iff_obeys hs, he]
      nofun
    · intro j t hj ht
      exact (checkStmt_eq_ok_iff_obeys ht).1 (hbefore j t hj ht)

/-- `verify` accepts a body if and only if every statement keeps the rules, or reads an argument
that it and the signature declare void. Else it reports a defect that is there, in the first
statement of which this is not true. With a signature that declares no argument void it goes by the
rules alone. -/
theorem verify_reports_first (b : Block) (args : List DType) (numRets : Nat) :
    VerifiedBy b args numRets (fun id s => Obeys b args numRets id s ∨ s.ReadsVoid args) ∧
      (.void ∉ args → VerifiedBy b args numRets (Obeys b args numRets)) := by
  have hall := verifiedBy_obeys_or_readsVoid b args numRets
  refine ⟨hall, fun hargs => ?_⟩
  have hrule : (fun id s => Obeys b args numRets id s ∨ s.ReadsVoid args) =
      Obeys b args numRets := by
    funext id s
    rw [eq_iff_iff, or_iff_left_iff_imp]
    rintro ⟨index, rfl, hindex⟩
    exact absurd (List.mem_of_getElem? hindex) hargs
  rwa [hrule] at hall

/-- A void argument gives a value of no type, as a void constant does. Only the constant is
reported. -/
theorem verify_accepts_void_argument :
    verify [.arg 0 .void] [.void] 0 = .ok () ∧
    ¬Obeys [.arg 0 .void] [.void] 0 0 (.arg 0 .void) ∧
    verify [.const (.int 0) .void] [] 0 = .error (.voidResult 0) := by
  refine ⟨by decide, ?_, by decide⟩
  intro h
  exact h.valued rfl rfl

end Block

end FieldCompute
