import FieldCompute.Kernel
import FieldCompute.Proofs.Block.Liveness
import FieldCompute.Proofs.Launch.Effects
/-!
# Lowering

Lowering fails for one of two reasons, and what it gives keeps to the signature of the kernel, with
dead code or without.
-/

namespace FieldCompute.Kernel

variable {k : Kernel} {optimize : Bool} {body : Block} {e : Error}

theorem lower_cases (k : Kernel) (optimize : Bool) :
    (∃ reason, k.lower optimize = .error (.compilation k.name reason)) ∨
    (∃ defect, k.lower optimize = .error (.invalidIr k.name defect)) ∨
    k.rets.length ≤ 32 ∧ k.body.verify k.args k.rets.length = .ok () ∧
      k.lower optimize = .ok (if optimize then k.body.dropDead else k.body) := by
  rw [lower]
  split
  · exact .inl ⟨_, rfl⟩
  · cases hv : k.body.verify k.args k.rets.length with
    | error defect => exact .inr (.inl ⟨defect, rfl⟩)
    | ok _ => exact .inr (.inr ⟨Nat.le_of_not_lt ‹_›, rfl, rfl⟩)

theorem lower_error (h : k.lower optimize = .error e) :
    (∃ reason, e = .compilation k.name reason) ∨ ∃ defect, e = .invalidIr k.name defect := by
  rcases k.lower_cases optimize with ⟨reason, he⟩ | ⟨defect, he⟩ | ⟨-, -, hb⟩
  · cases he.symm.trans h; exact .inl ⟨reason, rfl⟩
  · cases he.symm.trans h; exact .inr ⟨defect, rfl⟩
  · cases hb.symm.trans h

/-- A kernel whose body keeps to the signature lowers, if there are slots for its results. -/
theorem lower_of_wellFormed (h : k.body.WellFormed k.args k.rets.length)
    (hrets : k.rets.length ≤ 32) (optimize : Bool) :
    k.lower optimize = .ok (if optimize then k.body.dropDead else k.body) := by
  have hslots : ¬ResultSlots.count < k.rets.length := Nat.not_lt.2 hrets
  rw [lower, if_neg hslots, Block.verify_eq_ok_iff.2 h]
  rfl

/-- What lowering gives keeps to the signature. -/
theorem lower_wellFormed (h : k.lower optimize = .ok body) :
    body.WellFormed k.args k.rets.length ∧ k.rets.length ≤ 32 := by
  rcases k.lower_cases optimize with ⟨_, he⟩ | ⟨_, he⟩ | ⟨hrets, hv, hb⟩
  · cases he.symm.trans h
  · cases he.symm.trans h
  · cases hb.symm.trans h
    have hw := Block.verify_eq_ok_iff.1 hv
    cases optimize with
    | true => exact ⟨hw.dropDead, hrets⟩
    | false => exact ⟨hw, hrets⟩

/-- What lowering leaves of a body are statements of it, with their operands renumbered. -/
theorem mem_of_lower (h : k.lower optimize = .ok body) {s : Stmt} (hs : s ∈ body) :
    ∃ t ∈ k.body, ∃ renumber, s = t.mapOperands renumber := by
  rcases k.lower_cases optimize with ⟨_, he⟩ | ⟨_, he⟩ | ⟨-, -, hb⟩
  · cases he.symm.trans h
  · cases he.symm.trans h
  · cases hb.symm.trans h
    split at hs
    · obtain ⟨⟨t, id⟩, ht, rfl⟩ := List.mem_map.1 hs
      exact ⟨t, List.mem_of_getElem? (Block.mem_survivors.1 ht).1, _, rfl⟩
    · exact ⟨s, hs, fun o => o, s.mapOperands_self.symm⟩

/-- Lowering adds no stores. -/
theorem lower_storeless (h : k.lower optimize = .ok body) (hs : k.body.Storeless) :
    body.Storeless := by
  intro s hmem
  obtain ⟨t, ht, renumber, rfl⟩ := mem_of_lower h hmem
  have hstore : (t.mapOperands renumber).isStore = t.isStore := by cases t <;> rfl
  rw [hstore]
  exact hs t ht

end FieldCompute.Kernel
