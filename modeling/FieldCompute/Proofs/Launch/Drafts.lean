import FieldCompute.Proofs.Launch.Lowering
import Mathlib.Data.List.Induction
/-!
# Kernels that are built to compile

A construction is well typed if every step uses values of earlier steps and declares no value void.
Then the kernel that it comes to lowers, with dead code or without, and its signature is what the
body reads and returns: argument `i` is declared by one statement and result `i` is written by one
(`WellTyped.compiles`). What carries the proof is that a draft matches the steps that made it
(`KernelDraft.Matches`).
-/

namespace FieldCompute

namespace DraftStep

/-- The values that the step uses, in the order of use. -/
def operands : DraftStep → List StmtId
  | arg _ => []
  | ret v => [v]
  | emit s => s.operands

/-- The step adds a statement that gives a value. -/
def givesValue : DraftStep → Bool
  | arg _ => true
  | ret _ => false
  | emit s => !s.hasEffect

/-- The declared type of the value. -/
def dtype : DraftStep → DType
  | arg dtype => dtype
  | ret _ => .void
  | emit s => s.dtype

/-- Arguments are read and results written by the steps that declare them, not by bare
statements. -/
def keepsSignature : DraftStep → Bool
  | emit (.arg ..) | emit (.ret ..) => false
  | _ => true

/-- The step declares a result. -/
def isResult (s : DraftStep) : Bool := s matches .ret _

/-- The step uses values of earlier steps, and declares no value void. -/
def Fits (earlier : List DraftStep) (s : DraftStep) : Prop :=
  s.keepsSignature = true ∧ (∀ o ∈ s.operands, earlier[o]?.any givesValue = true) ∧
    (s.givesValue = true → s.dtype ≠ .void)

instance (earlier : List DraftStep) (s : DraftStep) : Decidable (s.Fits earlier) :=
  inferInstanceAs (Decidable (_ ∧ _ ∧ _))

/-- Every step fits behind those before it. -/
def WellTyped (steps : List DraftStep) : Prop :=
  ∀ x ∈ steps.zipIdx, x.1.Fits (steps.take x.2)

instance (steps : List DraftStep) : Decidable (WellTyped steps) :=
  inferInstanceAs (Decidable (∀ x ∈ steps.zipIdx, _))

theorem wellTyped_append_singleton {steps : List DraftStep} {s : DraftStep}
    (h : WellTyped (steps ++ [s])) : WellTyped steps ∧ s.Fits steps := by
  constructor
  · rintro ⟨t, i⟩ ht
    have hi : i < steps.length := by simpa using List.snd_lt_of_mem_zipIdx ht
    have hfits := h (t, i) (by rw [List.zipIdx_append]; exact List.mem_append_left _ ht)
    rwa [List.take_append_of_le_length (Nat.le_of_lt hi)] at hfits
  · have hfits := h (s, steps.length) (by simp [List.zipIdx_append])
    rwa [List.take_left] at hfits

end DraftStep

namespace Stmt

/-- The argument that the statement reads, with the type as which it is read. -/
def argument? : Stmt → Option (DType × Nat)
  | arg i dtype => some (dtype, i)
  | _ => none

/-- The slot that the statement writes, with the type of the value in the body `b`. -/
def result? (b : Block) : Stmt → Option (DType × Nat)
  | ret i v => some (b.dtypeAt v, i)
  | _ => none

end Stmt

namespace Block

variable {b : Block} {f : Stmt → Option (DType × Nat)} {l : List DType} {i : Nat} {dtype : DType}

theorem dtypeAt_append_left (s : Stmt) {o : StmtId} (h : o < b.length) :
    (b ++ [s]).dtypeAt o = b.dtypeAt o := by
  rw [dtypeAt, List.getElem?_append_left h, dtypeAt]

theorem dtypeAt_length (b : Block) (s : Stmt) : (b ++ [s]).dtypeAt b.length = s.dtype := by
  simp [dtypeAt]

/-- What stands at a position of a list with one more entry: an entry from before, or the new one at
the end. -/
theorem getElem?_append_singleton_cases {α : Type} {l : List α} {x y : α} {i : Nat}
    (h : (l ++ [x])[i]? = some y) : l[i]? = some y ∨ i = l.length ∧ y = x := by
  obtain ⟨hi, hy⟩ := List.getElem?_eq_some_iff.1 h
  rw [List.length_append, List.length_singleton] at hi
  rcases Nat.lt_succ_iff_lt_or_eq.1 hi with hlt | rfl
  · rw [List.getElem?_append_left hlt] at h
    exact .inl h
  · rw [List.getElem_concat_length rfl] at hy
    exact .inr ⟨rfl, hy.symm⟩

theorem lt_of_dtypeAt {o : StmtId} (h : b.dtypeAt o ≠ .void) : o < b.length := by
  by_contra hn
  rw [dtypeAt, List.getElem?_eq_none (Nat.le_of_not_lt hn)] at h
  exact h rfl

/-- A statement at the end leaves a body well formed that keeps to the signature. -/
theorem WellFormed.append {args args' : List DType} {numRets numRets' : Nat}
    (h : b.WellFormed args numRets) {s : Stmt} (ho : ∀ o ∈ s.operands, b.dtypeAt o ≠ .void)
    (hs : s.Declared args' numRets') (ha : args <+: args') (hr : numRets ≤ numRets') :
    (b ++ [s]).WellFormed args' numRets' := by
  have old {o : StmtId} (hn : b.dtypeAt o ≠ .void) : (b ++ [s]).dtypeAt o ≠ .void := by
    rwa [dtypeAt_append_left s (lt_of_dtypeAt hn)]
  refine ⟨fun id t ht o hmem => ?_, fun id t ht o hmem => ?_, fun id t ht => ?_⟩
  · rcases getElem?_append_singleton_cases ht with ht | ⟨rfl, rfl⟩
    · exact h.earlier id t ht o hmem
    · exact lt_of_dtypeAt (ho o hmem)
  · rcases getElem?_append_singleton_cases ht with ht | ⟨rfl, rfl⟩
    · exact old (h.valued id t ht o hmem)
    · exact old (ho o hmem)
  · rcases getElem?_append_singleton_cases ht with ht | ⟨rfl, rfl⟩
    · have hd := h.declared id t ht
      cases t with
      | arg index dtype =>
        obtain ⟨more, rfl⟩ := ha
        exact (List.getElem?_append_left (List.getElem?_eq_some_iff.1 hd).1).trans hd
      | ret slot v => exact Nat.lt_of_lt_of_le hd hr
      | _ => exact hd
    · exact hs

/-- If the statements that `f` looks for are numbered as the types in a list are, each type has one
statement. -/
theorem unique_of_filterMap (h : b.filterMap f = l.zipIdx) (hi : l[i]? = some dtype) :
    ∃ (id : Nat) (s : Stmt), b[id]? = some s ∧ f s = some (dtype, i) ∧
      ∀ (id' : Nat) s' dtype', b[id']? = some s' → f s' = some (dtype', i) → id' = id := by
  have hmem : (dtype, i) ∈ b.filterMap f := by
    rw [h, List.mem_zipIdx_iff_getElem?]
    exact hi
  obtain ⟨s, hs, hf⟩ := List.mem_filterMap.1 hmem
  obtain ⟨id, hid⟩ := List.mem_iff_getElem?.1 hs
  refine ⟨id, s, hid, hf, ?_⟩
  -- No number is given twice, so neither of two statements of one number comes first.
  have hnumbers : (b.filterMap f).Pairwise fun x y => x.2 ≠ y.2 := by
    rw [h]
    apply List.pairwise_map.1
    change (l.zipIdx.map Prod.snd).Nodup
    rw [List.zipIdx_map_snd]
    exact List.nodup_range'
  rw [List.pairwise_filterMap] at hnumbers
  have apart {j k : Nat} {t u : Stmt} {d e : DType} (hj : b[j]? = some t) (hk : b[k]? = some u)
      (ht : f t = some (d, i)) (hu : f u = some (e, i)) : ¬j < k := by
    intro hlt
    obtain ⟨hjb, rfl⟩ := List.getElem?_eq_some_iff.1 hj
    obtain ⟨hkb, rfl⟩ := List.getElem?_eq_some_iff.1 hk
    exact List.pairwise_iff_getElem.1 hnumbers j k hjb hkb hlt _ ht _ hu rfl
  intro id' s' dtype' hid' hf'
  have hle := apart hid hid' hf hf'
  have hge := apart hid' hid hf' hf
  omega

end Block

namespace KernelDraft

/-- The draft is what the steps come to: its body is well formed, a step that gives a value gives
one, and the signature lists what the body reads and returns. -/
structure Matches (d : KernelDraft) (steps : List DraftStep) : Prop where
  length : d.body.length = steps.length
  valued {o : StmtId} {s : DraftStep} : steps[o]? = some s → s.givesValue = true →
    d.body.dtypeAt o ≠ .void
  wellFormed : d.body.WellFormed d.args d.rets.length
  args : d.body.filterMap Stmt.argument? = d.args.zipIdx
  rets : d.body.filterMap (Stmt.result? d.body) = d.rets.zipIdx
  results : d.rets.length = steps.countP DraftStep.isResult

variable {d : KernelDraft} {steps : List DraftStep} {s : DraftStep}

namespace Matches

theorem operand (h : d.Matches steps) (hs : s.Fits steps) {o : StmtId} (ho : o ∈ s.operands) :
    d.body.dtypeAt o ≠ .void := by
  obtain ⟨e, he, hvalue⟩ := (Option.any_eq_true _ _).1 (hs.2.1 o ho)
  exact h.valued he hvalue

/-- What is known of a draft with one more statement, whatever the signature has become. -/
theorem grown (h : d.Matches steps) {t : Stmt} (hv : s.givesValue = true → t.dtype ≠ .void) :
    (d.body ++ [t]).length = (steps ++ [s]).length ∧
    (∀ {o e}, (steps ++ [s])[o]? = some e → e.givesValue = true →
      Block.dtypeAt (d.body ++ [t]) o ≠ .void) ∧
    d.body.filterMap (Stmt.result? (d.body ++ [t])) = d.rets.zipIdx := by
  refine ⟨by simp [h.length], fun {o e} he hvalue => ?_, ?_⟩
  · rcases Block.getElem?_append_singleton_cases he with he | ⟨ho, rfl⟩
    · have hn := h.valued he hvalue
      rwa [Block.dtypeAt_append_left t (Block.lt_of_dtypeAt hn)]
    · rw [ho, ← h.length, Block.dtypeAt_length]
      exact hv hvalue
  · rw [← h.rets]
    refine List.filterMap_congr fun u hu => ?_
    obtain ⟨id, hid⟩ := List.mem_iff_getElem?.1 hu
    cases u with
    | ret i v =>
      have hv : v < d.body.length :=
        Block.lt_of_dtypeAt (h.wellFormed.valued id _ hid v (List.mem_singleton.2 rfl))
      simp only [Stmt.result?, Block.dtypeAt_append_left t hv]
    | _ => rfl

theorem extend (h : d.Matches steps) (hs : s.Fits steps) : (d.extend s).Matches (steps ++ [s]) := by
  have hoperands {o : StmtId} (ho : o ∈ s.operands) := h.operand hs ho
  cases s with
  | arg dtype =>
    obtain ⟨hlength, hvalued, hrets⟩ :=
      h.grown (s := .arg dtype) (t := .arg d.args.length dtype) hs.2.2
    refine ⟨hlength, hvalued, ?_, ?_, ?_, ?_⟩
    · refine h.wellFormed.append (fun o ho => hoperands ho) ?_ (List.prefix_append ..)
        (Nat.le_refl _)
      exact List.getElem?_concat_length
    · simp [KernelDraft.extend, emit, h.args, Stmt.argument?, List.zipIdx_append]
    · simpa [KernelDraft.extend, emit, List.filterMap_cons, Stmt.result?] using hrets
    · simp [KernelDraft.extend, emit, h.results, DraftStep.isResult]
  | ret v =>
    have hv : v < d.body.length := Block.lt_of_dtypeAt (hoperands (List.mem_singleton.2 rfl))
    obtain ⟨hlength, hvalued, hrets⟩ :=
      h.grown (s := .ret v) (t := .ret d.rets.length v) fun hn => (by cases hn)
    refine ⟨hlength, hvalued, ?_, ?_, ?_, ?_⟩
    · refine h.wellFormed.append (fun o ho => hoperands ho) ?_ (List.prefix_refl _) ?_
      · simp [Stmt.Declared, KernelDraft.extend, emit]
      · simp [KernelDraft.extend, emit]
    · simp [KernelDraft.extend, emit, h.args, List.filterMap_cons, Stmt.argument?]
    · simp [KernelDraft.extend, emit, hrets, Stmt.result?, List.zipIdx_append,
        Block.dtypeAt_append_left _ hv]
    · simp [KernelDraft.extend, emit, h.results, DraftStep.isResult]
  | emit t =>
    obtain ⟨hlength, hvalued, hrets⟩ := h.grown (s := .emit t) (t := t) hs.2.2
    have hdeclared : t.Declared d.args d.rets.length := by
      have hsignature := hs.1
      have hvalue := hs.2.2
      cases t with
      | arg | ret => cases hsignature
      | store => trivial
      | _ => exact hvalue rfl
    have hnone : t.argument? = none ∧ ∀ b, t.result? b = none := by
      have hsignature := hs.1
      cases t with
      | arg | ret => cases hsignature
      | _ => exact ⟨rfl, fun _ => rfl⟩
    refine ⟨hlength, hvalued, ?_, ?_, ?_, ?_⟩
    · exact h.wellFormed.append (fun o ho => hoperands ho) hdeclared (List.prefix_refl _)
        (Nat.le_refl _)
    · simp [KernelDraft.extend, emit, h.args, hnone.1]
    · simpa [KernelDraft.extend, emit, hnone.2] using hrets
    · simp [KernelDraft.extend, emit, h.results, DraftStep.isResult]

/-- Whatever well-typed steps are taken, the draft matches them. -/
theorem ofSteps (h : DraftStep.WellTyped steps) : (ofSteps steps).Matches steps := by
  induction steps using List.reverseRecOn with
  | nil =>
    have hnone {id : Nat} {s : Stmt} (h : ([] : Block)[id]? = some s) : False := by cases h
    exact ⟨rfl, fun h => (by cases h),
      ⟨fun _ _ h => (hnone h).elim, fun _ _ h => (hnone h).elim, fun _ _ h => (hnone h).elim⟩,
      rfl, rfl, rfl⟩
  | append_singleton steps s ih =>
    obtain ⟨hsteps, hs⟩ := DraftStep.wellTyped_append_singleton h
    rw [KernelDraft.ofSteps, List.foldl_append]
    exact (ih hsteps).extend hs

end Matches

end KernelDraft

/-- A kernel that is built by well-typed steps, of which at most 32 return a value, lowers with dead
code and without. Each declared argument is read by one statement, as the type that is declared, and
each declared result is written by one, from a value of the type that is declared. -/
theorem DraftStep.WellTyped.compiles {steps : List DraftStep} (h : WellTyped steps)
    (hrets : steps.countP isResult ≤ 32) (id : Nat) (name : String) (mode : AutodiffMode) :
    let k := Kernel.create id name (.ofSteps steps) mode
    (∀ optimize, k.lower optimize = .ok (if optimize then k.body.dropDead else k.body)) ∧
    (∀ (i : Nat) dtype, k.args[i]? = some dtype → ∃ pos : Nat,
      k.body[pos]? = some (.arg i dtype) ∧
      ∀ (pos' : Nat) dtype', k.body[pos']? = some (.arg i dtype') → pos' = pos) ∧
    ∀ (i : Nat) dtype, k.rets[i]? = some dtype → ∃ (pos : Nat) (v : StmtId),
      k.body[pos]? = some (.ret i v) ∧ k.body.dtypeAt v = dtype ∧
      ∀ (pos' : Nat) v', k.body[pos']? = some (.ret i v') → pos' = pos := by
  intro k
  have hm : (KernelDraft.ofSteps steps).Matches steps := .ofSteps h
  have hslots : k.rets.length ≤ 32 := Nat.le_trans (Nat.le_of_eq hm.results) hrets
  refine ⟨?_, ?_, ?_⟩
  · exact Kernel.lower_of_wellFormed hm.wellFormed hslots
  · intro i dtype hi
    obtain ⟨pos, s, hs, hf, honly⟩ := Block.unique_of_filterMap hm.args hi
    obtain ⟨_, _, rfl⟩ : ∃ i' dtype', s = .arg i' dtype' := by
      cases s with
      | arg i' dtype' => exact ⟨i', dtype', rfl⟩
      | _ => cases hf
    cases hf
    exact ⟨pos, hs, fun pos' dtype' hpos => honly pos' _ dtype' hpos rfl⟩
  · intro i dtype hi
    obtain ⟨pos, s, hs, hf, honly⟩ := Block.unique_of_filterMap hm.rets hi
    obtain ⟨_, v, rfl⟩ : ∃ i' v, s = .ret i' v := by
      cases s with
      | ret i' v => exact ⟨i', v, rfl⟩
      | _ => cases hf
    cases hf
    exact ⟨pos, v, hs, rfl, fun pos' v' hpos => honly pos' _ _ hpos rfl⟩

/-- A construction with two arguments, two results of different types, a store and a dead
constant. -/
def scaledField : List DraftStep :=
  [.arg (.scalar .int32), .arg (.scalar .float32), .emit (.const (.int 3) (.scalar .int8)),
    .emit (.load 7 [0] (.scalar .float32)), .emit (.binary .mul 3 1 (.scalar .float32)), .ret 4,
    .emit (.store 7 [0] 4), .ret 0]

/-- It compiles, and its second result is the index. -/
theorem DraftStep.WellTyped.compiles_scaledField :
    WellTyped scaledField ∧ scaledField.countP isResult ≤ 32 ∧
      let k := Kernel.create 0 "scale" (.ofSteps scaledField) .off
      (∃ body, k.lower true = .ok body) ∧
      ∃ (pos : Nat) (v : StmtId),
        k.body[pos]? = some (.ret 1 v) ∧ k.body.dtypeAt v = .scalar .int32 := by
  have h : WellTyped scaledField := by decide
  have hrets : scaledField.countP isResult ≤ 32 := by decide
  obtain ⟨hlower, -, hresult⟩ := h.compiles hrets 0 "scale" .off
  obtain ⟨pos, v, hret, hdtype, -⟩ := hresult 1 (.scalar .int32) (by decide)
  exact ⟨h, hrets, ⟨_, hlower true⟩, pos, v, hret, hdtype⟩

end FieldCompute
