import FieldCompute.Proofs.Program.Commands
/-!
# The kernels of a program

`Catalogued` holds in every run: a kernel stands under its own id, its code is what it makes, and
the evaluator of a key is the compiled kernel of that key. No kernel is ever lost, and its code stays
as it is (`Run.keepsKernels_foldl`).
-/

namespace FieldCompute

open Program

/-- The kernel is the evaluator of the key, compiled without optimization. -/
def EvaluatorKey.Compiles (key : EvaluatorKey) (id : Nat) (number : UInt32) (code : Code) : Prop :=
  code.kernel = (key.kernel id number).name ∧ (key.kernel id number).lower false = .ok code.body

/-- The tables of kernels and evaluators fit together. -/
structure Program.Catalogued (p : Program) : Prop where
  id {id : Nat} {k : Kernel} : p.kernels.find? id = some k → k.id = id ∧ id < p.nextKernel
  code {id : Nat} {k : Kernel} {code : Code} :
    p.kernels.find? id = some k → k.code? = some code → k.Makes code
  evaluator {key : EvaluatorKey} {id : Nat} : p.evaluators.find? key = some id →
    ∃ number code, p.kernels.find? id = some { key.kernel id number with code? := some code } ∧
      key.Compiles id number code

namespace Program.Catalogued

variable {p p' : Program}

theorem of_same (h : p.Catalogued) (hk : p'.kernels = p.kernels) (he : p'.evaluators = p.evaluators)
    (hn : p.nextKernel ≤ p'.nextKernel) : p'.Catalogued where
  id hf := by
    rw [hk] at hf
    obtain ⟨hid, hlt⟩ := h.id hf
    exact ⟨hid, Nat.lt_of_lt_of_le hlt hn⟩
  code hf := by
    rw [hk] at hf
    exact h.code hf
  evaluator hf := by
    rw [he] at hf
    rw [hk]
    exact h.evaluator hf

theorem insert_kernel (h : p.Catalogued) {k : Kernel} (hid : k.id = p.nextKernel)
    (hc : ∀ code, k.code? = some code → k.Makes code) (hk : p'.kernels = p.kernels.insert k.id k)
    (he : p'.evaluators = p.evaluators) (hn : p.nextKernel < p'.nextKernel) : p'.Catalogued where
  id hf := by
    rw [hk, Table.find?_insert] at hf
    split at hf
    · cases hf; exact ⟨by symm; assumption, by omega⟩
    · obtain ⟨hid', hlt⟩ := h.id hf
      exact ⟨hid', by omega⟩
  code hf hcode := by
    rw [hk, Table.find?_insert] at hf
    split at hf
    · cases hf; exact hc _ hcode
    · exact h.code hf hcode
  evaluator hf := by
    rw [he] at hf
    obtain ⟨number, code, hkernel, hcomp⟩ := h.evaluator hf
    have hne := (h.id hkernel).2
    refine ⟨number, code, ?_, hcomp⟩
    rw [hk, Table.find?_insert_of_ne (by omega)]
    exact hkernel

/-- Keeping code changes the entry of its kernel at most. -/
theorem insert_code (h : p.Catalogued) {id : Nat} {k : Kernel} {code : Code}
    (hf : p.kernels.find? id = some k) (hc : k.code? = none → k.Makes code) :
    ({ p with kernels := p.kernels.insert k.id { k with code? := k.code?.or (some code) } } :
      Program).Catalogued := by
  obtain ⟨rfl, hlt⟩ := h.id hf
  refine ⟨fun {j l} hj => ?_, fun {j l c} hj hl => ?_, fun {key j} hj => ?_⟩
  · simp only [Table.find?_insert] at hj
    split at hj
    · rename_i hjk
      cases hj
      exact ⟨hjk.symm, hjk ▸ hlt⟩
    · exact h.id hj
  · simp only [Table.find?_insert] at hj
    split at hj
    · cases hj
      change k.Makes c
      cases hk : k.code? with
      | none =>
        simp only [hk, Option.none_or, Option.some.injEq] at hl
        exact hl ▸ hc hk
      | some c' =>
        simp only [hk, Option.some_or, Option.some.injEq] at hl
        exact h.code hf (hl ▸ hk)
    · exact h.code hj hl
  · obtain ⟨number, c, hkernel, hcomp⟩ := h.evaluator hj
    refine ⟨number, c, ?_, hcomp⟩
    simp only [Table.find?_insert]
    split
    · -- An evaluator has its code from the start, so its entry stays.
      subst j
      have hk := Option.some.inj (hf.symm.trans hkernel)
      have hcode : k.code? = some c := congrArg Kernel.code? hk
      rw [← hk, hcode]
      obtain ⟨_, _, _, _, _, _, _, _⟩ := k
      cases hcode
      rfl
    · exact hkernel

theorem makes (h : p.Catalogued) {id : Nat} {k : Kernel} {code : Code}
    (hk : p.kernels.find? id = some k) (hc : Runs k code) : k.Makes code := by
  rcases hc with hc | ⟨-, hc⟩
  · exact h.code hk hc
  · exact hc

theorem calm {w w' : World} (hm : Calm w w') (h : w.program.Catalogued) : w'.program.Catalogued := by
  cases hm with
  | quiet hq => exact h.of_same hq.kernels hq.evaluators hq.nextKernel
  | kernel k hid hc hq hn => exact h.insert_kernel hid hc rfl hq.evaluators hn
  | code id k code hf hc => exact h.insert_code hf hc
  | evaluator key id number code hf hl =>
    refine ⟨h.id, h.code, fun {key' id'} hf' => ?_⟩
    simp only [Table.find?_insert] at hf'
    split at hf'
    · cases hf'
      subst key'
      exact ⟨number, code, hf, (h.code hf rfl).1, hl⟩
    · exact h.evaluator hf'
  | _ => exact h.of_same rfl rfl (Nat.le_refl _)

theorem chain {w w' : World} (h : w.program.Catalogued) (hm : Relation.ReflTransGen Calm w w') :
    w'.program.Catalogued := by
  induction hm with
  | refl => exact h
  | tail _ hm ih => exact calm hm ih

theorem closing {w w' : World} (hm : Closing w w') (h : w.program.Catalogued) :
    w'.program.Catalogued := by
  cases hm with
  | emptied => exact ⟨h.id, h.code, fun hf => (by cases hf)⟩
  | _ => exact h.of_same rfl rfl (Nat.le_refl _)

theorem move {ok : World → Command → Prop} {w w' : World} (hm : Move ok w w')
    (h : w.program.Catalogued) : w'.program.Catalogued := by
  cases hm with
  | calm hm => exact calm hm h
  | finished hm _ => exact ending_keeps (I := (·.program.Catalogued)) calm closing hm h
  | raw c hr _ =>
    obtain ⟨pool, hpool⟩ := World.step_raw (w := w) hr
    rw [hpool]
    exact h.of_same rfl rfl (Nat.le_refl _)
  | _ => exact h.of_same rfl rfl (Nat.le_refl _)

end Program.Catalogued

theorem Run.catalogued {ok : World → Command → Prop} {w : World} {cs : List Command}
    (r : Run ok w cs) : w.program.Hosted ∧ w.program.Catalogued := by
  obtain ⟨hp, -, hc⟩ := r.invariant (I := fun w => w.program.Catalogued) (fun hp => by
    cases hp
    exact ⟨fun h => (by cases h), fun h => (by cases h), fun h => (by cases h)⟩)
    Program.Catalogued.move
  exact ⟨hp, hc⟩

/-! ## Kept kernels and their code -/

namespace Program

/-- Every kernel is still there, and so is its code if it had some. -/
def KeepsKernels (p p' : Program) : Prop :=
  ∀ ⦃id k⦄, p.kernels.find? id = some k →
    ∃ code?, p'.kernels.find? id = some { k with code? := k.code?.or code? }

instance : Std.Refl KeepsKernels where
  refl _ _ _ hk := ⟨none, by rw [hk, Option.or_none]⟩

instance : IsTrans Program KeepsKernels where
  trans _ _ _ h h' _ _ hk := by
    obtain ⟨code?, hk'⟩ := h hk
    obtain ⟨code?', hk''⟩ := h' hk'
    exact ⟨code?.or code?', by rw [hk'', Option.or_assoc]⟩

/-- The code of a kernel, once there is some. -/
def codeOf? (p : Program) (id : Nat) : Option Code := (p.kernels.find? id).bind (·.code?)

variable {p p' : Program} {w w' : World} {id : Nat} {code : Code}

theorem codeOf?_insert {k : Kernel} (hk : p'.kernels = p.kernels.insert k.id k) (id : Nat) :
    p'.codeOf? id = if id = k.id then k.code? else p.codeOf? id := by
  rw [codeOf?, hk, Table.find?_insert]
  split <;> rfl

namespace KeepsKernels

theorem of_same (h : p'.kernels = p.kernels) : p.KeepsKernels p' := by
  rintro id k hk
  exact ⟨none, by rw [h, hk, Option.or_none]⟩

/-- Code that is kept stays as it is. -/
theorem codeOf? (h : p.KeepsKernels p') (hc : p.codeOf? id = some code) :
    p'.codeOf? id = some code := by
  obtain ⟨k, hk, hcode⟩ := Option.bind_eq_some_iff.1 hc
  obtain ⟨code?, hk'⟩ := h hk
  rw [Program.codeOf?, hk', hcode]
  rfl

theorem calm (h : w.program.Catalogued) (hm : Calm w w') :
    w.program.KeepsKernels w'.program := by
  cases hm with
  | quiet hq => exact .of_same hq.kernels
  | @kernel p _ _ new hid _ _ _ =>
    rintro id k hk
    have hlt : id < p.nextKernel := (h.id hk).2
    refine ⟨none, ?_⟩
    rw [Table.find?_insert_of_ne (by omega), Option.or_none]
    exact hk
  | @code p _ id' k' code' hk' _ =>
    obtain rfl : k'.id = id' := (h.id hk').1
    rintro id k hk
    by_cases hid : id = k'.id
    · subst hid
      obtain rfl := Option.some.inj (hk'.symm.trans hk)
      exact ⟨some code', Table.find?_insert_self ..⟩
    · exact ⟨none, by rw [Table.find?_insert_of_ne hid, hk, Option.or_none]⟩
  | _ => exact .of_same rfl

theorem move {ok : World → Command → Prop} (h : w.program.Catalogued) (hm : Move ok w w') :
    w.program.KeepsKernels w'.program := by
  cases hm with
  | calm hm => exact calm h hm
  | @finished p p' held hm _ =>
    let I (w : World) : Prop := w.program.Catalogued ∧ p.KeepsKernels w.program
    have calmly {w w' : World} (hm : Calm w w') (h : I w) : I w' :=
      ⟨h.1.calm hm, IsTrans.trans _ _ _ h.2 (calm h.1 hm)⟩
    have closing {w w' : World} (hm : Closing w w') (h : I w) : I w' := by
      refine ⟨h.1.closing hm, IsTrans.trans _ _ _ h.2 ?_⟩
      cases hm <;> exact .of_same rfl
    exact (ending_keeps (I := I) calmly closing hm ⟨h, Std.Refl.refl p⟩).2
  | raw c hr _ =>
    obtain ⟨pool, hpool⟩ := World.step_raw (w := w) hr
    rw [hpool]
    exact .of_same rfl
  | _ => exact .of_same rfl

end KeepsKernels

end Program

namespace Run

variable {ok : World → Command → Prop} {w : World} {cs : List Command}

/-- Whatever is done next, kernels and their code stay. -/
theorem keepsKernels_step (r : Run ok w cs) (c : Command) :
    w.program.KeepsKernels (w.step c).program := by
  obtain ⟨-, hmoves⟩ := @World.step_moves (fun _ _ => True) w c r.hosted r.moored trivial
  refine And.right (a := (w.step c).program.Catalogued) ?_
  -- Within the command by induction on its moves.
  generalize w.step c = w' at hmoves
  induction hmoves with
  | refl => exact ⟨r.catalogued.2, Std.Refl.refl w.program⟩
  | tail _ hmove ih => exact ⟨ih.1.move hmove, IsTrans.trans _ _ _ ih.2 (.move ih.1 hmove)⟩

/-- So they do over any commands. -/
theorem keepsKernels_foldl (r : Run ok w cs) (later : List Command) :
    w.program.KeepsKernels (later.foldl World.step w).program :=
  r.foldl_along (fun r c => r.keepsKernels_step c) later

end Run

end FieldCompute
