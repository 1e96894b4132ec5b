import FieldCompute.Interpreter
import FieldCompute.Proofs.Block.Liveness
/-!
# Dead code does not matter

A body and the same body without its dead statements run side by side. The values of the kept
statements agree along the renumbering, so a kept statement has the same answer and the same effect
in both (`step_alike`), and a dropped one has no effect (`step_dead`). Hence `run_dropDead`: the
shorter body ends as the longer one does, and fails only if the longer one fails.
-/

namespace FieldCompute

/-- Equal but for the statement that a failure to evaluate quotes. -/
inductive Failure.Alike : Failure → Failure → Prop
  | refl (f : Failure) : Alike f f
  | evaluation (kernel s t : String) :
    Alike (.error (.evaluation kernel s)) (.error (.evaluation kernel t))

/-- The same answer, or failures of the same kind. -/
inductive SameAnswer {α : Type} : Except Failure α → Except Failure α → Prop
  | ok (x : α) : SameAnswer (.ok x) (.ok x)
  | error {f g : Failure} : f.Alike g → SameAnswer (.error f) (.error g)

namespace SameAnswer

variable {α β : Type}

theorem refl (x : Except Failure α) : SameAnswer x x := by
  cases x with
  | ok x => exact .ok x
  | error f => exact .error (.refl f)

theorem bind {x y : Except Failure α} {f g : α → Except Failure β} (h : SameAnswer x y)
    (hf : ∀ a, SameAnswer (f a) (g a)) : SameAnswer (x >>= f) (y >>= g) := by
  cases h with
  | ok a => exact hf a
  | error h => exact .error h

theorem map {x y : Except Failure α} (f : α → β) (h : SameAnswer x y) :
    SameAnswer (f <$> x) (f <$> y) := by
  cases h with
  | ok a => exact .ok (f a)
  | error h => exact .error h

theorem mapM {ι : Type} {l : List ι} {f g : ι → Except Failure α} {σ : ι → ι}
    (h : ∀ i ∈ l, SameAnswer (f i) (g (σ i))) : SameAnswer (l.mapM f) ((l.map σ).mapM g) := by
  induction l with
  | nil => exact .refl _
  | cons i l ih =>
    simp only [List.map_cons, List.mapM_cons]
    refine (h i (by simp)).bind fun _ => ?_
    exact (ih fun j hj => h j (by simp [hj])).bind fun _ => .refl _

end SameAnswer

namespace Launch

variable {l : Launch} {values values' : Values} {m : Machine}

/-- The launch of the body without its dead statements. -/
def withoutDead (l : Launch) : Launch := { l with body := l.body.dropDead }

theorem defined_alike {α : Type} (l : Launch) (id id' : Nat) (s s' : Stmt) (x : Option α) :
    SameAnswer (l.defined id s x) (l.withoutDead.defined id' s' x) := by
  cases x with
  | none => exact .error (.evaluation _ _ _)
  | some x => exact .ok x

/-- The values of the statements in `ids` agree along the renumbering. -/
def Agree (l : Launch) (values values' : Values) (ids : List Nat) : Prop :=
  ∀ o ∈ ids, (values'[l.body.image o]?).join = (values[o]?).join

theorem operand_alike {o : Nat} (s s' : Stmt)
    (h : (values'[l.body.image o]?).join = (values[o]?).join) :
    SameAnswer (l.operand values s o) (l.withoutDead.operand values' s' (l.body.image o)) := by
  simp only [operand, h]
  exact defined_alike ..

theorem index_alike {o : Nat} (s s' : Stmt)
    (h : (values'[l.body.image o]?).join = (values[o]?).join) :
    SameAnswer (l.index values s o) (l.withoutDead.index values' s' (l.body.image o)) := by
  refine (operand_alike s s' h).bind fun v => ?_
  cases v.index? with
  | none => exact .error (.evaluation _ _ _)
  | some i => exact .ok i

theorem dtypeAt_withoutDead (hb : l.body.Ordered) {o : Nat} (ho : o ∈ l.body.kept) :
    l.withoutDead.body.dtypeAt (l.body.image o) = l.body.dtypeAt o :=
  Block.dtypeAt_dropDead hb ho

theorem evaluate_alike (hb : l.body.Ordered) (d : Device) {s : Stmt}
    (hk : ∀ o ∈ s.operands, o ∈ l.body.kept) (h : l.Agree values values' s.operands) :
    SameAnswer (l.evaluate d values s)
      (l.withoutDead.evaluate d values' (s.mapOperands l.body.image)) := by
  cases s with
  | const v dtype => exact (defined_alike ..).map _
  | arg i dtype => exact (defined_alike ..).map _
  | unary op a dtype =>
    refine (operand_alike _ _ (h a (by simp [Stmt.operands]))).bind fun v => ?_
    rw [dtypeAt_withoutDead hb (hk a (by simp [Stmt.operands]))]
    exact (defined_alike ..).map _
  | binary op a b dtype =>
    refine (operand_alike _ _ (h a (by simp [Stmt.operands]))).bind fun v => ?_
    refine (operand_alike _ _ (h b (by simp [Stmt.operands]))).bind fun w => ?_
    rw [dtypeAt_withoutDead hb (hk a (by simp [Stmt.operands])),
      dtypeAt_withoutDead hb (hk b (by simp [Stmt.operands]))]
    exact (defined_alike ..).map _
  | cast a dtype =>
    refine (operand_alike _ _ (h a (by simp [Stmt.operands]))).bind fun v => ?_
    exact (defined_alike ..).map _
  | load place is dtype =>
    refine (SameAnswer.mapM fun o ho => index_alike _ _ (h o ho)).bind fun indices => ?_
    exact .refl _
  | store place is v => exact .ok none
  | ret slot v => exact .ok none

theorem affect_alike (hb : l.body.Ordered) {s : Stmt}
    (hk : ∀ o ∈ s.operands, o ∈ l.body.kept) (h : l.Agree values values' s.operands) :
    SameAnswer (l.affect m values s)
      (l.withoutDead.affect m values' (s.mapOperands l.body.image)) := by
  cases s with
  | store place is v =>
    have his : ∀ o ∈ is, _ := fun o ho => h o (by simp [Stmt.operands, ho])
    refine (SameAnswer.mapM fun o ho => index_alike _ _ (his o ho)).bind fun indices => ?_
    refine (operand_alike _ _ (h v (by simp [Stmt.operands]))).bind fun w => ?_
    exact .refl _
  | ret slot v =>
    refine (operand_alike _ _ (h v (by simp [Stmt.operands]))).bind fun w => ?_
    rw [dtypeAt_withoutDead hb (hk v (by simp [Stmt.operands]))]
    refine (defined_alike ..).bind fun w => ?_
    exact .refl _
  | _ => exact .ok m

/-- A kept statement does the same in both runs. -/
theorem step_alike (hb : l.body.Ordered) {s : Stmt}
    (hk : ∀ o ∈ s.operands, o ∈ l.body.kept) (h : l.Agree values values' s.operands) :
    SameAnswer (l.step m values s) (l.withoutDead.step m values' (s.mapOperands l.body.image)) :=
  (evaluate_alike hb m.device hk h).bind fun _ => (affect_alike hb hk h).bind fun _ => .refl _

/-- A statement without effect leaves the machine alone. -/
theorem step_dead {s : Stmt} (hs : s.hasEffect = false) {v : Option Value} {n : Machine}
    (h : l.step m values s = .ok (v, n)) : n = m := by
  have ha : l.affect m values s = .ok m := by cases s <;> first | rfl | cases hs
  simp only [step, ha, Outcome.bind_eq_ok_iff, Outcome.pure_eq, Except.ok.injEq,
    Prod.mk.injEq] at h
  obtain ⟨_, -, _, rfl, -, rfl⟩ := h
  rfl

/-! ## Whole runs -/

/-- The run `r` of a body is followed by the run `r'` of the body without its dead statements. -/
structure Followed (l : Launch) (r r' : Except Halt Unit × Machine) : Prop where
  finish : r.1 = .ok () → r' = r
  halt (h : Halt) : r.1 = .error h → h.position ∈ l.body.kept →
    ∃ f, h.failure.Alike f ∧ r' = (.error ⟨l.body.image h.position, f⟩, r.2)

/-- What `dropDead` makes of the statements from position `i` on. -/
def shortFrom (b : Block) (i : Nat) : List Stmt :=
  (((b.drop i).zipIdx i).filter fun (s, id) => Block.isLive (Block.marks b 0) s id).map
    fun (s, _) => s.mapOperands b.image

theorem shortFrom_zero {b : Block} (hb : b.Ordered) : shortFrom b 0 = b.dropDead := by
  rw [Block.dropDead_eq hb]; rfl

theorem shortFrom_end {b : Block} {i : Nat} (h : b.drop i = []) : shortFrom b i = [] := by
  simp [shortFrom, h]

theorem shortFrom_step {b : Block} {i : Nat} {s : Stmt} {rest : List Stmt}
    (h : b.drop i = s :: rest) :
    shortFrom b i = if i ∈ b.kept then s.mapOperands b.image :: shortFrom b (i + 1)
      else shortFrom b (i + 1) := by
  have hs : b[i]? = some s := by
    have := congrArg (·[0]?) h
    simpa using this
  have hrest : b.drop (i + 1) = rest := by
    rw [← List.drop_drop, h]; rfl
  have hk : i ∈ b.kept ↔ Block.isLive (Block.marks b 0) s i = true := by
    rw [Block.mem_kept]
    exact ⟨fun ⟨s', hs', hl⟩ => by cases hs.symm.trans hs'; exact hl, fun hl => ⟨s, hs, hl⟩⟩
  simp only [shortFrom, h, hrest, List.zipIdx_cons, List.filter_cons, hk]
  split <;> rfl

/-- The first run has come to `rest`. The second has seen the kept statements only, and their values
agree. -/
structure Paced (l : Launch) (values values' : Values) (rest : List Stmt) : Prop where
  rest : l.body.drop values.size = rest
  size : values'.size = l.body.kept.countP (· < values.size)
  agree : l.Agree values values' (l.body.kept.filter (· < values.size))

namespace Paced

variable {s : Stmt} {rest : List Stmt}

theorem start : l.Paced #[] #[] l.body := ⟨rfl, by simp, fun o ho => by simp at ho⟩

theorem head (h : l.Paced values values' (s :: rest)) : l.body[values.size]? = some s := by
  have := congrArg (·[0]?) h.rest
  simpa using this

theorem tail (h : l.Paced values values' (s :: rest)) (v : Option Value) :
    l.body.drop (values.push v).size = rest := by
  rw [Array.size_push, ← List.drop_drop, h.rest]
  rfl

/-- A kept statement is the next one in both runs. -/
theorem image (h : l.Paced values values' rest) (hk : values.size ∈ l.body.kept) :
    l.body.image values.size = values'.size := by rw [Block.image_of_mem hk, h.size]

theorem step_alike (h : l.Paced values values' (s :: rest)) (hb : l.body.Ordered)
    (hk : values.size ∈ l.body.kept) :
    SameAnswer (l.step m values s)
      (l.withoutDead.step m values' (s.mapOperands l.body.image)) := by
  have hops : ∀ o ∈ s.operands, o ∈ l.body.kept := Block.operand_kept hb hk h.head
  refine Launch.step_alike hb hops fun o ho => h.agree o ?_
  simpa using ⟨hops o ho, hb _ s h.head o ho⟩

/-- Both runs have seen a kept statement. -/
theorem kept (h : l.Paced values values' (s :: rest)) (hk : values.size ∈ l.body.kept)
    (v : Option Value) : l.Paced (values.push v) (values'.push v) rest := by
  have hcount := countP_lt_succ l.body.kept values.size
  rw [List.count_eq_one_of_mem (Block.kept_nodup _) hk] at hcount
  refine ⟨h.tail v, by rw [Array.size_push, Array.size_push, h.size, hcount], fun o ho => ?_⟩
  simp only [Array.size_push, List.mem_filter, decide_eq_true_eq] at ho
  obtain ⟨hok, holt⟩ := ho
  rcases Nat.lt_succ_iff_lt_or_eq.1 holt with hlt | rfl
  · have hi : l.body.image o < values'.size := by
      rw [Block.image_of_mem hok, h.size]
      exact countP_lt_of_mem hok hlt
    rw [Array.getElem?_push_lt hi, Array.getElem?_push_lt hlt,
      ← Array.getElem?_eq_getElem hi, ← Array.getElem?_eq_getElem hlt]
    exact h.agree o (by simpa using ⟨hok, hlt⟩)
  · simp [h.image hok]

/-- Only the first run has seen a dropped statement. -/
theorem dropped (h : l.Paced values values' (s :: rest)) (hk : values.size ∉ l.body.kept)
    (v : Option Value) : l.Paced (values.push v) values' rest := by
  have hcount := countP_lt_succ l.body.kept values.size
  rw [List.count_eq_zero_of_not_mem hk] at hcount
  refine ⟨h.tail v, by rw [Array.size_push, h.size, hcount, Nat.add_zero], fun o ho => ?_⟩
  simp only [Array.size_push, List.mem_filter, decide_eq_true_eq] at ho
  obtain ⟨hok, holt⟩ := ho
  have hne : o ≠ values.size := by
    rintro rfl
    exact hk hok
  have hlt : o < values.size := by omega
  rw [Array.getElem?_push_lt hlt, ← Array.getElem?_eq_getElem hlt]
  exact h.agree o (by simpa using ⟨hok, hlt⟩)

theorem hasEffect (h : l.Paced values values' (s :: rest)) (hk : values.size ∉ l.body.kept) :
    s.hasEffect = false := by
  by_contra he
  exact hk (Block.mem_kept.2 ⟨s, h.head, by simp_all [Block.isLive]⟩)

end Paced

/-- The two runs from where they have come to. -/
theorem runFrom_followed (hb : l.body.Ordered) {rest : List Stmt}
    (h : l.Paced values values' rest) :
    l.Followed (l.runFrom values m rest)
      (l.withoutDead.runFrom values' m (shortFrom l.body values.size)) := by
  induction rest generalizing values values' m with
  | nil =>
    rw [shortFrom_end h.rest]
    exact ⟨fun _ => rfl, fun _ hh => (by cases hh)⟩
  | cons s rest ih =>
    rw [shortFrom_step h.rest]
    by_cases hk : values.size ∈ l.body.kept
    · have hstep := h.step_alike (m := m) hb hk
      simp only [if_pos hk, runFrom]
      generalize l.step m values s = r at hstep ⊢
      generalize l.withoutDead.step m values' _ = r' at hstep ⊢
      cases hstep with
      | error hf =>
        refine ⟨fun hh => (by cases hh), fun halt hh _ => ?_⟩
        cases hh
        exact ⟨_, hf, by rw [h.image hk]⟩
      | ok a => simpa using ih (m := a.2) (h.kept hk a.1)
    · -- Only the first run moves on.
      simp only [if_neg hk]
      cases hr : l.step m values s with
      | error f =>
        simp only [runFrom, hr]
        refine ⟨fun hh => (by cases hh), fun halt hh hp => ?_⟩
        cases hh
        exact absurd hp hk
      | ok a =>
        obtain ⟨v, n⟩ := a
        obtain rfl := step_dead (h.hasEffect hk) hr
        simp only [runFrom, hr]
        simpa using ih (m := n) (h.dropped hk v)

theorem run_followed (hb : l.body.Ordered) (m : Machine) :
    l.Followed (l.run m) (l.withoutDead.run m) := by
  have := runFrom_followed (m := m) hb Paced.start
  rwa [show (#[] : Values).size = 0 from rfl, shortFrom_zero hb] at this

/-- Dropping the dead statements of a body that `verify` accepts preserves its meaning, for every
field table, memory, list of arguments and content of the result slots. A run that finishes does so
with the same machine; one that halts at a kept statement halts at its image, with a failure of the
same kind and the same machine. So the shorter body fails only if the longer one does. -/
theorem run_dropDead {l : Launch} {args : List DType} {numRets : Nat}
    (h : l.body.verify args numRets = .ok ()) (m : Machine) :
    (∀ n, l.run m = (.ok (), n) → l.withoutDead.run m = (.ok (), n)) ∧
    (∀ halt n, l.run m = (.error halt, n) → halt.position ∈ l.body.kept →
      ∃ f, halt.failure.Alike f ∧
        l.withoutDead.run m = (.error ⟨l.body.image halt.position, f⟩, n) ∧
        ∃ s, l.body[halt.position]? = some s ∧
          l.withoutDead.body[l.body.image halt.position]? = some (s.mapOperands l.body.image)) ∧
    (∀ halt, (l.withoutDead.run m).1 = .error halt → ∃ halt', (l.run m).1 = .error halt') := by
  have hb := (Block.verify_eq_ok_iff.1 h).ordered
  have hf := run_followed hb m
  refine ⟨?_, ?_, ?_⟩
  · intro n hn
    rw [hf.finish (by rw [hn]), hn]
  · intro halt n hn hk
    obtain ⟨f, ha, hr⟩ := hf.halt halt (by rw [hn]) hk
    obtain ⟨s, hs, -⟩ := Block.mem_kept.1 hk
    exact ⟨f, ha, by rw [hr, hn], s, hs, Block.getElem?_dropDead hb hk hs⟩
  · intro halt hh
    cases hr : (l.run m).1 with
    | error halt' => exact ⟨halt', rfl⟩
    | ok u =>
      rw [hf.finish hr, hr] at hh
      cases hh

/-- A body with one dead statement that divides by zero and returns the quotient. -/
def zeroDivision : Launch where
  kernel := "quotient"
  body := [.const (.int 7) (.scalar .int64), .const (.int 1) (.scalar .int64),
    .const (.int 0) (.scalar .int64), .binary .idiv 1 2 (.scalar .int64), .ret 0 3]
  args := []
  binding? _ := none

/-- The division is the fourth statement of the body, and the third without the dead one. -/
theorem run_dropDead_zeroDivision :
    zeroDivision.body.verify [] 1 = .ok () ∧ 3 ∈ zeroDivision.body.kept ∧
      ∃ f, (zeroDivision.withoutDead.run ⟨.create none, .empty⟩).1 = .error ⟨2, f⟩ := by
  have hv : zeroDivision.body.verify [] 1 = .ok () := by decide
  have hk : 3 ∈ zeroDivision.body.kept := by decide
  obtain ⟨f, -, hr, -⟩ := (run_dropDead hv ⟨.create none, .empty⟩).2.1 _ _ rfl hk
  exact ⟨hv, hk, f, by rw [hr]; rfl⟩

end Launch

end FieldCompute
