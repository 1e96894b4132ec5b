import FieldCompute.Proofs.Block.Liveness
/-!
# The survivors are the live statements

`Live` says which statements of a body matter, without marks: those with an effect, and those that a
live one mentions. The marks find exactly these (`mem_kept_iff`): a mark is set by a live statement,
and what a live statement mentions is marked. So `dropDead` leaves the live statements, renumbered
(`Pruned`), they are all live in what it leaves (`live_image`), and there is nothing to drop from it
a second time. What was verified stays verified (`verify_dropDead`).
-/

namespace FieldCompute.Block

/-- A statement is live if it has an effect or a live statement mentions it. -/
inductive Live (b : Block) : Nat → Prop
  | effect {id : Nat} {s : Stmt} : b[id]? = some s → s.hasEffect = true → Live b id
  | operand {id o : Nat} {s : Stmt} : Live b id → b[id]? = some s → o ∈ s.operands → Live b o

/-- The block `left` consists of the live statements of `b`. They come from the given positions, in
their order, and mention each other where they are now. -/
structure Pruned (b : Block) (positions : List Nat) (left : Block) : Prop where
  rising : positions.Pairwise (· < ·)
  live (id : Nat) : id ∈ positions ↔ Live b id
  length : left.length = positions.length
  statement (i id : Nat) : positions[i]? = some id → ∃ s, b[id]? = some s ∧
    (∀ o ∈ s.operands, o ∈ positions) ∧ left[i]? = some (s.mapOperands positions.idxOf)

variable {b : Block}

/-! ## Marks and liveness -/

/-- Only live statements set marks. -/
theorem live_of_mem_marks {l : List Stmt} {i o : Nat} (hl : b.drop i = l) (ho : o ∈ marks l i) :
    Live b o := by
  -- On the rest of the body from `i` on, as `marks` goes through it: the later statements first.
  induction l generalizing i o with
  | nil => simp [marks] at ho
  | cons s rest ih =>
    have hs : b[i]? = some s := by
      have := congrArg (·[0]?) hl
      simpa using this
    have hrest : b.drop (i + 1) = rest := by
      rw [← List.drop_drop, hl]
      rfl
    simp only [marks] at ho
    split at ho
    · next h =>
      have hlive : Live b i := by
        rw [Bool.or_eq_true, decide_eq_true_eq] at h
        rcases h with h | h
        · exact .effect hs h
        · exact ih hrest h
      rcases List.mem_append.1 ho with ho | ho
      · exact .operand hlive hs ho
      · exact ih hrest ho
    · exact ih hrest ho

/-- The statements that are kept are the live ones. -/
theorem mem_kept_iff (hb : Ordered b) {id : Nat} : id ∈ kept b ↔ Live b id := by
  constructor
  · intro hid
    obtain ⟨s, hs, hl⟩ := mem_kept.1 hid
    rw [isLive, Bool.or_eq_true, decide_eq_true_eq] at hl
    rcases hl with he | hm
    · exact .effect hs he
    · exact live_of_mem_marks (i := 0) rfl hm
  · intro hl
    -- Along a path back from an effect; nothing on it comes after what mentions it.
    induction hl with
    | effect hs he => exact mem_kept.2 ⟨_, hs, by simp [isLive, he]⟩
    | operand _ hs ho ih => exact operand_kept hb ih hs _ ho

theorem idxOf_eq_of_getElem? {l : List Nat} (hl : l.Nodup) {i id : Nat} (h : l[i]? = some id) :
    l.idxOf id = i := by
  obtain ⟨hi, h⟩ := List.getElem?_eq_some_iff.1 h
  rw [← h, hl.idxOf_getElem]

/-- A kept statement goes where it stands among the kept ones. -/
theorem image_eq_idxOf {id : Nat} (hid : id ∈ kept b) : image b id = (kept b).idxOf id := by
  rw [image_of_mem hid]
  exact (idxOf_eq_of_getElem? (kept_nodup b) (getElem?_countP_lt (kept_rises b) hid)).symm

theorem pruned_dropDead (hb : Ordered b) : Pruned b (kept b) (dropDead b) := by
  refine ⟨kept_rises b, fun id => mem_kept_iff hb, by simp [dropDead, kept], ?_⟩
  intro i id hi
  have hid : id ∈ kept b := List.mem_of_getElem? hi
  obtain ⟨s, hs, -⟩ := mem_kept.1 hid
  have hops : ∀ o ∈ s.operands, o ∈ kept b := operand_kept hb hid hs
  refine ⟨s, hs, hops, ?_⟩
  have hat := getElem?_dropDead hb hid hs
  rw [image_eq_idxOf hid, idxOf_eq_of_getElem? (kept_nodup b) hi] at hat
  rw [hat, Stmt.mapOperands_congr fun o ho => image_eq_idxOf (hops o ho)]

/-! ## Nothing is left to drop -/

theorem dropDead_eq_self_iff (hb : Ordered b) :
    dropDead b = b ↔ ∀ id < b.length, Live b id := by
  constructor
  · intro h id hid
    have hlength : (kept b).length = (List.range b.length).length := by
      rw [List.length_range, ← (pruned_dropDead hb).length, h]
    rw [← mem_kept_iff hb, (kept_sublist b).eq_of_length hlength]
    exact List.mem_range.2 hid
  · intro h
    apply dropDead_eq_self hb
    intro id s hs
    have hid := (mem_kept_iff hb).2 (h id (List.getElem?_eq_some_iff.1 hs).1)
    obtain ⟨s', hs', hl⟩ := mem_kept.1 hid
    cases hs.symm.trans hs'
    exact hl

/-- A live statement is live at its new position. -/
theorem live_image (hb : Ordered b) {id : Nat} (h : Live b id) :
    Live (dropDead b) (image b id) := by
  induction h with
  | @effect id s hs he =>
    have hid := (mem_kept_iff hb).2 (.effect hs he)
    refine .effect (getElem?_dropDead hb hid hs) ?_
    rwa [Stmt.hasEffect_mapOperands]
  | @operand id o s hl hs ho ih =>
    refine .operand ih (getElem?_dropDead hb ((mem_kept_iff hb).2 hl) hs) ?_
    rw [Stmt.operands_mapOperands]
    exact List.mem_map_of_mem ho

theorem dropDead_dropDead (hb : Ordered b) : dropDead (dropDead b) = dropDead b := by
  rw [dropDead_eq_self_iff hb.dropDead]
  intro j hj
  obtain ⟨id, s, hid, hs, rfl, -⟩ := exists_of_getElem?_dropDead hb (List.getElem?_eq_getElem hj)
  exact live_image hb ((mem_kept_iff hb).1 hid)

/-- Of a body whose operands come earlier, dropping dead code leaves exactly the live statements, in
their order and unchanged but for the new numbers of what they mention. Doing it again changes
nothing, and it changes nothing at all if and only if every statement is live. -/
theorem dropDead_keeps_live (hb : Ordered b) :
    (∃ positions, Pruned b positions (dropDead b)) ∧ dropDead (dropDead b) = dropDead b ∧
      (dropDead b = b ↔ ∀ id < b.length, Live b id) :=
  ⟨⟨kept b, pruned_dropDead hb⟩, dropDead_dropDead hb, dropDead_eq_self_iff hb⟩

/-- A body that stores an argument at an index, behind a negation that nothing mentions. -/
def unusedNegation : Block :=
  [.const (.int 9) (.scalar .int32), .unary .neg 0 (.scalar .int32), .arg 0 (.scalar .int32),
    .arg 1 (.scalar .int32), .store 2 [2] 3]

/-- The negation and its operand are dropped, and so not all five statements are live. -/
theorem dropDead_keeps_live_unused :
    Ordered unusedNegation ∧
    dropDead unusedNegation =
      [.arg 0 (.scalar .int32), .arg 1 (.scalar .int32), .store 2 [0] 1] ∧
    dropDead (dropDead unusedNegation) = dropDead unusedNegation ∧
    ¬∀ id < unusedNegation.length, Live unusedNegation id := by
  have hv : verify unusedNegation [.scalar .int32, .scalar .int32] 0 = .ok () := by decide
  have hb : Ordered unusedNegation := (verify_eq_ok_iff.1 hv).ordered
  obtain ⟨-, hstable, hall⟩ := dropDead_keeps_live hb
  refine ⟨hb, by decide, hstable, ?_⟩
  rw [← hall]
  decide

/-! ## Verified bodies -/

/-- A body that is verified against a signature is still verified against it when its dead code is
dropped: what is left keeps its operands and its types. -/
theorem verify_dropDead {args : List DType} {numRets : Nat}
    (h : verify b args numRets = .ok ()) : verify (dropDead b) args numRets = .ok () :=
  verify_eq_ok_iff.2 (verify_eq_ok_iff.1 h).dropDead

/-- Without the negation, the index and the value that are stored have moved to the front. -/
theorem verify_dropDead_unused :
    verify unusedNegation [.scalar .int32, .scalar .int32] 0 = .ok () ∧
    dropDead unusedNegation ≠ unusedNegation ∧
    verify (dropDead unusedNegation) [.scalar .int32, .scalar .int32] 0 = .ok () := by
  have hv : verify unusedNegation [.scalar .int32, .scalar .int32] 0 = .ok () := by decide
  exact ⟨hv, by decide, verify_dropDead hv⟩

end FieldCompute.Block
