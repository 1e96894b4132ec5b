import FieldCompute.Block.Liveness
import FieldCompute.Proofs.Block.WellFormed
import Mathlib.Data.List.Nodup
/-!
# Which statements are kept, and where they go

`dropDead` keeps the live statements and renumbers what they mention. In a body whose operands come
earlier, what a kept statement mentions is kept (`operand_kept`), a kept statement stands at its new
position with its operands renumbered (`getElem?_dropDead`), and the result is well formed again.
-/

namespace FieldCompute

/-- In a rising list, as many elements stand before `x` as are smaller. -/
theorem getElem?_countP_lt {l : List Nat} (h : l.Pairwise (· < ·)) {x : Nat} (hx : x ∈ l) :
    l[l.countP (· < x)]? = some x := by
  induction l with
  | nil => simp at hx
  | cons a l ih =>
    obtain ⟨ha, hl⟩ := List.pairwise_cons.1 h
    rcases List.mem_cons.1 hx with rfl | hx
    · have : l.countP (· < x) = 0 := by
        rw [List.countP_eq_zero]
        intro y hy
        have := ha y hy
        simp only [decide_eq_true_eq]
        omega
      simp [this]
    · simp [ha x hx, ih hl hx]

theorem countP_lt_of_mem {l : List Nat} {x y : Nat} (hx : x ∈ l) (hxy : x < y) :
    l.countP (· < x) < l.countP (· < y) := by
  induction l with
  | nil => simp at hx
  | cons a l ih =>
    have mono : l.countP (· < x) ≤ l.countP (· < y) := by
      apply List.countP_mono_left
      intro z _ hz
      simp only [decide_eq_true_eq] at hz ⊢
      omega
    rcases List.mem_cons.1 hx with rfl | hx
    · simp only [List.countP_cons, Nat.lt_irrefl, decide_false, hxy, decide_true]
      simp
      omega
    · have := ih hx
      simp only [List.countP_cons, decide_eq_true_eq]
      split <;> split <;> omega

theorem countP_lt_succ (l : List Nat) (i : Nat) :
    l.countP (· < i + 1) = l.countP (· < i) + l.count i := by
  induction l with
  | nil => rfl
  | cons a l ih =>
    simp only [List.countP_cons, List.count_cons, decide_eq_true_eq, beq_iff_eq, ih]
    split <;> split <;> split <;> omega

theorem Stmt.mapOperands_congr {f g : StmtId → StmtId} {s : Stmt}
    (h : ∀ o ∈ s.operands, f o = g o) : s.mapOperands f = s.mapOperands g := by
  cases s <;> simp_all [mapOperands, operands]

@[simp] theorem Stmt.mapOperands_self (s : Stmt) : (s.mapOperands fun o => o) = s := by
  cases s <;> simp [mapOperands]

theorem Stmt.declared_mapOperands {args : List DType} {numRets : Nat} {f : StmtId → StmtId}
    {s : Stmt} : (s.mapOperands f).Declared args numRets ↔ s.Declared args numRets := by
  cases s <;> rfl

namespace Block

/-! ## Marks -/

theorem marks_subset_append (pre l : List Stmt) (id : Nat) :
    marks l (id + pre.length) ⊆ marks (pre ++ l) id := by
  induction pre generalizing id with
  | nil => simp
  | cons s pre ih =>
    have ih := ih (id + 1)
    rw [Nat.add_assoc, Nat.add_comm 1] at ih
    simp only [List.cons_append, List.length_cons, marks]
    split
    · intro o ho
      exact List.mem_append_right _ (ih ho)
    · exact ih

/-- A mark comes from behind or from an operand in front. -/
theorem mem_marks_append {pre l : List Stmt} {id o : Nat} (h : o ∈ marks (pre ++ l) id) :
    o ∈ marks l (id + pre.length) ∨ ∃ s ∈ pre, o ∈ s.operands := by
  induction pre generalizing id with
  | nil => exact .inl (by simpa using h)
  | cons s pre ih =>
    have later (h : o ∈ marks (pre ++ l) (id + 1)) :
        o ∈ marks l (id + (s :: pre).length) ∨ ∃ s' ∈ s :: pre, o ∈ s'.operands := by
      rcases ih h with h | ⟨s', hs', ho⟩
      · exact .inl (by rwa [List.length_cons, Nat.add_comm pre.length, ← Nat.add_assoc])
      · exact .inr ⟨s', by simp [hs'], ho⟩
    simp only [List.cons_append, marks] at h
    split at h
    · rcases List.mem_append.1 h with h | h
      · exact .inr ⟨s, by simp, h⟩
      · exact later h
    · exact later h

/-- Every operand comes earlier. -/
def Ordered (b : Block) : Prop :=
  ∀ (id : Nat) (s : Stmt), b[id]? = some s → ∀ o : Nat, o ∈ s.operands → o < id

theorem WellFormed.ordered {b : Block} {args : List DType} {numRets : Nat}
    (h : WellFormed b args numRets) : Ordered b := h.earlier

/-- What a live statement mentions is marked. -/
theorem operand_marked {b : Block} (hb : Ordered b) {id : Nat} {s : Stmt} (hs : b[id]? = some s)
    (hl : isLive (marks b 0) s id = true) : ∀ o ∈ s.operands, o ∈ marks b 0 := by
  obtain ⟨hid, hsid⟩ := List.getElem?_eq_some_iff.1 hs
  have split : b = b.take id ++ s :: b.drop (id + 1) := by
    rw [← hsid, List.getElem_cons_drop, List.take_append_drop]
  have hlen : (b.take id).length = id := by simp; omega
  -- Marks of `id` in front of it would be operands that do not come earlier.
  have behind : s.hasEffect = true ∨ id ∈ marks (b.drop (id + 1)) (id + 1) := by
    simp only [isLive, Bool.or_eq_true, decide_eq_true_eq] at hl
    refine hl.imp_right fun hm => ?_
    have split' : b = b.take (id + 1) ++ b.drop (id + 1) := by simp
    rw [split'] at hm
    rcases mem_marks_append hm with hm | ⟨s', hs', ho⟩
    · rwa [List.length_take, Nat.min_eq_left (by omega), Nat.zero_add] at hm
    · obtain ⟨j, hj⟩ := List.mem_iff_getElem?.1 hs'
      rw [List.getElem?_take] at hj
      split at hj
      · have := hb j s' hj id ho
        omega
      · cases hj
  have sub := marks_subset_append (b.take id) (s :: b.drop (id + 1)) 0
  rw [← split, hlen, Nat.zero_add] at sub
  intro o ho
  refine sub ?_
  rw [marks, if_pos (by simpa using behind)]
  exact List.mem_append_left _ ho

/-! ## Survivors -/

/-- The positions that `dropDead` keeps. -/
def kept (b : Block) : List StmtId := (survivors b).map (·.2)

/-- Where a kept statement goes. -/
def image (b : Block) (id : Nat) : StmtId := newPosition (kept b) id

theorem mem_survivors {b : Block} {s : Stmt} {id : Nat} :
    (s, id) ∈ survivors b ↔ b[id]? = some s ∧ isLive (marks b 0) s id = true := by
  simp [survivors, List.mem_zipIdx_iff_getElem?]

theorem mem_kept {b : Block} {id : Nat} :
    id ∈ kept b ↔ ∃ s, b[id]? = some s ∧ isLive (marks b 0) s id = true := by
  simp [kept, mem_survivors]

theorem kept_sublist (b : Block) : (kept b).Sublist (List.range b.length) := by
  have hr : List.range b.length = b.zipIdx.map (·.2) := by
    rw [List.zipIdx_map_snd, List.range_eq_range']
  rw [hr]
  exact List.filter_sublist.map _

theorem kept_rises (b : Block) : (kept b).Pairwise (· < ·) :=
  List.pairwise_lt_range.sublist (kept_sublist b)

theorem kept_nodup (b : Block) : (kept b).Nodup := (kept_rises b).imp Nat.ne_of_lt

theorem operand_kept {b : Block} (hb : Ordered b) {id : Nat} (hid : id ∈ kept b) {s : Stmt}
    (hs : b[id]? = some s) : ∀ o ∈ s.operands, o ∈ kept b := by
  intro o ho
  obtain ⟨s', hs', hl⟩ := mem_kept.1 hid
  cases hs.symm.trans hs'
  have hm := operand_marked hb hs hl o ho
  have hlt := hb id s hs o ho
  have := (List.getElem?_eq_some_iff.1 hs).1
  exact mem_kept.2 ⟨b[o], by simp, by simp [isLive, hm]⟩

theorem image_of_mem {b : Block} {id : Nat} (h : id ∈ kept b) :
    image b id = (kept b).countP (· < id) := by simp [image, newPosition, h]

theorem image_lt_image {b : Block} {i j : Nat} (hi : i ∈ kept b) (hj : j ∈ kept b) (h : i < j) :
    image b i < image b j := by
  rw [image_of_mem hi, image_of_mem hj]
  exact countP_lt_of_mem hi h

/-! ## The body without its dead statements -/

/-- In an ordered body every mention of a survivor is renumbered. -/
theorem dropDead_eq {b : Block} (hb : Ordered b) :
    dropDead b = (survivors b).map fun (s, _) => s.mapOperands (image b) := by
  apply List.map_congr_left
  rintro ⟨s, id⟩ h
  apply Stmt.mapOperands_congr
  intro o ho
  simp [hb id s (mem_survivors.1 h).1 o ho, image, kept]

theorem getElem?_dropDead {b : Block} (hb : Ordered b) {id : Nat} {s : Stmt}
    (hid : id ∈ kept b) (hs : b[id]? = some s) :
    (dropDead b)[image b id]? = some (s.mapOperands (image b)) := by
  have hk : (kept b)[image b id]? = some id := by
    rw [image_of_mem hid]
    exact getElem?_countP_lt (kept_rises b) hid
  rw [kept, List.getElem?_map, Option.map_eq_some_iff] at hk
  obtain ⟨⟨s', id'⟩, hsv, rfl⟩ := hk
  obtain ⟨hs', -⟩ := mem_survivors.1 (List.mem_of_getElem? hsv)
  cases hs.symm.trans hs'
  rw [dropDead_eq hb, List.getElem?_map, hsv]
  rfl

/-- Every statement of the result is the image of a kept one. -/
theorem exists_of_getElem?_dropDead {b : Block} (hb : Ordered b) {j : Nat} {t : Stmt}
    (h : (dropDead b)[j]? = some t) :
    ∃ id s, id ∈ kept b ∧ b[id]? = some s ∧ j = image b id ∧ t = s.mapOperands (image b) := by
  rw [dropDead_eq hb, List.getElem?_map, Option.map_eq_some_iff] at h
  obtain ⟨⟨s, id⟩, hsv, rfl⟩ := h
  obtain ⟨hs, hl⟩ := mem_survivors.1 (List.mem_of_getElem? hsv)
  have hid : id ∈ kept b := mem_kept.2 ⟨s, hs, hl⟩
  refine ⟨id, s, hid, hs, ?_, rfl⟩
  have hk : (kept b)[j]? = some id := by rw [kept, List.getElem?_map, hsv]; rfl
  obtain ⟨hj, hjd⟩ := List.getElem?_eq_some_iff.1 hk
  -- A rising list holds `id` once.
  have hi := getElem?_countP_lt (kept_rises b) hid
  rw [← image_of_mem hid] at hi
  obtain ⟨hi, hid'⟩ := List.getElem?_eq_some_iff.1 hi
  exact (List.Nodup.getElem_inj_iff (kept_nodup b)).1 (hjd.trans hid'.symm)

theorem dtypeAt_dropDead {b : Block} (hb : Ordered b) {o : Nat} (ho : o ∈ kept b) :
    dtypeAt (dropDead b) (image b o) = dtypeAt b o := by
  obtain ⟨s, hs, -⟩ := mem_kept.1 ho
  simp [dtypeAt, getElem?_dropDead hb ho hs, hs]

/-- Renumbered operands still come earlier. -/
theorem Ordered.dropDead {b : Block} (hb : Ordered b) : Ordered (dropDead b) := by
  intro j t ht o ho
  obtain ⟨id, s, hid, hs, rfl, rfl⟩ := exists_of_getElem?_dropDead hb ht
  rw [Stmt.operands_mapOperands] at ho
  obtain ⟨p, hp, rfl⟩ := List.mem_map.1 ho
  exact image_lt_image (operand_kept hb hid hs p hp) hid (hb id s hs p hp)

/-- Dropping dead code keeps a body well formed. -/
theorem WellFormed.dropDead {b : Block} {args : List DType} {numRets : Nat}
    (h : WellFormed b args numRets) : WellFormed (dropDead b) args numRets := by
  have hb := h.ordered
  refine ⟨hb.dropDead, ?_, ?_⟩ <;> intro j t ht <;>
    obtain ⟨id, s, hid, hs, rfl, rfl⟩ := exists_of_getElem?_dropDead hb ht
  · intro o ho
    rw [Stmt.operands_mapOperands] at ho
    obtain ⟨p, hp, rfl⟩ := List.mem_map.1 ho
    rw [dtypeAt_dropDead hb (operand_kept hb hid hs p hp)]
    exact h.valued id s hs p hp
  · exact Stmt.declared_mapOperands.2 (h.declared id s hs)

/-- A body whose statements are all live stays as it is. -/
theorem dropDead_eq_self {b : Block} (hb : Ordered b)
    (h : ∀ (id : Nat) (s : Stmt), b[id]? = some s → isLive (marks b 0) s id = true) :
    dropDead b = b := by
  have all : survivors b = b.zipIdx := by
    rw [survivors, List.filter_eq_self]
    rintro ⟨s, id⟩ hs
    exact h id s (List.mem_zipIdx_iff_getElem?.1 hs)
  have hk : kept b = List.range b.length := by
    rw [kept, all, List.zipIdx_map_snd, List.range_eq_range']
  have hi : ∀ id ∈ kept b, image b id = id := by
    intro id hid
    have := getElem?_countP_lt (kept_rises b) hid
    rw [← image_of_mem hid, hk, List.getElem?_eq_some_iff] at this
    obtain ⟨_, himage⟩ := this
    simpa using himage
  have same : ∀ p ∈ b.zipIdx, p.1.mapOperands (image b) = p.1 := by
    rintro ⟨s, id⟩ hp
    have hs := List.mem_zipIdx_iff_getElem?.1 hp
    have hid : id ∈ kept b := mem_kept.2 ⟨s, hs, h id s hs⟩
    rw [Stmt.mapOperands_congr (g := fun o => o) fun o ho => hi o (operand_kept hb hid hs o ho),
      Stmt.mapOperands_self]
  rw [dropDead_eq hb, all, List.map_congr_left same, List.zipIdx_map_fst]

end Block

end FieldCompute
