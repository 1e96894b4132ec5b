import FieldCompute.Tree.Registry
import Mathlib.Data.List.Nodup
/-!
# Ids of trees

A registry is `Sound` if every live tree stands under its own id and the freed ids are empty slots.
Then a tree that is added gets an id that no live tree has, and adding and removing change what
stands under that id alone (`get?_add`, `get?_remove`).
-/

namespace FieldCompute.Registry

variable {r : Registry} {root : Node} {compileOnly : Bool} {t : FieldTree} {id : Nat}

/-- Live trees stand under their ids, and every freed id is an empty slot. -/
structure Sound (r : Registry) : Prop where
  id {i : Nat} {t : FieldTree} : r.get? i = some t → t.id = i
  free : ∀ i ∈ r.free, i < r.slots.length ∧ r.get? i = none
  nodup : r.free.Nodup

theorem sound_empty : empty.Sound := ⟨fun h => (by cases h), fun _ h => (by cases h), .nil⟩

theorem get?_eq_some_iff : r.get? id = some t ↔ r.slots[id]? = some (some t) := by
  simp [get?, Option.join_eq_some_iff]

theorem lt_of_get? (h : r.get? id = some t) : id < r.slots.length :=
  (List.getElem?_eq_some_iff.1 (get?_eq_some_iff.1 h)).1

theorem mem_live_iff : t ∈ r.live ↔ ∃ i, r.get? i = some t := by
  have hlive : t ∈ r.live ↔ some t ∈ r.slots := by simp [live]
  rw [hlive, List.mem_iff_getElem?]
  simp only [get?_eq_some_iff]

theorem Sound.mem_live (h : r.Sound) : t ∈ r.live ↔ r.get? t.id = some t := by
  rw [mem_live_iff]
  refine ⟨?_, fun ht => ⟨_, ht⟩⟩
  rintro ⟨i, hi⟩
  obtain rfl := h.id hi
  exact hi

/-- Live trees have different ids. -/
theorem Sound.nodup_live (h : r.Sound) : (r.live.map (·.id)).Nodup := by
  rw [List.Nodup, List.pairwise_map, live, List.pairwise_filterMap, List.pairwise_iff_getElem]
  intro i j hi hj hlt t ht u hu
  have hti : t.id = i := h.id (get?_eq_some_iff.2 (List.getElem?_eq_some_iff.2 ⟨hi, ht⟩))
  have huj : u.id = j := h.id (get?_eq_some_iff.2 (List.getElem?_eq_some_iff.2 ⟨hj, hu⟩))
  omega

/-- The id that the next tree gets. -/
def next (r : Registry) : Nat := r.free.headD r.slots.length

theorem add_fst (r : Registry) (root : Node) (compileOnly : Bool) :
    (r.add root compileOnly).1 = ⟨r.next, root, compileOnly⟩ := by
  unfold add allocateId next
  cases r.free <;> rfl

theorem get?_next (h : r.Sound) : r.get? r.next = none := by
  unfold next
  cases hf : r.free with
  | nil => simp [get?]
  | cons id free => exact (h.free id (by simp [hf])).2

theorem get?_add (h : r.Sound) (root : Node) (compileOnly : Bool) (i : Nat) :
    (r.add root compileOnly).2.get? i =
      if i = r.next then some ⟨r.next, root, compileOnly⟩ else r.get? i := by
  unfold add allocateId
  cases hf : r.free with
  | nil =>
    have hnext : r.next = r.slots.length := by rw [next, hf]; rfl
    rw [hnext]
    simp only [get?]
    split
    · rename_i hi; simp [hi]
    · rename_i hi
      rw [List.getElem?_set_ne (Ne.symm hi)]
      rcases Nat.lt_or_gt_of_ne hi with hlt | hgt
      · rw [List.getElem?_append_left hlt]
      · rw [List.getElem?_eq_none (Nat.le_of_lt hgt), List.getElem?_eq_none (by simp; omega)]
  | cons id free =>
    have hnext : r.next = id := by rw [next, hf]; rfl
    have hlt := (h.free id (by simp [hf])).1
    rw [hnext]
    simp only [get?]
    split
    · rename_i hi; simp [hi, hlt]
    · rename_i hi
      rw [List.getElem?_set_ne (Ne.symm hi)]

theorem get?_remove (r : Registry) (id i : Nat) :
    (r.remove id).2.get? i = if i = id then none else r.get? i := by
  unfold remove
  cases ht : r.get? id with
  | none =>
    simp only
    split
    · rename_i hi; rw [hi, ht]
    · rfl
  | some t =>
    have hlt := lt_of_get? ht
    simp only [get?]
    by_cases hi : i = id
    · subst i; simp [hlt]
    · simp [List.getElem?_set_ne (Ne.symm hi), hi]

theorem length_add (r : Registry) (root : Node) (compileOnly : Bool) :
    r.slots.length ≤ (r.add root compileOnly).2.slots.length := by
  unfold add allocateId
  cases r.free <;> simp

theorem free_add (r : Registry) (root : Node) (compileOnly : Bool) :
    (r.add root compileOnly).2.free = r.free.tail := by
  unfold add allocateId
  cases r.free <;> rfl

theorem Sound.add (h : r.Sound) (root : Node) (compileOnly : Bool) :
    (r.add root compileOnly).2.Sound where
  id {i t} ht := by
    rw [get?_add h] at ht
    split at ht
    · cases ht; symm; assumption
    · exact h.id ht
  free i hi := by
    rw [free_add] at hi
    obtain ⟨hlt, hn⟩ := h.free i (List.mem_of_mem_tail hi)
    refine ⟨Nat.lt_of_lt_of_le hlt (length_add ..), ?_⟩
    rw [get?_add h, if_neg, hn]
    rintro rfl
    -- The id that was taken stands on the stack once.
    cases hf : r.free with
    | nil => simp [hf] at hi
    | cons id free =>
      have hnodup := h.nodup
      rw [hf] at hnodup hi
      simp only [next, hf, List.headD_cons] at hi
      exact (List.nodup_cons.1 hnodup).1 hi
  nodup := by
    rw [free_add]
    exact h.nodup.sublist (List.tail_sublist _)

theorem Sound.remove (h : r.Sound) (id : Nat) : (r.remove id).2.Sound := by
  cases ht : r.get? id with
  | none => simpa [Registry.remove, ht] using h
  | some t =>
    refine ⟨fun {i u} hu => ?_, fun i hi => ?_, ?_⟩
    · rw [get?_remove] at hu
      split at hu
      · cases hu
      · exact h.id hu
    · rw [get?_remove]
      simp only [Registry.remove, ht, List.mem_cons, List.length_set] at hi ⊢
      rcases hi with rfl | hi
      · exact ⟨lt_of_get? ht, if_pos rfl⟩
      · obtain ⟨hlt, hn⟩ := h.free i hi
        exact ⟨hlt, by rw [hn, ite_self]⟩
    · simp only [Registry.remove, ht]
      refine List.nodup_cons.2 ⟨?_, h.nodup⟩
      intro hi
      rw [(h.free id hi).2] at ht
      cases ht

/-- Trees that are live stay so when one is added. -/
theorem Sound.mem_live_add (h : r.Sound) (ht : t ∈ r.live) (root : Node) (compileOnly : Bool) :
    t ∈ (r.add root compileOnly).2.live := by
  have hget := h.mem_live.1 ht
  rw [(h.add root compileOnly).mem_live, get?_add h, if_neg, hget]
  intro hid
  rw [hid, get?_next h] at hget
  cases hget

/-- What is live when a tree has been taken out stands under another id. -/
theorem Sound.mem_live_remove (h : r.Sound) (id : Nat) :
    t ∈ (r.remove id).2.live ↔ t ∈ r.live ∧ t.id ≠ id := by
  rw [(h.remove id).mem_live, get?_remove, h.mem_live]
  split <;> simp_all

/-- A tree that is added and taken out again leaves no trace. -/
theorem get?_add_remove (h : r.Sound) (root : Node) (compileOnly : Bool) (i : Nat) :
    ((r.add root compileOnly).2.remove (r.add root compileOnly).1.id).2.get? i = r.get? i := by
  rw [get?_remove, get?_add h, add_fst]
  simp only
  split
  · rename_i hi; rw [hi, get?_next h]
  · rfl

theorem Sound.add_remove (h : r.Sound) (root : Node) (compileOnly : Bool) (id : Nat) :
    ((r.add root compileOnly).2.remove id).2.Sound := (h.add root compileOnly).remove id

end FieldCompute.Registry
