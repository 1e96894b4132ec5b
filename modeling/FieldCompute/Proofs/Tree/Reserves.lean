import FieldCompute.Proofs.Tree.Ids
/-!
# Ids in reserve

A registry that has grown for trees which are gone again has ids in reserve: slots at the end of the
id space, with their ids at the bottom of the stack, the lowest on top (`Registry.Reserves`). Nobody
sees a difference. The next id is the same, since the reserve is used only where the other registry
grows, and each time it is the id to which that grows (`Reserves.add`). So all later calls that end
alike get the same answers (`Reserves.answers`). A tree that is added and taken out again puts one
id in reserve at most (`Sound.reserves_add_remove`).
-/

namespace FieldCompute

/-- A call that adds a tree or destroys one. -/
inductive TreeCall where
  | add (root : Node) (compileOnly : Bool)
  | destroy (tree : Nat)

end FieldCompute

namespace FieldCompute.Registry

variable {r r' : Registry} {k : Nat}

/-- The second registry is the first one with `k` ids in reserve. -/
structure Reserves (k : Nat) (r r' : Registry) : Prop where
  slots : r'.slots = r.slots ++ List.replicate k none
  free : r'.free = r.free ++ List.range' r.slots.length k

namespace Reserves

theorem get? (h : Reserves k r r') (id : Nat) : r'.get? id = r.get? id := by
  unfold Registry.get?
  rw [h.slots]
  rcases Nat.lt_or_ge id r.slots.length with hlt | hge
  · rw [List.getElem?_append_left hlt]
  · rw [List.getElem?_append_right hge, List.getElem?_eq_none hge, List.getElem?_replicate]
    split <;> rfl

theorem live (h : Reserves k r r') : r'.live = r.live := by
  simp [Registry.live, h.slots]

/-- The next tree gets the same id. -/
theorem next (h : Reserves k r r') : r'.next = r.next := by
  unfold Registry.next
  rw [h.free, h.slots]
  cases r.free with
  | cons id free => rfl
  | nil => cases k <;> simp [List.range'_succ]

/-- A registry that grows takes an id from the reserve of the other one, if it has any. -/
theorem add (h : Reserves k r r') (hs : r.Sound) (root : Node) (compileOnly : Bool) :
    ∃ j, Reserves j (r.add root compileOnly).2 (r'.add root compileOnly).2 := by
  obtain ⟨hslots, hfree⟩ := h
  unfold Registry.add Registry.allocateId
  rw [hfree, hslots]
  cases hf : r.free with
  | cons id free =>
    have hlt := (hs.free id (by simp [hf])).1
    exact ⟨k, by simp [List.set_append_left _ _ hlt], by simp⟩
  | nil =>
    cases k with
    | zero => exact ⟨0, by simp, by simp⟩
    | succ k =>
      exact ⟨k, by simp [List.range'_succ, List.replicate_succ], by simp [List.range'_succ]⟩

theorem remove (h : Reserves k r r') (id : Nat) : Reserves k (r.remove id).2 (r'.remove id).2 := by
  unfold Registry.remove
  rw [h.get? id]
  cases ht : r.get? id with
  | none => exact h
  | some t =>
    obtain ⟨hslots, hfree⟩ := h
    exact ⟨by simp [hslots, List.set_append_left _ _ (lt_of_get? ht)], by simp [hfree]⟩

end Reserves

/-! ## Later calls -/

/-- What a call that succeeds or fails answers, and what it makes of the registry. A tree that is
not added after all is taken out again, and one is gone also where destroying it fails. -/
def effect (r : Registry) : TreeCall → Bool → Option (Option Nat) × Registry
  | .add root compileOnly, true => (some r.next, (r.add root compileOnly).2)
  | .add root compileOnly, false => (none, ((r.add root compileOnly).2.remove r.next).2)
  | .destroy tree, ok => (if ok then some none else none, (r.remove tree).2)

theorem Sound.effect (h : r.Sound) (c : TreeCall) (ok : Bool) : (r.effect c ok).2.Sound := by
  cases c with
  | add root compileOnly =>
    cases ok with
    | true => exact h.add root compileOnly
    | false => exact h.add_remove root compileOnly _
  | destroy tree => exact h.remove tree

/-- The answers to calls, each given with whether it succeeds. -/
def answers (r : Registry) : List (TreeCall × Bool) → List (Option (Option Nat))
  | [] => []
  | (c, ok) :: cs => (r.effect c ok).1 :: answers (r.effect c ok).2 cs

namespace Reserves

theorem effect (h : Reserves k r r') (hs : r.Sound) (c : TreeCall) (ok : Bool) :
    (r'.effect c ok).1 = (r.effect c ok).1 ∧
      ∃ j, Reserves j (r.effect c ok).2 (r'.effect c ok).2 := by
  cases c with
  | add root compileOnly =>
    obtain ⟨j, hj⟩ := h.add hs root compileOnly
    cases ok with
    | true => exact ⟨congrArg (fun id => some (some id)) h.next, j, hj⟩
    | false =>
      refine ⟨rfl, j, ?_⟩
      simp only [Registry.effect, h.next]
      exact hj.remove _
  | destroy tree => exact ⟨rfl, k, h.remove tree⟩

/-- Whatever calls follow, if they end alike they get the same answers. -/
theorem answers (h : Reserves k r r') (hs : r.Sound) (cs : List (TreeCall × Bool)) :
    r'.answers cs = r.answers cs := by
  induction cs generalizing k r r' with
  | nil => rfl
  | cons c cs ih =>
    obtain ⟨c, ok⟩ := c
    obtain ⟨hanswer, j, hj⟩ := h.effect hs c ok
    simp only [Registry.answers]
    rw [hanswer, ih hj (hs.effect c ok)]

end Reserves

/-! ## Back out again -/

/-- Where the stack was empty the id is in reserve afterwards, and else it is back on the stack. -/
theorem Sound.reserves_add_remove (h : r.Sound) (root : Node) (compileOnly : Bool) :
    ∃ k, Reserves k r
      ((r.add root compileOnly).2.remove (r.add root compileOnly).1.id).2 := by
  have hget : (r.add root compileOnly).2.get? r.next = some ⟨r.next, root, compileOnly⟩ := by
    rw [get?_add h, if_pos rfl]
  have hremoved : ((r.add root compileOnly).2.remove r.next).2 =
      ⟨(r.add root compileOnly).2.slots.set r.next none,
        r.next :: (r.add root compileOnly).2.free⟩ := by
    rw [Registry.remove, hget]
  rw [add_fst, hremoved, free_add]
  unfold Registry.add Registry.allocateId
  cases hf : r.free with
  | nil =>
    have hnext : r.next = r.slots.length := by rw [Registry.next, hf]; rfl
    exact ⟨1, by simp [hnext], by simp [hnext, hf]⟩
  | cons id free =>
    have hnext : r.next = id := by rw [Registry.next, hf]; rfl
    obtain ⟨hlt, hnone⟩ := h.free id (by simp [hf])
    have hslot : r.slots[id] = none := by
      rw [Registry.get?, List.getElem?_eq_getElem hlt] at hnone
      exact hnone
    have hsame : r.slots.set id none = r.slots := by
      rw [← hslot, List.set_getElem_self]
    exact ⟨0, by simp [hnext, hsame], by simp [hnext, hf]⟩

end FieldCompute.Registry
