import FieldCompute.Proofs.Tree.Ids
import Mathlib.Data.List.Perm.Basic
/-!
# Ids in circulation

Trees come and go in a registry, ids are taken out of circulation, and all of it may be drained, in
any order (`RegistryRun`). The events alone tell which ids were freed and not handed out since
(`freedIds`), which were reserved (`reservedIds`) and which tree an id names (`lastTree?`). The live
ids, the freed and the reserved ones share out the id space: none is in two of them and none is lost
(`RegistryRun.circulation`).
-/

namespace FieldCompute

/-- What a client asks of a registry. -/
inductive RegistryCall where
  | allocateId
  | add (root : Node) (compileOnly : Bool)
  | remove (id : Nat)
  | drain

/-- A call as its client sees it, with the answer. -/
inductive RegistryEvent where
  | reserved (id : Nat)
  | added (tree : FieldTree)
  | removed (id : Nat) (tree : Option FieldTree)
  | drained (trees : List FieldTree)

/-- The ids that were freed and not handed out again, the latest first. -/
def freedIds : List RegistryEvent → List Nat
  | [] => []
  | .reserved id :: es => (freedIds es).erase id
  | .added tree :: es => (freedIds es).erase tree.id
  | .removed id (some _) :: es => id :: freedIds es
  | .removed _ none :: es => freedIds es
  | .drained _ :: _ => []

/-- The ids that were handed out without a tree. -/
def reservedIds : List RegistryEvent → List Nat
  | [] => []
  | .reserved id :: es => id :: reservedIds es
  | .added _ :: es => reservedIds es
  | .removed _ _ :: es => reservedIds es
  | .drained _ :: _ => []

/-- The tree that was last added under an id, unless it was taken out since. -/
def lastTree? (id : Nat) : List RegistryEvent → Option FieldTree
  | [] => none
  | .reserved _ :: es => lastTree? id es
  | .added tree :: es => if id = tree.id then some tree else lastTree? id es
  | .removed i _ :: es => if id = i then none else lastTree? id es
  | .drained _ :: _ => none

namespace Registry

/-- A call with what is seen of it and the registry it leaves. -/
def call (r : Registry) : RegistryCall → RegistryEvent × Registry
  | .allocateId => (.reserved r.allocateId.1, r.allocateId.2)
  | .add root compileOnly => (.added (r.add root compileOnly).1, (r.add root compileOnly).2)
  | .remove id => (.removed id (r.remove id).1, (r.remove id).2)
  | .drain => (.drained r.drain.1, r.drain.2)

variable {r : Registry} {es : List RegistryEvent} {id : Nat}

/-! ## Handing out an id -/

theorem allocateId_fst (r : Registry) : r.allocateId.1 = r.next := by
  unfold allocateId next
  cases r.free <;> rfl

theorem free_allocateId (r : Registry) : r.allocateId.2.free = r.free.tail := by
  unfold allocateId
  cases r.free <;> rfl

theorem get?_allocateId (r : Registry) (i : Nat) : r.allocateId.2.get? i = r.get? i := by
  unfold allocateId
  cases r.free with
  | cons id free => rfl
  | nil =>
    simp only [get?]
    rcases Nat.lt_trichotomy i r.slots.length with hlt | rfl | hgt
    · rw [List.getElem?_append_left hlt]
    · simp
    · rw [List.getElem?_eq_none (Nat.le_of_lt hgt), List.getElem?_eq_none (by simp; omega)]

theorem capacity_add (r : Registry) (root : Node) (compileOnly : Bool) :
    (r.add root compileOnly).2.capacity = r.allocateId.2.capacity := by
  simp [add, capacity]

/-- The next id goes from the free ones, or from behind the id space, into it. -/
theorem Sound.mem_next (h : r.Sound) (id : Nat) :
    (id < r.allocateId.2.capacity ∧ id ∉ r.free.tail) ↔
      id = r.next ∨ (id < r.capacity ∧ id ∉ r.free) := by
  unfold allocateId next capacity
  cases hf : r.free with
  | nil =>
    simp only [List.length_append, List.length_singleton, List.tail_nil, List.not_mem_nil,
      not_false_eq_true, and_true, List.headD_nil]
    omega
  | cons i free =>
    have hi := (h.free i (by simp [hf])).1
    have hnodup := h.nodup
    rw [hf, List.nodup_cons] at hnodup
    simp only [List.tail_cons, List.headD_cons, List.mem_cons, not_or]
    by_cases hid : id = i
    · subst hid
      simp [hi, hnodup.1]
    · simp [hid]

theorem Sound.allocateId (h : r.Sound) : r.allocateId.2.Sound where
  id ht := h.id (get?_allocateId r _ ▸ ht)
  free i hi := by
    rw [free_allocateId] at hi
    obtain ⟨hlt, hn⟩ := h.free i (List.mem_of_mem_tail hi)
    refine ⟨?_, (get?_allocateId r i).trans hn⟩
    unfold Registry.allocateId
    cases r.free <;> simp <;> omega
  nodup := by
    rw [free_allocateId]
    exact h.nodup.sublist (List.tail_sublist _)

/-- The id that is handed out stands at the head of the stack, if it stands there at all. -/
theorem erase_next (r : Registry) : r.free.erase r.next = r.free.tail := by
  unfold next
  cases r.free <;> simp

/-! ## What the events tell -/

/-- A registry is what its events tell: its stack holds the freed ids, its slots the last trees, and
an id of its id space that is neither live nor free was reserved. -/
structure Told (r : Registry) (es : List RegistryEvent) : Prop where
  sound : r.Sound
  free : r.free = freedIds es
  trees (id : Nat) : r.get? id = lastTree? id es
  reserved_iff (id : Nat) :
    id ∈ reservedIds es ↔ r.get? id = none ∧ id < r.capacity ∧ id ∉ r.free
  nodup : (reservedIds es).Nodup

namespace Told

theorem empty : Registry.empty.Told [] where
  sound := sound_empty
  free := rfl
  trees _ := rfl
  reserved_iff id := by simp [reservedIds, Registry.empty, capacity]
  nodup := .nil

theorem next_not_mem_reserved (h : r.Told es) : r.next ∉ reservedIds es := by
  rw [h.reserved_iff]
  rintro ⟨-, hlt, hfree⟩
  unfold next at hlt hfree
  cases hf : r.free with
  | nil => simp [hf, capacity] at hlt
  | cons id free => simp [hf] at hfree

theorem allocateId (h : r.Told es) :
    r.allocateId.2.Told (.reserved r.allocateId.1 :: es) where
  sound := h.sound.allocateId
  free := by rw [free_allocateId, allocateId_fst, freedIds, ← h.free, erase_next]
  trees id := (get?_allocateId r id).trans (h.trees id)
  reserved_iff id := by
    rw [reservedIds, List.mem_cons, allocateId_fst, h.reserved_iff, get?_allocateId,
      free_allocateId, h.sound.mem_next]
    constructor
    · rintro (rfl | ⟨hn, hid⟩)
      · exact ⟨get?_next h.sound, .inl rfl⟩
      · exact ⟨hn, .inr hid⟩
    · rintro ⟨hn, rfl | hid⟩
      · exact .inl rfl
      · exact .inr ⟨hn, hid⟩
  nodup := by
    rw [reservedIds, allocateId_fst]
    exact List.nodup_cons.2 ⟨h.next_not_mem_reserved, h.nodup⟩

theorem add (h : r.Told es) (root : Node) (compileOnly : Bool) :
    (r.add root compileOnly).2.Told (.added (r.add root compileOnly).1 :: es) where
  sound := h.sound.add root compileOnly
  free := by rw [free_add, add_fst, freedIds, ← h.free, erase_next]
  trees id := by rw [get?_add h.sound, add_fst, lastTree?, h.trees]
  reserved_iff id := by
    rw [reservedIds, h.reserved_iff, get?_add h.sound, capacity_add, free_add, h.sound.mem_next]
    by_cases hid : id = r.next
    · -- The id with the new tree was handed out just now, and so not reserved before.
      subst hid
      simpa using (h.reserved_iff r.next).not.1 h.next_not_mem_reserved
    · simp [hid]
  nodup := h.nodup

theorem remove (h : r.Told es) (id : Nat) :
    (r.remove id).2.Told (.removed id (r.remove id).1 :: es) := by
  refine ⟨h.sound.remove id, ?_, fun i => by rw [get?_remove, lastTree?, h.trees], fun i => ?_,
    h.nodup⟩
  · unfold Registry.remove
    cases r.get? id <;> simp [freedIds, h.free]
  · rw [reservedIds, h.reserved_iff, get?_remove]
    unfold Registry.remove
    cases ht : r.get? id with
    | none => by_cases hi : i = id <;> simp [hi, ht]
    | some t =>
      by_cases hi : i = id
      · simp [hi, ht]
      · simp [hi, capacity]

theorem drain (r : Registry) (es : List RegistryEvent) :
    r.drain.2.Told (.drained r.drain.1 :: es) where
  sound := sound_empty
  free := rfl
  trees _ := rfl
  reserved_iff id := by simp [reservedIds, Registry.drain, Registry.empty, capacity]
  nodup := .nil

/-- Whatever is asked of a registry, the events with this one tell what it then is. -/
theorem call (h : r.Told es) (c : RegistryCall) : (r.call c).2.Told ((r.call c).1 :: es) := by
  cases c with
  | allocateId => exact h.allocateId
  | add root compileOnly => exact h.add root compileOnly
  | remove id => exact h.remove id
  | drain => exact .drain r es

theorem mem_live_iff (h : r.Told es) : id ∈ r.live.map (·.id) ↔ r.get? id ≠ none := by
  rw [List.mem_map, Option.ne_none_iff_exists']
  constructor
  · rintro ⟨t, ht, rfl⟩
    exact ⟨t, h.sound.mem_live.1 ht⟩
  · rintro ⟨t, ht⟩
    have hid := h.sound.id ht
    exact ⟨t, h.sound.mem_live.2 (hid ▸ ht), hid⟩

/-- The live ids, the free ones and the reserved ones are the id space, each once. -/
theorem perm (h : r.Told es) :
    (r.live.map (·.id) ++ r.free ++ reservedIds es).Perm (List.range r.capacity) := by
  have hfree : (r.live.map (·.id) ++ r.free).Nodup := by
    refine List.nodup_append'.2 ⟨h.sound.nodup_live, h.sound.nodup, fun id hl hf => ?_⟩
    exact h.mem_live_iff.1 hl (h.sound.free id hf).2
  have hall : (r.live.map (·.id) ++ r.free ++ reservedIds es).Nodup := by
    refine List.nodup_append'.2 ⟨hfree, h.nodup, fun id hid hr => ?_⟩
    obtain ⟨hn, -, hf⟩ := (h.reserved_iff id).1 hr
    rcases List.mem_append.1 hid with hl | hf'
    · exact h.mem_live_iff.1 hl hn
    · exact hf hf'
  -- Neither list has an id twice, so it is enough that they have the same ids.
  rw [List.perm_ext_iff_of_nodup hall List.nodup_range]
  intro id
  rw [List.mem_append, List.mem_append, h.mem_live_iff, h.reserved_iff, List.mem_range]
  constructor
  · rintro ((hl | hf) | ⟨-, hlt, -⟩)
    · obtain ⟨t, ht⟩ := Option.ne_none_iff_exists'.1 hl
      exact lt_of_get? ht
    · exact (h.sound.free id hf).1
    · exact hlt
  · intro hlt
    by_cases hn : r.get? id = none
    · by_cases hf : id ∈ r.free
      · exact .inl (.inr hf)
      · exact .inr ⟨hn, hlt, hf⟩
    · exact .inl (.inl hn)

end Told

end Registry

/-- What an empty registry comes to, with what was seen of it on the way, the latest first. -/
inductive RegistryRun : Registry → List RegistryEvent → Prop
  | start : RegistryRun .empty []
  | step {r : Registry} {es : List RegistryEvent} (c : RegistryCall) :
    RegistryRun r es → RegistryRun (r.call c).2 ((r.call c).1 :: es)

namespace RegistryRun

variable {r : Registry} {es : List RegistryEvent}

theorem told (h : RegistryRun r es) : r.Told es := by
  induction h with
  | start => exact .empty
  | step c _ ih => exact ih.call c

/-- A registry maps ids to trees and keeps a stack of free ids. The id space is shared out among
the live ids, the freed ones and the reserved ones. The next id is the one freed last, or the first
behind the id space; no live tree has it, and it was not reserved. An id names the tree that was
last added under it, and only a live id can be removed. -/
theorem circulation (h : RegistryRun r es) :
    (r.live.map (·.id) ++ r.free ++ reservedIds es).Perm (List.range r.capacity) ∧
    r.free = freedIds es ∧ r.free.Nodup ∧
    (∀ id, r.get? id = lastTree? id es) ∧
    r.allocateId.1 = (freedIds es).headD r.capacity ∧
    (∀ root compileOnly,
      (r.add root compileOnly).1 = ⟨(freedIds es).headD r.capacity, root, compileOnly⟩) ∧
    (freedIds es).headD r.capacity ∉ r.live.map (·.id) ++ reservedIds es ∧
    (∀ id, id ∉ r.live.map (·.id) → r.remove id = (none, r)) ∧
    (∀ id tree, lastTree? id es = some tree → (r.remove id).1 = some tree) ∧
    (∀ tree, tree ∈ r.drain.1 ↔ lastTree? tree.id es = some tree) ∧
    r.drain.2 = .empty := by
  have ht := h.told
  have hnext : (freedIds es).headD r.capacity = r.next := by rw [← ht.free]; rfl
  rw [hnext]
  refine ⟨ht.perm, ht.free, ht.sound.nodup, ht.trees, Registry.allocateId_fst r, Registry.add_fst r,
    ?_, ?_, ?_, ?_, rfl⟩
  · rw [List.mem_append, not_or, ht.mem_live_iff, not_not]
    exact ⟨Registry.get?_next ht.sound, ht.next_not_mem_reserved⟩
  · intro id hid
    rw [ht.mem_live_iff, not_not] at hid
    rw [Registry.remove, hid]
  · intro id tree hid
    rw [Registry.remove, ht.trees, hid]
  · intro tree
    rw [← ht.trees]
    exact ht.sound.mem_live

/-- After a tree was taken out twice, and another after the stack was empty again. -/
theorem circulation_removed_twice : ∃ r es, RegistryRun r es ∧
    es.length = 8 ∧ r.free = [1] ∧ reservedIds es = [2] ∧
    r.allocateId.1 = (freedIds es).headD r.capacity ∧ r.allocateId.1 = 1 := by
  let root : Node := .mk 0 .root [] []
  have h : RegistryRun _ _ := .step (.remove 1) <| .step (.remove 2) <| .step .allocateId <|
    .step (.add root true) <| .step (.remove 0) <| .step (.remove 0) <|
    .step (.add root false) <| .step (.add root false) .start
  obtain ⟨-, -, -, -, hnext, -⟩ := h.circulation
  exact ⟨_, _, h, rfl, by decide, by decide, hnext, by decide⟩

end RegistryRun

end FieldCompute
