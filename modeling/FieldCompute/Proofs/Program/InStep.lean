import FieldCompute.Proofs.Device.FreeLists
import FieldCompute.Proofs.Program.Linked
import FieldCompute.Proofs.Tree.Layout
/-!
# Trees and storage in step

The registry and the engine keep a table each under the same ids, which are used again. They are
linked in every run, whatever callers do on the device and the pool (`Run.linked`), and so is the
size: the storage of a tree is as large as its packing (`Run.measured`). So what the engine finds
under an id belongs to the tree that is live under it.
-/

namespace FieldCompute

open Routine Program Relation

namespace Pool

variable {p p' : Pool} {held held' : List Allocation}

theorem Sorted.move (h : p.Sorted) (hm : Move p held p' held') : p'.Sorted := by
  cases hm with
  | @allocated _ _ size zero a ha =>
    have hs := (h.allocate size zero).1
    rwa [ha] at hs
  | @refused _ _ size zero e ha =>
    have hs := (h.allocate size zero).1
    rwa [ha] at hs
  | imaged ha => exact h.beneath ((fromDevice_beneath _).ends ha)
  | @released _ _ a _ hr =>
    have hs := h.release a
    rwa [hr] at hs
  | freed _ hr => exact h.beneath ((onDevice_beneath _).ends hr)

end Pool

namespace Program

/-- Every free list is of one size, and the storage of every tree is as large as its packing. -/
structure Measured (p : Program) : Prop where
  pool : p.pool.Sorted
  storage {id : Nat} {s : Storage} : p.engine.storage.find? id = some s →
    s.allocation.size = s.packing.size

namespace Measured

variable {p p' : Program} {w w' : World}

/-- No tree got storage. -/
theorem of_pool (h : p.Measured) (hp : p'.pool.Sorted)
    (hs : ∀ {id s}, p'.engine.storage.find? id = some s → p.engine.storage.find? id = some s) :
    p'.Measured := ⟨hp, fun hf => h.storage (hs hf)⟩

theorem of_engine (h : p.Measured) (hp : p'.pool = p.pool)
    (hs : p'.engine.storage = p.engine.storage) : p'.Measured :=
  h.of_pool (hp ▸ h.pool) fun hf => hs ▸ hf

theorem calm (hm : Calm w w') (h : w.program.Measured) : w'.program.Measured := by
  cases hm with
  | quiet hq =>
    exact h.of_engine (congrArg (·.engine.pool) hq.backend) (congrArg (·.engine.storage) hq.backend)
  | kernel k hid hc hq hn =>
    exact h.of_engine (congrArg (·.engine.pool) hq.backend) (congrArg (·.engine.storage) hq.backend)
  | pool pool hm => exact h.of_pool (h.pool.move hm) id
  | ndarray a size zero pool hid hatt hb ha =>
    have hs := (h.pool.allocate size zero).1
    rw [ha] at hs
    exact h.of_pool hs id
  | texture t pool ha => exact h.of_pool (h.pool.beneath ((Pool.fromDevice_beneath _).ends ha)) id
  | @treeGone p held id t ht =>
    refine h.of_pool h.pool ?_
    intro j s hf
    change (if t.compileOnly then p.engine.storage else p.engine.storage.erase id).find? j = _ at hf
    split at hf
    · exact hf
    · exact Table.find?_of_erase hf
  | _ => exact h.of_engine rfl rfl

theorem closing (hm : Closing w w') (h : w.program.Measured) : w'.program.Measured := by
  cases hm with
  | emptied => exact h.of_engine rfl rfl
  | storageGone id s hf hs => exact h.of_pool h.pool Table.find?_of_erase
  | allStorageGone hf => exact h.of_pool h.pool fun hf => by cases hf
  | detached hf hs => exact h.of_engine rfl rfl
  | poolTerminated hf => exact h.of_pool (.terminate _) id

/-- A raw command puts nothing on the wrong free list. -/
theorem raw {c : Command} (hr : c.IsRaw) (h : w.program.Measured) :
    (w.step c).program.Measured := by
  have through {pool : Pool} (hp : (w.step c).program = w.program.withPool pool)
      (hs : pool.Sorted) : (w.step c).program.Measured := by
    rw [hp]
    exact h.of_pool hs id
  have beneath {pool : Pool} (hp : (w.step c).program = w.program.withPool pool)
      (hb : w.program.pool.Beneath pool) : (w.step c).program.Measured :=
    through hp (h.pool.beneath hb)
  cases c with
  | deviceAllocate size =>
    exact beneath (World.step_onPool_handing rfl) (Pool.fromDevice_beneath _ _)
  | deviceImage i => exact beneath (World.step_onPool_handing rfl) (Pool.fromDevice_beneath _ _)
  | deviceFree a => exact beneath (World.step_onPool rfl) (Pool.onDevice_beneath _ _)
  | deviceWrite p bytes => exact beneath (World.step_onPool rfl) (Pool.onDevice_beneath _ _)
  | deviceFill a pattern => exact beneath (World.step_onPool rfl) (Pool.onDevice_beneath _ _)
  | poolAllocate size zero =>
    exact through (World.step_onPool_handing rfl) (h.pool.allocate size zero).1
  | poolRelease a => exact through (World.step_onPool rfl) (h.pool.release a)
  | poolTerminate => exact through (World.step_onPool rfl) (.terminate _)
  | _ => exact hr.elim

theorem move {ok : World → Command → Prop} (hm : Move ok w w') (h : w.program.Measured) :
    w'.program.Measured := by
  cases hm with
  | calm hm => exact h.calm hm
  | finished hm _ => exact ending_keeps (I := fun w => w.program.Measured) calm closing hm h
  | @tree p held root s pool hatt hpack ha =>
    have hs := h.pool.allocate s.packing.size true
    rw [ha] at hs
    refine ⟨hs.1, ?_⟩
    intro id s' hf
    change (p.engine.storage.insert _ s).find? id = some s' at hf
    rw [Table.find?_insert] at hf
    split at hf
    · cases hf
      exact hs.2 _ rfl
    · exact h.storage hf
  | rewritten d hd => exact h.of_pool (h.pool.of_free rfl) id
  | raw c hr hc => exact h.raw hr

end Measured

namespace Linked

variable {p : Program} {id : Nat} {x : NodeId}

theorem exists_storage_iff (h : p.Linked) : (∃ s, p.engine.storage.find? id = some s) ↔
    ∃ t ∈ p.trees.live, t.id = id ∧ t.compileOnly = false := by
  constructor
  · rintro ⟨s, hs⟩
    obtain ⟨t, ht, hc, -⟩ := h.storage hs
    obtain rfl := h.registry.id ht
    exact ⟨t, h.registry.mem_live.2 ht, rfl, hc⟩
  · rintro ⟨t, ht, rfl, hc⟩
    exact h.tree (h.registry.mem_live.1 ht) hc

/-- A place is found in the storage of the tree that has it. -/
theorem fieldOffset?_isSome (h : p.Linked) : (p.engine.fieldOffset? id x).isSome = true ↔
    ∃ t ∈ p.trees.live, t.id = id ∧ t.compileOnly = false ∧
      ∃ place ∈ t.root.places, place.id = x := by
  have hplaces {root : Node} {packing : Packing} (hpack : Packing.ofTree? root = some packing) :
      (packing.field? x).isSome = true ↔ ∃ place ∈ root.places, place.id = x := by
    rw [← (Packing.lays_ofTree? hpack).places, Packing.field?, List.find?_isSome]
    simp only [List.mem_map, exists_exists_and_eq_and, decide_eq_true_eq]
  rw [Engine.fieldOffset?, Option.isSome_map, Option.isSome_bind]
  constructor
  · intro hx
    obtain ⟨s, hs, hfield⟩ := (Option.any_eq_true ..).1 hx
    obtain ⟨t, ht, hc, hpack⟩ := h.storage hs
    obtain rfl := h.registry.id ht
    exact ⟨t, h.registry.mem_live.2 ht, rfl, hc, (hplaces hpack).1 hfield⟩
  · rintro ⟨t, ht, rfl, hc, hx⟩
    have ht := h.registry.mem_live.1 ht
    obtain ⟨s, hs⟩ := h.tree ht hc
    obtain ⟨u, hu, -, hpack⟩ := h.storage hs
    cases ht.symm.trans hu
    exact (Option.any_eq_true ..).2 ⟨s, hs, (hplaces hpack).2 hx⟩

end Linked

end Program

namespace Run

variable {ok : World → Command → Prop} {w : World} {cs : List Command}

theorem measured (r : Run ok w cs) : w.program.Measured := by
  refine (r.invariant (I := fun w => w.program.Measured) ?_ Measured.move).2.2
  intro thread c reservable p hp
  cases hp
  exact ⟨.of_empty rfl, fun hf => by cases hf⟩

/-- Exactly the live trees that are not compile-only have storage, each under its id, packed as the
tree is and as large as its packing. So storage is found under the ids of these trees, and an offset
in it for the places of that very tree. -/
theorem trees_and_storage_in_step (r : Run ok w cs) :
    (w.program.trees.live.map (·.id)).Nodup ∧ w.program.engine.storage.keys.Nodup ∧
    (∀ id, id ∈ w.program.engine.storage.keys ↔
      ∃ t ∈ w.program.trees.live, t.id = id ∧ t.compileOnly = false) ∧
    (∀ t ∈ w.program.trees.live, t.compileOnly = false →
      ∃ s, w.program.engine.storage.find? t.id = some s ∧
        Packing.ofTree? t.root = some s.packing ∧ s.allocation.size = s.packing.size) ∧
    (∀ id, (w.program.engine.treePointer? id).isSome = true ↔
      ∃ t ∈ w.program.trees.live, t.id = id ∧ t.compileOnly = false) ∧
    (∀ id x, (w.program.engine.fieldOffset? id x).isSome = true ↔
      ∃ t ∈ w.program.trees.live, t.id = id ∧ t.compileOnly = false ∧
        ∃ place ∈ t.root.places, place.id = x) := by
  have h := r.linked
  refine ⟨h.registry.nodup_live, h.keys, ?_, ?_, ?_, ?_⟩
  · intro id
    rw [Table.mem_keys_iff, h.exists_storage_iff]
  · intro t ht hc
    obtain ⟨s, hs⟩ := h.tree (h.registry.mem_live.1 ht) hc
    obtain ⟨u, hu, -, hpack⟩ := h.storage hs
    cases (h.registry.mem_live.1 ht).symm.trans hu
    exact ⟨s, hs, hpack, r.measured.storage hs⟩
  · intro id
    rw [Engine.treePointer?, Option.isSome_map, Option.isSome_iff_exists, h.exists_storage_iff]
  · intro id x
    exact h.fieldOffset?_isSome

/-- A tree is destroyed, one that is too large gets no storage, and the next one gets the id: under
that its place is found, and that of the tree which is gone is not. -/
theorem trees_and_storage_in_step_reused : ∃ w cs, Run (fun _ _ => True) w cs ∧
    w.program.trees.live.map (fun t => (t.id, t.root.id, t.compileOnly)) =
      [(0, 7, false), (1, 2, true)] ∧
    w.program.engine.storage.keys = [0] ∧
    (w.program.engine.fieldOffset? 0 8).isSome = true ∧
    ¬(w.program.engine.fieldOffset? 0 1).isSome = true := by
  let huge := [2 ^ 32, 2 ^ 32]
  have tree : Run (fun _ _ => True) _ _ := Run.fresh.step
    (.addTree (.mk 0 .root [] [.mk 1 (.place "x" .int32) [] []]) false) trivial
  have layout := tree.step
    (.addTree (.mk 2 .root [] [.mk 3 (.place "y" .int8) [] []]) true) trivial
  have gone := layout.step (.destroyTree 0) trivial
  have refused := gone.step (.addTree (.mk 4 .root []
    [.mk 5 (.dense huge) huge [.mk 6 (.place "z" .int8) huge []]]) false) trivial
  have again := refused.step
    (.addTree (.mk 7 .root [] [.mk 8 (.place "u" .float64) [] []]) false) trivial
  obtain ⟨-, -, -, -, -, hoffset⟩ := again.trees_and_storage_in_step
  refine ⟨_, _, again, by decide, by decide +kernel, (hoffset 0 8).2 ?_,
    (hoffset 0 1).not.2 ?_⟩
  · decide
  · decide

end Run

end FieldCompute
