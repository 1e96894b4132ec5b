import FieldCompute.Proofs.Program.Admission
import FieldCompute.Proofs.Program.Custody
import FieldCompute.Proofs.Program.Wiring
import FieldCompute.Proofs.Tree.Reserves
/-!
# Rejected trees

A tree is registered before it gets its storage, and taken out again if it gets none. Meanwhile the
registry may have grown and the pool may have given back all that it kept. That is all the trace
that is left (`addTree_rejected`): nothing that somebody owns has changed, none of the tree's nodes
can be found, and the calls that follow get the ids that they would have got
(`Run.rejected_tree_traceless`). What the pool was given by somebody who does not hold it is not
safe from that (`Run.rejected_tree_frees_array`).
-/

namespace FieldCompute

open Routine

/-- The call, which answers the id of a new tree. -/
def TreeCall.op : TreeCall → Op (Option Nat)
  | add root compileOnly => some <$> Program.addTree root compileOnly
  | destroy tree => do
    Program.destroyTree tree
    return none

namespace Program

variable {p q : Program} {root : Node} {compileOnly : Bool} {x : NodeId}

/-! ## What is left of a rejected tree -/

/-- Only the pool and the registry differ, and the pool has given back at most what it kept. -/
theorem addTree_rejected (hp : p.Hosted) {e : Failure}
    (h : (addTree root compileOnly).on p = (.error e, q)) :
    q = { p with
      trees := ((p.trees.add root compileOnly).2.remove (p.trees.add root compileOnly).1.id).2
    }.withPool q.pool ∧ Pool.Spares p.pool.cachedIds p.pool q.pool := by
  have hcases := addTree_outcome hp root compileOnly
  rw [h] at hcases
  cases hcases with
  | rejected hpool =>
    refine ⟨rfl, ?_⟩
    rcases hpool with rfl | ⟨size, e, hr⟩
    · exact Std.Refl.refl p.pool
    · exact Pool.allocate_spares hr

/-! ## Nodes that no live tree has -/

theorem Has.mem_nodeIds {t : FieldTree} {place : Place} (h : p.Has t place) :
    place.id ∈ p.nodeIds := by
  obtain ⟨n, hn, hplace⟩ := Node.mem_places_iff.1 h.place
  rw [Node.id_of_place? hplace]
  exact List.mem_flatMap.2 ⟨t, h.live, List.mem_map.2 ⟨n, hn, rfl⟩⟩

/-- There is no accessor of such a node, not even one that was made before. -/
theorem Wired.accessor_absent (h : p.Wired) (hp : p.Hosted) (hx : x ∉ p.nodeIds) (a : Accessor) :
    (accessor a x).on p = (.error (.error (.notAField x)), p) := by
  have hcases := h.accessed hp a x
  generalize (accessor a x).on p = r at hcases ⊢
  cases hcases with
  | unknown _ => rfl
  | served _ _ hhas hid _ _ => exact absurd (hid ▸ hhas.mem_nodeIds) hx

theorem Wired.readField_absent (h : p.Wired) (hp : p.Hosted) (hx : x ∉ p.nodeIds) (thread : Thread)
    (indices : List Int) :
    (readField thread x indices).on p = (.error (.error (.notAField x)), p) := by
  rw [readField, on_bind_of_error (h.accessor_absent hp hx .reader)]

theorem Linked.binding?_absent (h : p.Linked) (hx : x ∉ p.nodeIds) :
    p.engine.binding? x = none := by
  cases hb : p.engine.binding? x with
  | none => rfl
  | some b =>
    obtain ⟨t, s, hst, -, -, hid⟩ := h.binding?_stores hb
    exact absurd (hid ▸ hst.has.mem_nodeIds) hx

/-! ## Later calls -/

/-- What calls answer, one after the other. -/
def answers (p : Program) : List TreeCall → List (Except Failure (Option Nat))
  | [] => []
  | c :: cs => (c.op.on p).1 :: answers (c.op.on p).2 cs

/-- Whether or not its storage can be taken back, a tree is gone. -/
theorem destroyTree_gone (hp : p.Hosted) (tree : Nat) :
    ((destroyTree tree).on p).2.Hosted ∧
      ((destroyTree tree).on p).2.trees = (p.trees.remove tree).2 := by
  rw [destroyTree_on]
  cases h : p.trees.get? tree with
  | none => exact ⟨hp, by rw [Registry.remove, h]⟩
  | some t =>
    simp only [hp.refusal?]
    split <;> exact ⟨hp, rfl⟩

/-- What a call answers and makes of the registry depends on no more than whether it succeeds. -/
theorem op_effect (hp : p.Hosted) (c : TreeCall) :
    (c.op.on p).2.Hosted ∧
      ((c.op.on p).1.toOption, (c.op.on p).2.trees) = p.trees.effect c (c.op.on p).1.isOk := by
  cases c with
  | add root compileOnly =>
    have hcases := addTree_outcome hp root compileOnly
    rw [TreeCall.op, on_map]
    generalize (addTree root compileOnly).on p = r at hcases ⊢
    cases hcases with
    | layout => exact ⟨hp, by rw [Registry.add_fst]; rfl⟩
    | kept => exact ⟨hp, by rw [Registry.add_fst]; rfl⟩
    | rejected => exact ⟨hp, by rw [Registry.add_fst]; rfl⟩
  | destroy tree =>
    obtain ⟨hq, htrees⟩ := destroyTree_gone hp tree
    rw [TreeCall.op, on_bind]
    generalize (destroyTree tree).on p = r at hq htrees ⊢
    obtain ⟨e | _, q⟩ := r
    · exact ⟨hq, Prod.ext rfl htrees⟩
    · exact ⟨hq, Prod.ext rfl htrees⟩

theorem answers_eq (hp : p.Hosted) (calls : List TreeCall) :
    (p.answers calls).map Except.toOption =
      p.trees.answers (calls.zip ((p.answers calls).map Except.isOk)) := by
  induction calls generalizing p with
  | nil => rfl
  | cons c calls ih =>
    obtain ⟨hq, heffect⟩ := op_effect hp c
    simp only [answers, List.map_cons, List.zip_cons_cons, Registry.answers]
    rw [← heffect, ih hq]

end Program

namespace Run

variable {ok : World → Command → Prop} {w : World} {cs : List Command}

/-- A tree that is rejected, for whatever reason, leaves no trace that matters. Only the registry
and the pool differ. The same trees are live under the same ids, and their fields have the same
offsets. No bytes have changed but those of allocations on the free lists, so none that belong to a
tree, an array, a texture or a caller, as long as nobody gave to the pool what was not theirs. The
nodes of the tree, if no live tree has them, have no accessors and no storage. And whatever trees
are added and destroyed later, if the calls end as they would have ended, then they answer the same
ids. -/
theorem rejected_tree_traceless {root : Node} {compileOnly : Bool} {e : Failure} {q : Program}
    (r : Run ok w cs) (hids : ∀ x ∈ root.ids, x ∉ w.program.nodeIds)
    (h : (Program.addTree root compileOnly).on w.program = (.error e, q)) :
    q = { w.program with trees := q.trees }.withPool q.pool ∧
    q.trees.live = w.program.trees.live ∧
    (∀ id, q.trees.get? id = w.program.trees.get? id) ∧
    (∀ id x, q.engine.fieldOffset? id x = w.program.engine.fieldOffset? id x) ∧
    (∀ id ∉ w.program.pool.cachedIds,
      q.device.memory.find? id = w.program.device.memory.find? id) ∧
    ((∀ w c, ok w c → w.Trusted c) →
      Device.Keeps (w.program.owned ++ w.held) w.program.device q.device) ∧
    (∀ x ∈ root.ids, q.engine.binding? x = none ∧
      (∀ a, (Program.accessor a x).on q = (.error (.error (.notAField x)), q)) ∧
      ∀ thread indices,
        (Program.readField thread x indices).on q = (.error (.error (.notAField x)), q)) ∧
    ∀ calls, (q.answers calls).map Except.isOk = (w.program.answers calls).map Except.isOk →
      (q.answers calls).map Except.toOption = (w.program.answers calls).map Except.toOption := by
  obtain ⟨hq, hspares⟩ := Program.addTree_rejected r.hosted h
  have hsound := r.linked.registry
  obtain ⟨k, hk⟩ := hsound.reserves_add_remove root compileOnly
  have htrees : q.trees = ((w.program.trees.add root compileOnly).2.remove
    (w.program.trees.add root compileOnly).1.id).2 := by rw [hq]; rfl
  rw [← htrees] at hk
  -- The rejected tree is a command like any other, so what holds after every command holds now.
  have rejected : Run (fun _ _ => True) (w.step (.addTree root compileOnly)) _ :=
    (r.mono fun _ _ _ => trivial).step (.addTree root compileOnly) trivial
  have hstep : (w.step (.addTree root compileOnly)).program = q := by
    rw [World.step_of_quietly rfl rfl, h]
  obtain ⟨hhosted, hwired⟩ := rejected.wired
  have hlinked := rejected.linked
  rw [hstep] at hhosted hwired hlinked
  have hids' : ∀ x ∈ root.ids, x ∉ q.nodeIds := by
    rw [Program.nodeIds, hk.live]
    exact hids
  have hstorage : q.engine.storage = w.program.engine.storage := by rw [hq]; rfl
  refine ⟨?_, hk.live, hk.get?, ?_, hspares.bytes, ?_, ?_, ?_⟩
  · rw [← htrees] at hq
    exact hq
  · intro id x
    rw [Engine.fieldOffset?, Engine.fieldOffset?, hstorage]
  · intro hok
    exact (r.entrusted hok).custody.keeps hspares
  · intro x hx
    exact ⟨hlinked.binding?_absent (hids' x hx), hwired.accessor_absent hhosted (hids' x hx),
      hwired.readField_absent hhosted (hids' x hx)⟩
  · intro calls hends
    rw [Program.answers_eq hhosted, Program.answers_eq r.hosted, hends, hk.answers hsound]

/-- The host cannot reserve 2 TiB. The pool gives back what it kept and the id space grows, but the
tree that is live keeps its bytes, and later trees get the ids 1 and 2 and, once it is free, 0. -/
theorem rejected_tree_traceless_drained : ∃ (w : World) (cs : List Command) (root : Node)
    (q : Program) (calls : List TreeCall), Run World.Trusted w cs ∧
    (Program.addTree root false).on w.program = (.error (.device (.hostAllocation (2 ^ 41))), q) ∧
    (w.program.pool.cachedIds, q.pool.cachedIds) = ([1], []) ∧
    (w.program.trees.capacity, q.trees.capacity) = (1, 2) ∧
    Device.Keeps (w.program.owned ++ w.held) w.program.device q.device ∧
    (q.answers calls).map Except.toOption =
      [some (some 1), none, some (some 2), some none, some (some 0)] := by
  let tree (id : Nat) (shape : List Nat) : Node :=
    .mk id .root [] [.mk (id + 1) (.dense shape) shape [.mk (id + 2) (.place "x" .int8) shape []]]
  let calls : List TreeCall := [.add (tree 6 [4]) false, .add (tree 9 [2 ^ 42]) false,
    .add (tree 9 [5]) true, .destroy 0, .add (tree 12 [6]) false]
  have live : Run World.Trusted _ _ := Run.fresh.step (.addTree (tree 0 [3]) false) trivial
  have array := live.step (.createNdarray (.scalar .int32) [3] .aos true) trivial
  have cached := array.step (.deleteNdarray 0) trivial
  have fails {w : World} {cs : List Command} (_ : Run World.Trusted w cs) (root : Node)
      (e : Failure) (h : ((Program.addTree root false).on w.program).1 = .error e) :
      (Program.addTree root false).on w.program =
        (.error e, ((Program.addTree root false).on w.program).2) := Prod.ext h rfl
  have huge := fails cached (tree 3 [2 ^ 41]) (.device (.hostAllocation (2 ^ 41)))
    (by decide)
  obtain ⟨-, -, -, -, -, hkeeps, -, hcalls⟩ :=
    cached.rejected_tree_traceless (by decide) huge
  exact ⟨_, _, _, _, calls, cached, huge, by decide, by decide +kernel,
    hkeeps fun _ _ => id, (hcalls calls (by decide)).trans (by decide +kernel)⟩

/-- A caller gives the memory of a live array to the pool. A tree of 2 MiB finds no room under the
limit of 1 MiB, although the pool gives back what it keeps, and then the array cannot be read. -/
theorem rejected_tree_frees_array :
    let released := (oneMebibyte.step (.createNdarray (.scalar .int32) [1] .aos true)).step
      (.poolRelease ⟨0, 4⟩)
    let root : Node :=
      .mk 0 .root [] [.mk 1 (.dense [2 ^ 21]) [2 ^ 21] [.mk 2 (.place "x" .int8) [2 ^ 21] []]]
    let rejected := (Program.addTree root false).on released.program
    (∃ cs, Run (fun _ _ => True) released cs) ∧
    (∀ x ∈ root.ids, x ∉ released.program.nodeIds) ∧
    rejected.1 = .error (.device (.outOfMemory (2 ^ 21) 4 (2 ^ 20))) ∧
    ((Program.readNdarray 0).on released.program).1 = .ok [0] ∧
    ((Program.readNdarray 0).on rejected.2).1 =
      .error (.device (.unknownAllocation "CPU" 0)) := by
  intro released root rejected
  have hfresh : Run (fun _ _ => True) oneMebibyte [] := .start (c := { deviceMemoryMb := 1 }) rfl
  refine ⟨⟨_, (hfresh.step _ trivial).step _ trivial⟩, by decide, ?_, ?_, ?_⟩
  all_goals decide +kernel

end Run

end FieldCompute
