import FieldCompute.Proofs.Outcome
import FieldCompute.Proofs.Tree.Layout
/-!
# How trees grow

A tree that grew from a root one node at a time (`Node.Grown`) has every id once, since each node
came under an id that was new (`Grown.nodup_ids`). The fields of its packing are then told apart by
their ids, and no two elements of its places share a byte (`Grown.elements_apart`).
-/

namespace FieldCompute

namespace Node

/-! ## The ids of a tree -/

/-- The ids of all nodes, depth first. -/
def ids (t : Node) : List NodeId := t.nodes.map id

mutual

theorem map_outline (depth : Nat) : ∀ t : Node, (t.outline depth).map (·.2) = t.nodes
  | mk i k s cs => by
    simp only [nodes, outline, List.map_cons]
    rw [map_outlineAll, map_outlineAll]

theorem map_outlineAll (depth : Nat) :
    ∀ cs : List Node, (outlineAll depth cs).map (·.2) = cs.flatMap nodes
  | [] => rfl
  | c :: cs => by
    simp only [outlineAll, List.map_append, List.flatMap_cons]
    rw [map_outline, map_outlineAll]

end

theorem nodes_mk (i : NodeId) (k : NodeKind) (s : List Nat) (cs : List Node) :
    (mk i k s cs).nodes = mk i k s cs :: cs.flatMap nodes := by
  rw [nodes, outline, List.map_cons, map_outlineAll]

theorem ids_mk (i : NodeId) (k : NodeKind) (s : List Nat) (cs : List Node) :
    (mk i k s cs).ids = i :: cs.flatMap ids := by
  have hids : ids = fun c => c.nodes.map id := rfl
  simp [hids, nodes_mk, id, List.map_flatMap]

theorem ids_leaf (i : NodeId) (k : NodeKind) (s : List Nat) : (mk i k s []).ids = [i] := ids_mk ..

mutual

/-- The new child comes in once behind every node that has the id of its parent. -/
theorem ids_attach_perm (parent : NodeId) {child : Node} (h : child.ids = [child.id]) :
    ∀ t : Node, (attach parent child t).ids.Perm
      (List.replicate (t.ids.count parent) child.id ++ t.ids)
  | mk i k s cs => by
    have hcs := ids_attachAll_perm parent h cs
    rw [attach, ids_mk, ids_mk, List.count_cons]
    by_cases hi : i = parent
    · subst hi
      simp only [if_true, List.flatMap_append, List.flatMap_singleton, h, beq_self_eq_true,
        List.replicate_succ, List.cons_append]
      exact ((List.perm_append_singleton _ _).trans (hcs.cons _)).cons _ |>.trans
        ((List.Perm.swap ..).trans (List.perm_middle.symm.cons _))
    · simp only [if_neg hi, beq_iff_eq, Nat.add_zero]
      exact (hcs.cons i).trans List.perm_middle.symm

theorem ids_attachAll_perm (parent : NodeId) {child : Node} (h : child.ids = [child.id]) :
    ∀ cs : List Node, ((attachAll parent child cs).flatMap ids).Perm
      (List.replicate ((cs.flatMap ids).count parent) child.id ++ cs.flatMap ids)
  | [] => .refl _
  | c :: cs => by
    have hc := ids_attach_perm parent h c
    have hcs := ids_attachAll_perm parent h cs
    simp only [attachAll, List.flatMap_cons, List.count_append, List.replicate_add]
    refine (hc.append hcs).trans ?_
    simp only [List.append_assoc]
    refine List.Perm.append_left _ ?_
    rw [← List.append_assoc, ← List.append_assoc]
    exact List.perm_append_comm.append_right _

end

/-! ## Places among nodes -/

theorem id_of_place? {n : Node} {place : Place} (h : n.place? = some place) :
    place.id = n.id := by
  unfold place? at h
  split at h <;> cases h
  rfl

theorem mem_places_iff {root : Node} {place : Place} :
    place ∈ root.places ↔ ∃ n ∈ root.nodes, n.place? = some place := by
  simp [places]

/-- The ids of the places stand among those of the nodes, in the same order. -/
theorem placeIds_sublist (root : Node) : (root.places.map (·.id)).Sublist root.ids := by
  unfold places ids
  induction root.nodes with
  | nil => exact .slnil
  | cons n nodes ih =>
    rw [List.filterMap_cons, List.map_cons]
    cases hp : n.place? with
    | none => exact ih.cons _
    | some place =>
      rw [List.map_cons, id_of_place? hp]
      exact ih.cons_cons _

/-! ## Growing -/

/-- A new node has no children yet. -/
theorem sprouted_leaf {p child : Node} {sprout : Sprout} {fresh : NodeId}
    (h : sprouted p sprout fresh = .ok child) : ∃ k s, child = mk fresh k s [] := by
  unfold sprouted at h
  split at h
  · cases h
  · split at h
    · split at h
      · cases h
      · cases h; exact ⟨_, _, rfl⟩
    · split at h
      · cases h; exact ⟨_, _, rfl⟩
      · cases h

/-- A tree grows by one node at most, which has the fresh id. -/
theorem grow_cases {t t' : Node} {parent fresh : NodeId} {sprout : Sprout}
    (h : t.grow parent sprout fresh = .ok t') :
    t' = t ∨ ∃ k s, t' = attach parent (mk fresh k s []) t := by
  unfold grow at h
  split at h
  · cases h; exact .inl rfl
  · obtain ⟨child, hchild, h⟩ := Outcome.bind_eq_ok_iff.1 h
    cases h
    obtain ⟨k, s, rfl⟩ := sprouted_leaf hchild
    exact .inr ⟨k, s, rfl⟩

/-- The tree started as a root and grew by one node at a time, each under an id that no node of it
had. -/
inductive Grown : Node → Prop where
  | root (id : NodeId) : Grown (root id)
  | grow {t t' : Node} {parent fresh : NodeId} {sprout : Sprout} (ht : Grown t)
      (hfresh : fresh ∉ t.ids) (h : t.grow parent sprout fresh = .ok t') : Grown t'

namespace Grown

variable {t t' root : Node} {p : Packing}

/-- What a tree has after growing: the nodes it had and the new one. -/
theorem mem_ids_grow {parent fresh i : NodeId} {sprout : Sprout}
    (h : t.grow parent sprout fresh = .ok t') (hi : i ∈ t'.ids) : i ∈ t.ids ∨ i = fresh := by
  rcases grow_cases h with rfl | ⟨k, s, rfl⟩
  · exact .inl hi
  · rw [(ids_attach_perm parent (ids_leaf fresh k s) t).mem_iff] at hi
    rcases List.mem_append.1 hi with hi | hi
    · exact .inr (List.eq_of_mem_replicate hi)
    · exact .inl hi

/-- Every id stands in the tree once. -/
theorem nodup_ids (h : t.Grown) : t.ids.Nodup := by
  induction h with
  | root id => exact List.nodup_singleton _
  | @grow t t' parent fresh sprout _ hfresh h ih =>
    rcases grow_cases h with rfl | ⟨k, s, rfl⟩
    · exact ih
    · rw [(ids_attach_perm parent (ids_leaf fresh k s) t).nodup_iff]
      -- The parent is in the tree once at most, so the new id comes in once at most.
      have hcount := List.nodup_iff_count_le_one.1 ih parent
      refine List.nodup_append.2 ⟨List.nodup_replicate.2 hcount, ih, ?_⟩
      rintro i hi j hj rfl
      obtain rfl := List.eq_of_mem_replicate hi
      exact hfresh hj

theorem nodup_placeIds (h : t.Grown) : (t.places.map (·.id)).Nodup :=
  h.nodup_ids.sublist (placeIds_sublist t)

/-- Ids that are counted up are fresh. -/
theorem growAll {calls : List (NodeId × Sprout)} {next : NodeId} (h : t.Grown)
    (hnext : ∀ i ∈ t.ids, i < next) (hg : (t.growAll next calls).1 = .ok t') : t'.Grown := by
  induction calls generalizing t next with
  | nil => cases hg; exact h
  | cons call calls ih =>
    obtain ⟨parent, sprout⟩ := call
    rw [Node.growAll] at hg
    cases hstep : t.grow parent sprout next with
    | error e => simp [hstep] at hg
    | ok u =>
      rw [hstep] at hg
      have hfresh : next ∉ t.ids := fun hi => Nat.lt_irrefl _ (hnext _ hi)
      refine ih (h.grow hfresh hstep) ?_ hg
      intro i hi
      rcases mem_ids_grow hstep hi with hi | rfl
      · exact Nat.lt_succ_of_lt (hnext i hi)
      · exact Nat.lt_succ_self i

/-- A tree that is built from a plan grew that way. -/
theorem build {below : List TreePlan} {next : NodeId} (h : (TreePlan.build below next).1 = .ok t) :
    t.Grown := by
  refine growAll (.root next) ?_ h
  intro i hi
  obtain rfl : i = next := List.mem_singleton.1 hi
  exact Nat.lt_succ_self i

/-- In the packing of a tree every place has its field. An element has no offset exactly if the
index tuple has the wrong length or an index that is negative or not below its extent. Offsets are
computed within the range of sizes; an element is aligned, inside the storage, and apart from the
elements with other indices and from those of the other places. -/
theorem elements_apart (h : root.Grown) (hp : Packing.ofTree? root = some p) :
    (∀ x ∈ root.places, ∃ f, p.field? x.id = some f ∧ f.place = x ∧ ∀ is : List Int,
      (f.elementOffset? is = none ↔ is.length ≠ x.shape.length ∨
        ∃ axis ∈ is.zip x.shape, axis.1 < 0 ∨ (axis.2 : Int) ≤ axis.1) ∧
      f.checkedOffset is = some (f.elementOffset? is) ∧
      ∀ o, f.elementOffset? is = some o →
        x.scalar.bytes ∣ o ∧ o + x.scalar.bytes ≤ p.size) ∧
    ∀ x ∈ root.places, ∀ y ∈ root.places, ∀ is js : List Int, (x, is) ≠ (y, js) →
      ∀ f g, p.field? x.id = some f → p.field? y.id = some g →
        ∀ o q, f.elementOffset? is = some o → g.elementOffset? js = some q →
          o + x.scalar.bytes ≤ q ∨ q + y.scalar.bytes ≤ o := by
  have hlays := Packing.lays_ofTree? hp
  have hfield {x : Place} (hx : x ∈ root.places) := hlays.field?_of_mem h.nodup_placeIds hx
  constructor
  · intro x hx
    obtain ⟨f, hf, hfind, rfl⟩ := hfield hx
    refine ⟨f, hfind, rfl, ?_⟩
    intro is
    refine ⟨f.elementOffset?_eq_none_iff, (hlays.fits f hf).checkedOffset_eq is, ?_⟩
    intro o ho
    exact ⟨f.dvd_elementOffset? (hlays.aligned f hf) ho, hlays.inside hf ho⟩
  · intro x hx y hy is js hne f g hfx hgy o q ho hq
    obtain ⟨f', hf, hfind, rfl⟩ := hfield hx
    obtain rfl : f' = f := Option.some.inj (hfind.symm.trans hfx)
    obtain ⟨g', hg, hgfind, rfl⟩ := hfield hy
    obtain rfl : g' = g := Option.some.inj (hgfind.symm.trans hgy)
    by_cases hfg : f' = g'
    · subst hfg
      exact f'.elementOffset?_apart ho hq (fun his => hne (by rw [his]))
    · exact hlays.fields_apart hf hg hfg ho hq

/-- A field of one byte in front of `2 × 3` doubles: these start at their next multiple, and the first
and the last of them are apart. -/
theorem elements_apart_padded :
    let x : Place := ⟨3, "x", .float64, [2, 3]⟩
    let root := mk 0 .root [] [mk 1 (.place "flag" .int8) [] [],
      mk 2 (.dense [2, 3]) [2, 3] [mk 3 (.place "x" .float64) [2, 3] []]]
    let p : Packing := ⟨[⟨⟨1, "flag", .int8, []⟩, 0⟩, ⟨x, 8⟩], 56⟩
    root.Grown ∧ Packing.ofTree? root = some p ∧
      (∃ f, p.field? 3 = some f ∧ f.elementOffset? [0, 0] = some 8 ∧
        f.elementOffset? [1, 2] = some 48) ∧ (8 + 8 ≤ 48 ∨ 48 + 8 ≤ 8) := by
  intro x root p
  have hbuild : (TreePlan.build [.node (.place "flag" (.scalar .int8)) [],
      .node (.dense [2, 3]) [.node (.place "x" (.scalar .float64)) []]] 0).1 = .ok root := rfl
  have hroot : root.Grown := build hbuild
  have hp : Packing.ofTree? root = some p := rfl
  have hx : x ∈ root.places := by decide
  refine ⟨hroot, hp, ⟨_, rfl, rfl, rfl⟩, ?_⟩
  exact (elements_apart hroot hp).2 x hx x hx [0, 0] [1, 2] (by decide) _ _ rfl rfl 8 48 rfl rfl

end Grown

end Node

end FieldCompute
