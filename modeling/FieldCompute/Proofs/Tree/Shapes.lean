import FieldCompute.Proofs.Tree.Growth
/-!
# The shapes of a tree

A new node takes over the shape of its parent and adds its own extents. So in a tree that has grown
a shape is the extents of all nodes on the way from the root (`Shaped`, which growing keeps by
`Shaped.attach`), and the places can be read off the extents alone (`Grown.places_eq`). No place has
an axis of extent zero (`Grown.zero_notMem_shape`).
-/

namespace FieldCompute

/-- The axes that a node of the kind adds. -/
def NodeKind.extents : NodeKind → List Nat
  | dense extents => extents
  | _ => []

namespace Node

variable {t : Node}

/-- What stands below axes `above`: every node adds its own extents to them, which are positive, and
no place has children. -/
inductive Shaped : List Nat → Node → Prop where
  | mk {above : List Nat} {i : NodeId} {k : NodeKind} {cs : List Node} (hpos : 0 ∉ k.extents)
      (hleaf : (mk i k (above ++ k.extents) cs).isPlace = true → cs = [])
      (hcs : ∀ c ∈ cs, Shaped (above ++ k.extents) c) :
      Shaped above (mk i k (above ++ k.extents) cs)

/-! ## Growing -/

theorem attachAll_eq_map (parent : NodeId) (child : Node) (cs : List Node) :
    attachAll parent child cs = cs.map (attach parent child) := by
  induction cs with
  | nil => rfl
  | cons c cs ih => rw [attachAll, ih, List.map_cons]

/-- A child may come in if it fits under every node that has the id of its parent. -/
theorem Shaped.attach {above : List Nat} {parent : NodeId} {child : Node} (h : Shaped above t)
    (hfit : ∀ n ∈ t.nodes, n.id = parent → n.isPlace = false ∧ Shaped n.shape child) :
    Shaped above (attach parent child t) := by
  induction h with
  | @mk above i k cs hpos hleaf hcs ih =>
    have hall (c : Node) (hc : c ∈ cs.map (Node.attach parent child)) :
        Shaped (above ++ k.extents) c := by
      obtain ⟨c, hmem, rfl⟩ := List.mem_map.1 hc
      refine ih c hmem fun n hn => hfit n ?_
      rw [nodes_mk]
      exact List.mem_cons_of_mem _ (List.mem_flatMap.2 ⟨c, hmem, hn⟩)
    rw [Node.attach, attachAll_eq_map]
    split
    · rename_i hi
      have hself := hfit (Node.mk i k (above ++ k.extents) cs) (by simp [nodes_mk]) hi
      refine .mk hpos (fun hplace => ?_) fun c hc => ?_
      · cases hself.1.symm.trans hplace
      · rcases List.mem_append.1 hc with hc | hc
        · exact hall c hc
        · obtain rfl := List.mem_singleton.1 hc
          exact hself.2
    · exact .mk hpos (fun hplace => by rw [hleaf hplace]; rfl) hall

/-- A new node continues the shape of its parent. -/
theorem shaped_sprouted {p child : Node} {sprout : Sprout} {fresh : NodeId}
    (h : sprouted p sprout fresh = .ok child) : p.isPlace = false ∧ Shaped p.shape child := by
  unfold sprouted at h
  split at h
  · cases h
  · rename_i hp
    refine ⟨Bool.eq_false_iff.2 hp, ?_⟩
    split at h
    · rename_i extents
      split at h
      · cases h
      · rename_i hne
        cases h
        have hpos : 0 ∉ extents := by
          intro h0
          exact hne (Bool.or_eq_true_iff.2 (.inr (List.any_eq_true.2 ⟨0, h0, rfl⟩)))
        exact .mk hpos (fun _ => rfl) (by simp)
    · split at h
      · rename_i name _ s
        cases h
        have hleaf : Shaped p.shape (mk fresh (.place name s) (p.shape ++ []) []) :=
          .mk (List.not_mem_nil) (fun _ => rfl) (by simp)
        rwa [List.append_nil] at hleaf
      · cases h

/-- The node that is found under an id is the only one with it. -/
theorem eq_of_find? (h : t.ids.Nodup) {p n : Node} {i : NodeId} (hp : t.find? i = some p)
    (hn : n ∈ t.nodes) (hi : n.id = i) : n = p := by
  have hid : p.id = i := by simpa using List.find?_some hp
  exact List.inj_on_of_nodup_map h hn (List.mem_of_find?_eq_some hp) (hi.trans hid.symm)

theorem Grown.shaped (h : t.Grown) : Shaped [] t := by
  induction h with
  | root id => exact .mk (k := .root) List.not_mem_nil (fun _ => rfl) (by simp)
  | @grow t t' parent fresh sprout ht _ h ih =>
    unfold Node.grow at h
    split at h
    · cases h; exact ih
    · rename_i p hp
      obtain ⟨child, hchild, h⟩ := Outcome.bind_eq_ok_iff.1 h
      cases h
      refine ih.attach fun n hn hi => ?_
      obtain rfl := eq_of_find? ht.nodup_ids hp hn hi
      exact shaped_sprouted hchild

/-! ## Places -/

mutual

/-- The places at and below a node whose parent has the axes `above`, depth first. Each has the
extents of all nodes on the way to it. -/
def placesBelow (above : List Nat) : Node → List Place
  | mk i (.place name scalar) _ cs => ⟨i, name, scalar, above⟩ :: placesBelowAll above cs
  | mk _ k _ cs => placesBelowAll (above ++ k.extents) cs

def placesBelowAll (above : List Nat) : List Node → List Place
  | [] => []
  | c :: cs => placesBelow above c ++ placesBelowAll above cs

end

theorem placesBelowAll_eq_flatMap (above : List Nat) (cs : List Node) :
    placesBelowAll above cs = cs.flatMap (placesBelow above) := by
  induction cs with
  | nil => rfl
  | cons c cs ih => rw [placesBelowAll, ih, List.flatMap_cons]

theorem places_mk (i : NodeId) (k : NodeKind) (s : List Nat) (cs : List Node) :
    (mk i k s cs).places = (mk i k s cs).place?.toList ++ cs.flatMap places := by
  have hplaces : places = fun c => c.nodes.filterMap place? := rfl
  rw [places, nodes_mk, List.filterMap_cons, hplaces, ← List.filterMap_flatMap]
  cases (mk i k s cs).place? <;> rfl

theorem Shaped.places_eq {above : List Nat} (h : Shaped above t) :
    t.places = t.placesBelow above := by
  induction h with
  | @mk above i k cs hpos hleaf hcs ih =>
    have hbelow : cs.flatMap places = placesBelowAll (above ++ k.extents) cs := by
      rw [placesBelowAll_eq_flatMap]
      exact List.flatMap_congr ih
    rw [places_mk, hbelow]
    cases k with
    | place name s =>
      rw [placesBelow]
      simp [place?, kind, id, shape, NodeKind.extents]
    | root => rfl
    | dense extents => rfl

/-- The places of a tree depend on the kinds and the ids of its nodes alone. -/
theorem Grown.places_eq (h : t.Grown) : t.places = t.placesBelow [] := h.shaped.places_eq

theorem Shaped.zero_notMem_shape {above : List Nat} (h : Shaped above t) (habove : 0 ∉ above)
    {x : Place} (hx : x ∈ t.places) : 0 ∉ x.shape := by
  induction h with
  | @mk above i k cs hpos hleaf hcs ih =>
    have hall : 0 ∉ above ++ k.extents := by simp [habove, hpos]
    rw [places_mk, List.mem_append, List.mem_flatMap] at hx
    rcases hx with hx | ⟨c, hc, hx⟩
    · unfold place? at hx
      split at hx
      · rw [Option.toList_some, List.mem_singleton] at hx
        rw [hx]
        exact hall
      · cases hx
    · exact ih c hc hall hx

theorem Grown.zero_notMem_shape (h : t.Grown) {x : Place} (hx : x ∈ t.places) : 0 ∉ x.shape :=
  h.shaped.zero_notMem_shape List.not_mem_nil hx

end Node

end FieldCompute
