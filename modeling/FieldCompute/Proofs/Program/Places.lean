import FieldCompute.Proofs.Program.Linked
/-!
# The places of live trees

Where an id stands for one place at most (`Program.Unambiguous`), it finds that place
(`place?_of_mem`) and, if its tree has storage, the place is bound (`Linked.binding?_of_has`). Where
live trees share no node at all (`Program.Apart`), an id also names the tree, and what is bound is
the field in the storage of that tree (`Stores.binding?`), in whatever order storage is searched
(`Linked.binding?_perm`).
-/

namespace FieldCompute

namespace Program

variable {p p' : Program} {t t' : FieldTree} {n n' : Node} {place place' : Place} {id : NodeId}

/-- The ids of the nodes of all live trees. -/
def nodeIds (p : Program) : List NodeId :=
  p.trees.live.flatMap fun t => t.root.nodes.map Node.id

/-- Live trees share no node, and each has its nodes under different ids. -/
def Apart (p : Program) : Prop := p.nodeIds.Nodup

/-- Nodes of live trees that have the same id are the same place, or are none. -/
def Unambiguous (p : Program) : Prop :=
  ∀ ⦃t⦄, t ∈ p.trees.live → ∀ ⦃t'⦄, t' ∈ p.trees.live →
    ∀ n ∈ t.root.nodes, ∀ n' ∈ t'.root.nodes, n.id = n'.id → n.place? = n'.place?

/-- The place is one of a live tree. -/
structure Has (p : Program) (t : FieldTree) (place : Place) : Prop where
  live : t ∈ p.trees.live
  place : place ∈ t.root.places

theorem Has.of_same (h : p.Has t place) (ht : p'.trees = p.trees) : p'.Has t place :=
  ⟨ht ▸ h.live, h.place⟩

theorem Has.add (h : p.Has t place) (hs : p.trees.Sound) {root : Node} {compileOnly : Bool}
    (ht : p'.trees = (p.trees.add root compileOnly).2) : p'.Has t place :=
  ⟨ht ▸ hs.mem_live_add h.live root compileOnly, h.place⟩

namespace Unambiguous

theorem unique_place (h : p.Unambiguous) (hp : p.Has t place) (hp' : p.Has t' place')
    (hid : place.id = place'.id) : place = place' := by
  obtain ⟨n, hn, hplace⟩ := Node.mem_places_iff.1 hp.place
  obtain ⟨n', hn', hplace'⟩ := Node.mem_places_iff.1 hp'.place
  rw [Node.id_of_place? hplace, Node.id_of_place? hplace'] at hid
  have hsame := h hp.live hp'.live n hn n' hn' hid
  exact Option.some.inj (hplace.symm.trans (hsame.trans hplace'))

/-- The id of a place of a live tree finds it. -/
theorem place?_of_mem (h : p.Unambiguous) (hp : p.Has t place) :
    p.place? place.id = some place := by
  obtain ⟨n, hn, hplace⟩ := Node.mem_places_iff.1 hp.place
  have hid := Node.id_of_place? hplace
  have hfind : (t.root.find? place.id).isSome = true := by
    rw [Node.find?, List.find?_isSome]
    exact ⟨n, hn, by simp [hid]⟩
  -- Some live tree has a node of this id, perhaps not the tree at hand.
  obtain ⟨t', ht'⟩ : ∃ t', p.trees.treeOf? place.id = some t' := by
    rw [← Option.isSome_iff_exists, Registry.treeOf?, List.find?_isSome]
    exact ⟨t, hp.live, hfind⟩
  have hsome : (t'.root.find? place.id).isSome = true := by
    simpa using List.find?_some (show p.trees.live.find? _ = some t' from ht')
  obtain ⟨n', hn'⟩ := Option.isSome_iff_exists.1 hsome
  have hid' : n'.id = place.id := by simpa using List.find?_some hn'
  have hsame := h hp.live (List.mem_of_find?_eq_some ht') n hn n' (List.mem_of_find?_eq_some hn')
    (hid.symm.trans hid'.symm)
  simp only [place?, ht', Option.bind_some, hn']
  exact hsame.symm.trans hplace

end Unambiguous

namespace Apart

/-- An id names a node and its tree. -/
theorem unique (h : p.Apart) (ht : t ∈ p.trees.live) (ht' : t' ∈ p.trees.live)
    (hn : n ∈ t.root.nodes) (hn' : n' ∈ t'.root.nodes) (hid : n.id = n'.id) : t = t' ∧ n = n' := by
  obtain ⟨hin, hout⟩ := List.nodup_flatMap.1 h
  obtain rfl : t = t' := by
    by_contra hne
    have hsymm : Std.Symm (Function.onFun List.Disjoint
        fun t : FieldTree => t.root.nodes.map Node.id) := ⟨fun _ _ h => List.disjoint_symm h⟩
    refine hout.forall ht ht' hne (List.mem_map.2 ⟨n, hn, rfl⟩) ?_
    rw [hid]
    exact List.mem_map.2 ⟨n', hn', rfl⟩
  exact ⟨rfl, List.inj_on_of_nodup_map (hin t ht) hn hn' hid⟩

theorem unique_place (h : p.Apart) (hp : p.Has t place) (hp' : p.Has t' place')
    (hid : place.id = place'.id) : t = t' ∧ place = place' := by
  obtain ⟨n, hn, hplace⟩ := Node.mem_places_iff.1 hp.place
  obtain ⟨n', hn', hplace'⟩ := Node.mem_places_iff.1 hp'.place
  rw [Node.id_of_place? hplace, Node.id_of_place? hplace'] at hid
  obtain ⟨rfl, rfl⟩ := h.unique hp.live hp'.live hn hn' hid
  exact ⟨rfl, Option.some.inj (hplace.symm.trans hplace')⟩

theorem unambiguous (h : p.Apart) : p.Unambiguous := by
  intro t ht t' ht' n hn n' hn' hid
  rw [(h.unique ht ht' hn hn' hid).2]

end Apart

theorem has_of_place? (h : p.place? id = some place) : ∃ t, p.Has t place ∧ place.id = id := by
  have hid := place?_id h
  simp only [place?, Option.bind_eq_some_iff] at h
  obtain ⟨n, ⟨t, ht, hn⟩, hplace⟩ := h
  have hmem : n ∈ t.root.nodes := List.mem_of_find?_eq_some hn
  exact ⟨t, ⟨List.mem_of_find?_eq_some ht, Node.mem_places_iff.2 ⟨n, hmem, hplace⟩⟩, hid⟩

/-! ## Where places are stored -/

/-- A field in the storage of a live tree. -/
structure Stores (p : Program) (t : FieldTree) (s : Storage) (f : FieldSlot) : Prop where
  has : p.Has t f.place
  storage : p.engine.storage.find? t.id = some s
  lays : s.packing.Lays 0 t.root.places
  field : f ∈ s.packing.fields

theorem Linked.stores (h : p.Linked) {i : Nat} {s : Storage} {f : FieldSlot}
    (hs : p.engine.storage.find? i = some s) (hf : f ∈ s.packing.fields) :
    ∃ t, t.id = i ∧ t.compileOnly = false ∧ p.Stores t s f := by
  obtain ⟨t, ht, hc, hpack⟩ := h.storage hs
  obtain rfl := h.registry.id ht
  have hlays := Packing.lays_ofTree? hpack
  refine ⟨t, rfl, hc, ⟨⟨h.registry.mem_live.2 ht, ?_⟩, hs, hlays, hf⟩⟩
  rw [← hlays.places]
  exact List.mem_map.2 ⟨f, hf, rfl⟩

/-- What a place is bound to in the storage of a tree is a field there, and the tree is live. -/
theorem Linked.storage_binding? (h : p.Linked) {s : Storage} {b : Binding}
    (hs : s ∈ p.engine.storage.values) (hb : s.binding? id = some b) :
    ∃ t, p.Stores t s b.field ∧ t.compileOnly = false ∧ b.allocation = s.allocation ∧
      b.field.place.id = id := by
  obtain ⟨f, hf, rfl⟩ := Option.map_eq_some_iff.1 hb
  obtain ⟨i, hi⟩ := (Table.mem_values_iff h.keys).1 hs
  obtain ⟨t, -, hc, hst⟩ := h.stores hi (List.mem_of_find?_eq_some hf)
  exact ⟨t, hst, hc, rfl, by simpa using List.find?_some hf⟩

/-- What a place is bound to is a field in the storage of a live tree. -/
theorem Linked.binding?_stores (h : p.Linked) {b : Binding}
    (hb : p.engine.binding? id = some b) :
    ∃ t s, p.Stores t s b.field ∧ t.compileOnly = false ∧ b.allocation = s.allocation ∧
      b.field.place.id = id := by
  obtain ⟨s, hs, hsb⟩ := List.exists_of_findSome?_eq_some hb
  obtain ⟨t, hst⟩ := h.storage_binding? hs hsb
  exact ⟨t, s, hst⟩

/-- The place of a field in the storage of a live tree is bound. -/
theorem Stores.exists_binding? {s : Storage} {f : FieldSlot} (hst : p.Stores t s f) :
    ∃ b, p.engine.binding? f.place.id = some b := by
  rw [← Option.isSome_iff_exists, Engine.binding?, List.findSome?_isSome_iff]
  refine ⟨s, Table.mem_values_of_find? hst.storage, ?_⟩
  rw [Storage.binding?, Option.isSome_map, Packing.field?, List.find?_isSome]
  exact ⟨f, hst.field, by simp⟩

/-- A field of a live tree is found under the id of its place. -/
theorem Stores.binding? {s : Storage} {f : FieldSlot} (hst : p.Stores t s f) (h : p.Linked)
    (ha : p.Apart) : p.engine.binding? f.place.id = some ⟨s.allocation, f⟩ := by
  obtain ⟨b, hb⟩ := hst.exists_binding?
  obtain ⟨t', s', hst', -, hall, hid⟩ := h.binding?_stores hb
  obtain ⟨rfl, hplace⟩ := ha.unique_place hst'.has hst.has hid
  obtain rfl := Option.some.inj (hst'.storage.symm.trans hst.storage)
  -- A tree has a place once, so a place has one field.
  have hnodup : (s'.packing.fields.map (·.place)).Nodup := by
    rw [hst'.lays.places]
    exact (((List.nodup_flatMap.1 ha).1 _ hst'.has.live).sublist
      (Node.placeIds_sublist _)).of_map
  have hfb := List.inj_on_of_nodup_map hnodup hst'.field hst.field hplace
  obtain ⟨_, _⟩ := b
  simp_all

/-- In whatever order the storage is searched, a place is bound to the same field, if live trees share
no node. -/
theorem Linked.binding?_perm (h : p.Linked) (ha : p.Apart) {storage : List Storage}
    (hperm : storage.Perm p.engine.storage.values) (id : NodeId) :
    storage.findSome? (·.binding? id) = p.engine.binding? id := by
  cases hb : storage.findSome? (·.binding? id) with
  | none =>
    rw [List.findSome?_eq_none_iff] at hb
    exact (List.findSome?_eq_none_iff.2 fun s hs => hb s (hperm.mem_iff.2 hs)).symm
  | some b =>
    obtain ⟨s, hs, hsb⟩ := List.exists_of_findSome?_eq_some hb
    obtain ⟨t, hst, -, hallocation, rfl⟩ := h.storage_binding? (hperm.mem_iff.1 hs) hsb
    rw [hst.binding? h ha, ← hallocation]

/-- A place of a live tree that is to have storage has it. -/
theorem Linked.exists_stores (h : p.Linked) (hp : p.Has t place) (hc : t.compileOnly = false) :
    ∃ s f, p.Stores t s f ∧ f.place = place := by
  have ht := h.registry.mem_live.1 hp.live
  obtain ⟨s, hs⟩ := h.tree ht hc
  obtain ⟨t', ht', -, hpack⟩ := h.storage hs
  obtain rfl := Option.some.inj (ht.symm.trans ht')
  have hlays := Packing.lays_ofTree? hpack
  have hplace := hp.place
  rw [← hlays.places] at hplace
  obtain ⟨f, hf, rfl⟩ := List.mem_map.1 hplace
  exact ⟨s, f, ⟨hp, hs, hlays, hf⟩, rfl⟩

/-- A place of a tree with storage is bound to a field of that place. -/
theorem Linked.binding?_of_has (h : p.Linked) (hu : p.Unambiguous) (hp : p.Has t place)
    (hc : t.compileOnly = false) :
    ∃ b, p.engine.binding? place.id = some b ∧ b.field.place = place := by
  obtain ⟨s, f, hst, rfl⟩ := h.exists_stores hp hc
  obtain ⟨b, hb⟩ := hst.exists_binding?
  obtain ⟨t', s', hst', -, -, hid⟩ := h.binding?_stores hb
  exact ⟨b, hb, hu.unique_place hst'.has hst.has hid⟩

end Program

end FieldCompute
