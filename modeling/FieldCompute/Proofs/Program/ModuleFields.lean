import FieldCompute.AotModule
import FieldCompute.Proofs.Program.Linked
import FieldCompute.Proofs.Tree.Fitting
/-!
# Fields of modules and of programs

A module records where the fields of a tree lie without asking a program. Since both pack the places
in one order and tell them apart by their ids, the offsets are those of every program in which the
tree has storage (`AotModule.addField_records`).
-/

namespace FieldCompute

namespace Node

/-- A place that the tree has is found under its id, by its name. -/
theorem Grown.name_found {root : Node} (h : root.Grown) {x : Place} (hx : x ∈ root.places) :
    (root.find? x.id).bind name? = some x.name := by
  obtain ⟨n, hn, hplace⟩ := mem_places_iff.1 hx
  have hid : n.id = x.id := (id_of_place? hplace).symm
  have hname : n.name? = some x.name := by
    unfold place? at hplace
    unfold name?
    split at hplace <;> cases hplace
    rfl
  cases hf : root.find? x.id with
  | none => simpa [hid] using List.find?_eq_none.1 hf n hn
  | some p =>
    obtain rfl := eq_of_find? h.nodup_ids hf hn hid
    exact hname

end Node

/-! ## Offsets -/

namespace Packing.Lays

variable {p : Packing} {offset : Nat} {places : List Place}

/-- Under the ids of the places the fields are found in their order. -/
theorem map_offset (h : p.Lays offset places) (hid : (places.map (·.id)).Nodup) :
    p.fields.map (fun f => some f.offset) =
      places.map fun x => (p.field? x.id).map (·.offset) := by
  rw [← h.places, List.map_map]
  refine List.map_congr_left fun f hf => ?_
  have hplace : f.place ∈ places := h.places ▸ List.mem_map_of_mem hf
  obtain ⟨g, hg, hfind, hfg⟩ := h.field?_of_mem hid hplace
  -- The field that is found is this one, since no other field has its place.
  have hnodup : (p.fields.map (·.place)).Nodup := h.places ▸ hid.of_map _
  obtain rfl : g = f := List.inj_on_of_nodup_map hnodup hg hf hfg
  rw [Function.comp_apply, hfind]
  rfl

end Packing.Lays

namespace Program.Linked

/-- The engine finds a place of a tree that has storage where the packing of the tree puts it. -/
theorem fieldOffset?_eq {p : Program} (h : p.Linked) {t : FieldTree} (ht : t ∈ p.trees.live)
    (hc : t.compileOnly = false) {packing : Packing} (hpack : Packing.ofTree? t.root = some packing)
    (x : NodeId) : p.engine.fieldOffset? t.id x = (packing.field? x).map (·.offset) := by
  have hget := h.registry.mem_live.1 ht
  obtain ⟨s, hs⟩ := h.tree hget hc
  obtain ⟨u, hu, -, hstored⟩ := h.storage hs
  cases hget.symm.trans hu
  cases hpack.symm.trans hstored
  rw [Engine.fieldOffset?, hs]
  rfl

end Program.Linked

/-! ## Records -/

namespace AotModule

variable {t : FieldTree}

theorem addField_of_none (h : Packing.ofTree? t.root = none) (m : AotModule) (name : String) :
    m.addField name t = .error (.sizeOverflow s!"snode tree {t.id}") := by
  rw [addField, FieldTree.packing, h]
  rfl

theorem addField_of_some {p : Packing} (h : Packing.ofTree? t.root = some p) (m : AotModule)
    (name : String) :
    m.addField name t = .ok { m with fields := m.fields ++ p.fields.map (record name t) } := by
  rw [addField, FieldTree.packing, h]
  rfl

/-- A module that takes in a tree keeps what it has and gets one record for every place, depth
first: with the name of the place, its type, the extents of all nodes above it, and the offset that
any program tells in which the tree has storage, under whatever id. A tree without a packing is
refused, and there is no other module. -/
theorem addField_records (h : t.root.Grown) (m : AotModule) (name : String) :
    (Packing.ofTree? t.root = none →
      m.addField name t = .error (.sizeOverflow s!"snode tree {t.id}")) ∧
    ∀ p, Packing.ofTree? t.root = some p → ∃ records,
      m.addField name t = .ok { m with fields := m.fields ++ records } ∧
      records.map (fun r => (r.name, r.tree, r.dtype, r.shape)) =
        (t.root.placesBelow []).map
          (fun x => (name ++ "." ++ x.name, t.id, .scalar x.scalar, x.shape)) ∧
      ∀ ok w cs, Run ok w cs → ∀ u ∈ w.program.trees.live, u.root = t.root →
        u.compileOnly = false →
        records.map (some ·.offset) =
          (t.root.placesBelow []).map fun x => w.program.engine.fieldOffset? u.id x.id := by
  refine ⟨fun hnone => addField_of_none hnone m name, ?_⟩
  intro p hp
  have hlays := Packing.lays_ofTree? hp
  rw [← h.places_eq]
  refine ⟨p.fields.map (record name t), addField_of_some hp m name, ?_, ?_⟩
  · rw [List.map_map, ← hlays.places, List.map_map]
    refine List.map_congr_left fun f hf => ?_
    have hplace : f.place ∈ t.root.places := hlays.places ▸ List.mem_map_of_mem hf
    simp only [Function.comp_apply, record, h.name_found hplace]
    rfl
  · intro ok w cs r u hu hroot hc
    have hoffset := r.linked.fieldOffset?_eq hu hc (hroot ▸ hp)
    simp only [hoffset, List.map_map]
    exact hlays.map_offset h.nodup_placeIds

/-- Two places of one name: the second one lies behind the first, in the module and in a program. -/
theorem addField_records_one_name :
    let a : Place := ⟨2, "a", .int8, []⟩
    let b : Place := ⟨4, "a", .float64, [3]⟩
    let root := Node.mk 1 .root [] [.mk 2 (.place "a" .int8) [] [],
      .mk 3 (.dense [3]) [3] [.mk 4 (.place "a" .float64) [3] []]]
    let t : FieldTree := ⟨0, root, false⟩
    root.Grown ∧ Packing.ofTree? root = some ⟨[⟨a, 0⟩, ⟨b, 8⟩], 32⟩ ∧
      ∃ w cs, Run (fun _ _ => True) w cs ∧ t ∈ w.program.trees.live ∧
        ∃ x y, (⟨.host, [], [], []⟩ : AotModule).addField "f" t = .ok ⟨.host, [], [], [x, y]⟩ ∧
          (y.name, y.tree, y.dtype, y.shape) = ("f.a", 0, .scalar .float64, [3]) ∧
          w.program.engine.fieldOffset? 0 4 = some y.offset := by
  intro a b root t
  have hbuild : (TreePlan.build [.node (.place "a" (.scalar .int8)) [],
      .node (.dense [3]) [.node (.place "a" (.scalar .float64)) []]] 1).1 = .ok root := rfl
  have hroot : root.Grown := .build hbuild
  have hpack : Packing.ofTree? root = some ⟨[⟨a, 0⟩, ⟨b, 8⟩], 32⟩ := rfl
  have run : Run (fun _ _ => True) _ _ := Run.fresh.step (.addTree root false) trivial
  have hlive : t ∈ (World.fresh.step (.addTree root false)).program.trees.live :=
    List.mem_singleton.2 rfl
  obtain ⟨records, hadd, hrecords, hoffsets⟩ :=
    (addField_records (t := t) hroot ⟨.host, [], [], []⟩ "f").2 _ hpack
  have hoffsets := hoffsets _ _ _ run t hlive rfl rfl
  refine ⟨hroot, hpack, _, _, run, hlive, ?_⟩
  match records, hadd, hrecords, hoffsets with
  | [x, y], hadd, hrecords, hoffsets =>
    refine ⟨x, y, hadd, ?_, ?_⟩
    · exact (List.cons.inj (List.cons.inj hrecords).2).1
    · exact (List.cons.inj (List.cons.inj hoffsets).2).1.symm

end AotModule

end FieldCompute
