import FieldCompute.Proofs.Program.Ownership
import FieldCompute.Proofs.Program.Places
import FieldCompute.Proofs.Value.Casts
/-!
# Elements of fields

An element is a run of bytes in the storage of a tree. Elements lie apart from each other
(`Element.apart`), so a write changes one of them, and what does not write to storage changes none.
`Program.Contains` says that every element holds the bytes of the value that it should have.
-/

namespace FieldCompute

open Program Device Relation

namespace Program

variable {p p' : Program} {s s' : Storage} {f f' : FieldSlot} {indices indices' : List Int}
  {x x' : Nat}

/-- The element of the field that the index tuple names. It begins at `x`. -/
structure Element (p : Program) (s : Storage) (f : FieldSlot) (indices : List Int) (x : Nat) :
    Prop where
  storage : ∃ tree, p.engine.storage.find? tree = some s
  field : f ∈ s.packing.fields
  offset : f.elementOffset? indices = some x

namespace Element

/-- An element lies in live memory. -/
theorem span {w : World} (h : w.Accounted) (e : w.program.Element s f indices x) :
    ∃ data, w.program.device.memory.find? s.allocation.id = some data ∧
      x + f.place.scalar.bytes ≤ data.size := by
  obtain ⟨tree, hs⟩ := e.storage
  obtain ⟨data, hd, hsize⟩ := h.storage_live hs
  obtain ⟨-, root, hroot⟩ := h.packed hs
  refine ⟨data, hd, ?_⟩
  rw [hsize]
  exact (Packing.lays_ofTree? hroot).inside e.field e.offset

/-- Different elements share no byte. -/
theorem apart {w : World} (h : w.Accounted) (e : w.program.Element s f indices x)
    (e' : w.program.Element s' f' indices' x')
    (hne : f.place.id = f'.place.id → indices ≠ indices')
    (hid : s.allocation.id = s'.allocation.id) :
    x + f.place.scalar.bytes ≤ x' ∨ x' + f'.place.scalar.bytes ≤ x := by
  obtain ⟨tree, hs⟩ := e.storage
  obtain ⟨tree', hs'⟩ := e'.storage
  obtain rfl := h.storage_unique hs hs' hid
  obtain ⟨-, root, hroot⟩ := h.packed hs
  -- In one field the offsets differ; two fields of one packing do not overlap.
  by_cases hf : f = f'
  · subst hf
    exact f.elementOffset?_apart e.offset e'.offset (hne rfl)
  · exact (Packing.lays_ofTree? hroot).fields_apart e.field e'.field hf e.offset e'.offset

theorem stores (e : p.Element s f indices x) (h : p.Linked) :
    ∃ t, t.compileOnly = false ∧ p.Stores t s f := by
  obtain ⟨tree, hs⟩ := e.storage
  obtain ⟨t, -, hc, hst⟩ := h.stores hs e.field
  exact ⟨t, hc, hst⟩

theorem binding? (e : p.Element s f indices x) (h : p.Linked) (ha : p.Apart) :
    p.engine.binding? f.place.id = some ⟨s.allocation, f⟩ := by
  obtain ⟨t, -, hst⟩ := e.stores h
  exact hst.binding? h ha

end Element

end Program

/-! ## What elements hold -/

/-- What was last written to the elements, by the place and the index tuple. -/
abbrev Writes := NodeId → List Int → Option Value

namespace Writes

variable {writes : Writes} {place : Place} {id : NodeId} {indices indices' : List Int} {v : Value}

/-- The value that an element should have: what was last written, as the type of the place, or else
zero. -/
def value (writes : Writes) (place : Place) (indices : List Int) : Value :=
  match writes place.id indices with
  | some v => v.cast place.scalar
  | none => .zero place.scalar

/-- A value is written. -/
def record (writes : Writes) (id : NodeId) (indices : List Int) (v : Value) : Writes :=
  fun id' indices' => if id' = id ∧ indices' = indices then some v else writes id' indices'

/-- The places are new. -/
def forget (writes : Writes) (places : List Place) : Writes :=
  fun id indices => if id ∈ places.map (·.id) then none else writes id indices

theorem value_record (h : place.id = id) :
    (writes.record id indices v).value place indices = v.cast place.scalar := by
  simp [value, record, h]

theorem value_record_of_ne (h : place.id = id → indices' ≠ indices) :
    (writes.record id indices v).value place indices' = writes.value place indices' := by
  have hne : ¬(place.id = id ∧ indices' = indices) := by
    rintro ⟨hid, hi⟩
    exact h hid hi
  simp [value, record, hne]

theorem value_forget {places : List Place} (h : place ∈ places) :
    (writes.forget places).value place indices = .zero place.scalar := by
  have hmem : place.id ∈ places.map (·.id) := List.mem_map.2 ⟨place, h, rfl⟩
  simp only [value, forget, if_pos hmem]

theorem value_forget_of_ne {places : List Place} (h : ∀ other ∈ places, other.id ≠ place.id) :
    (writes.forget places).value place indices = writes.value place indices := by
  have hmem : place.id ∉ places.map (·.id) := by
    intro hm
    obtain ⟨other, ho, hid⟩ := List.mem_map.1 hm
    exact h other ho hid
  simp only [value, forget, if_neg hmem]

end Writes

theorem Value.cast_zero (s : Scalar) : (Value.zero s).cast s = .zero s := by
  cases s <;> decide +kernel

theorem Writes.value_cast (writes : Writes) (place : Place) (indices : List Int) :
    (writes.value place indices).cast place.scalar = writes.value place indices := by
  unfold value
  split
  · rw [Value.cast_cast]
  · rw [Value.cast_zero]

theorem lowBytes_zero (count : Nat) : lowBytes 0 count = List.replicate count 0 := by
  induction count with
  | zero => rfl
  | succ count ih => rw [lowBytes, Nat.zero_div, ih]; rfl

theorem Value.toBytes_zero (s : Scalar) : (Value.zero s).toBytes s = List.replicate s.bytes 0 := by
  have hword : (Value.zero s).word s = 0 := by cases s <;> decide +kernel
  rw [toBytes, cast_zero, hword]
  exact lowBytes_zero s.bytes

theorem Value.toBytes_cast (v : Value) (s : Scalar) : (v.cast s).toBytes s = v.toBytes s := by
  rw [toBytes, toBytes, cast_cast]

namespace Program

/-- Every element holds the bytes of the value that it should have. -/
def Contains (p : Program) (writes : Writes) : Prop :=
  ∀ ⦃s : Storage⦄ ⦃f : FieldSlot⦄ ⦃indices : List Int⦄ ⦃x : Nat⦄, p.Element s f indices x →
    p.device.read ⟨s.allocation, x⟩ f.place.scalar.bytes =
      .ok ((writes.value f.place indices).toBytes f.place.scalar)

namespace Contains

variable {w w' : World} {writes : Writes} {p' : Program} {s : Storage} {f : FieldSlot}
  {indices : List Int} {x : Nat}

theorem of_same {p : Program} (h : p.Contains writes)
    (hs : p'.engine.storage = p.engine.storage) (hd : p'.device = p.device) :
    p'.Contains writes := by
  intro s f indices x e
  rw [hd]
  exact h ⟨hs ▸ e.storage, e.field, e.offset⟩

/-- Where storage and the bytes of what is owned stay, elements keep their values. -/
theorem spared (h : w.program.Contains writes) (ha : w.Accounted)
    (hs : World.Accounted.Spared w w') : w'.program.Contains writes := by
  intro s f indices x e
  obtain ⟨tree, hf⟩ := e.storage
  have hf' := Table.find?_of_sublist ha.storage hs.storage hf
  have hkept := hs.keeps _ (World.Accounted.storage_owned hf')
  rw [read_congr hkept]
  exact h ⟨⟨tree, hf'⟩, e.field, e.offset⟩

theorem chain (h : w.program.Contains writes) (ha : w.Accounted) (hm : ReflTransGen Calm w w') :
    w'.program.Contains writes := by
  have hboth : w'.Accounted ∧ w'.program.Contains writes := by
    induction hm with
    | refl => exact ⟨ha, h⟩
    | tail _ hm ih =>
      obtain ⟨ha', hs⟩ := ih.1.calm hm
      exact ⟨ha', ih.2.spared ih.1 hs⟩
  exact hboth.2

/-- Filling an array changes no element. -/
theorem fill (h : w.program.Contains writes) (ha : w.Accounted) {id : Nat} {a : Ndarray}
    (hf : w.program.ndarrays.find? id = some a) {pattern : UInt32} {d : Device}
    (hd : w.program.device.fill a.allocation pattern = .ok d) :
    (w.program.withDevice d).Contains writes := by
  intro s f indices x e
  obtain ⟨data, -, -, rfl⟩ := fill_eq_ok_iff.1 hd
  obtain ⟨tree, hs⟩ := e.storage
  have hapart := ha.ndarray_apart (i := tree) hs hf
  refine (read_congr (Table.find?_insert_of_ne hapart)).trans ?_
  exact h ⟨e.storage, e.field, e.offset⟩

/-- A write changes one element. -/
theorem write (h : w.program.Contains writes) (ha : w.Accounted) (hl : w.program.Linked)
    (hp : w.program.Apart) (e : w.program.Element s f indices x) {v : Value}
    (hw : w.program.device.write ⟨s.allocation, x⟩ (v.toBytes f.place.scalar) = .ok p'.device)
    (hs : p'.engine.storage = w.program.engine.storage) :
    p'.Contains (writes.record f.place.id indices v) := by
  intro s' f' indices' x' e'
  replace e' : w.program.Element s' f' indices' x' := ⟨hs ▸ e'.storage, e'.field, e'.offset⟩
  by_cases heq : f'.place.id = f.place.id ∧ indices' = indices
  · obtain ⟨hid, rfl⟩ := heq
    have hb := e'.binding? hl hp
    rw [hid, e.binding? hl hp, Option.some.injEq, Binding.mk.injEq] at hb
    obtain ⟨hall, rfl⟩ := hb
    obtain rfl := Option.some.inj (e.offset.symm.trans e'.offset)
    have hread := read_write_self hw
    rw [Value.length_toBytes] at hread
    rw [← hall, Writes.value_record rfl, Value.toBytes_cast]
    exact hread
  · have hne : f'.place.id = f.place.id → indices' ≠ indices := fun hid hi => heq ⟨hid, hi⟩
    rw [Writes.value_record_of_ne hne, ← h e']
    refine read_write_of_apart hw fun hid => ?_
    rw [Value.length_toBytes]
    exact e'.apart ha e hne hid

end Contains

end Program

end FieldCompute
