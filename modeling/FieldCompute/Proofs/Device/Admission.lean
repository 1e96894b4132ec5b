import FieldCompute.Proofs.Device.Ledger
/-!
# What is admitted

The limit of a device counts all live bytes, also those that a pool keeps on its free lists. No call
takes a device beyond its limit (`Device.Orderly`), and the pool gives back what it keeps before it
refuses a request, so only the other bytes decide what is admitted (`Pool.Ledger.admits`).
-/

namespace FieldCompute

open Routine

/-! ## The device -/

namespace Device

variable {d d' d'' : Device} {size : Nat} {a : Allocation}

theorem admits_iff : d.admits size = true ↔ ∀ l ∈ d.limit, d.allocated + size ≤ l := by
  cases h : d.limit <;> simp [admits, h]

theorem allocate_eq_ok_iff {x : Allocation × Device} : d.allocate size = .ok x ↔
    ((∀ l ∈ d.limit, d.allocated + size ≤ l) ∧ size ≤ d.reservable) ∧
      (⟨d.nextId, size⟩, { d with
        memory := d.memory.insert d.nextId (.replicate size 0), nextId := d.nextId + 1 }) = x := by
  rw [← admits_iff, allocate]
  cases d.admits size with
  | false => simp
  | true =>
    by_cases hr : d.reservable < size
    · simp [hr, Nat.not_le.2 hr]
    · simp [hr, Nat.le_of_not_lt hr]

/-- An image is memory of its size. -/
theorem allocateImage_eq_ok_iff {i : Image} {x : Allocation × Device} :
    d.allocateImage i = .ok x ↔ ∃ size, i.bytes? = some size ∧ d.allocate size = .ok x := by
  unfold allocateImage
  cases i.bytes? <;> simp

/-- A device gives memory iff the limit admits it and the host has it. -/
theorem exists_allocate_iff : (∃ x, d.allocate size = .ok x) ↔
    (∀ l ∈ d.limit, d.allocated + size ≤ l) ∧ size ≤ d.reservable := by
  simp only [allocate_eq_ok_iff, exists_and_left, exists_eq', and_true]

/-- The bytes in use, by id. -/
theorem allocated_eq (h : d.memory.keys.Nodup) : d.allocated =
    (d.memory.keys.map fun id => ((d.memory.find? id).map Array.size).getD 0).sum := by
  rw [allocated, Table.values, Table.keys, List.map_map, List.map_map]
  congr 1
  apply List.map_congr_left
  intro e he
  simp [Table.find?_of_mem h he]

theorem Rewritten.allocated (h : d.Rewritten d') (hk : d.memory.keys.Nodup) :
    d'.allocated = d.allocated := by
  rw [allocated_eq hk, allocated_eq (h.keys ▸ hk), h.keys]
  simp only [h.size]

/-- Every id stands once and below the next one, and the limit is kept. -/
structure Orderly (d : Device) : Prop where
  keys : d.memory.keys.Nodup
  fresh {id : Nat} {data : Array UInt8} : d.memory.find? id = some data → id < d.nextId
  within : ∀ l ∈ d.limit, d.allocated ≤ l

namespace Orderly

/-- The id is new, so the bytes in use are the former ones and the new ones. -/
theorem allocated_allocate (ho : d.Orderly) (h : d.allocate size = .ok (a, d')) :
    d'.allocated = d.allocated + size := by
  obtain ⟨-, hd⟩ := allocate_eq_ok_iff.1 h
  cases hd
  have hnew : d.memory.find? d.nextId = none := by
    cases hf : d.memory.find? d.nextId with
    | none => rfl
    | some data => exact absurd (ho.fresh hf) (Nat.lt_irrefl _)
  simp [Device.allocated, Table.values_insert_new hnew]

theorem allocated_deallocate (ho : d.Orderly) (h : d.deallocate a = .ok d') :
    d'.allocated ≤ d.allocated := by
  unfold Device.deallocate at h
  split at h <;> cases h
  rename_i hlive
  rw [isLive, Table.contains_eq_isSome, Option.isSome_iff_exists] at hlive
  obtain ⟨data, hd⟩ := hlive
  have hsum := ((Table.values_erase_perm ho.keys hd).map Array.size).sum_nat
  rw [List.map_cons, List.sum_cons] at hsum
  rw [Device.allocated, Device.allocated, hsum]
  exact Nat.le_add_left ..

end Orderly

/-- The limit is the same and so is the host, and an orderly device stays orderly. -/
structure Bounded (d d' : Device) : Prop where
  limit : d'.limit = d.limit
  reservable : d'.reservable = d.reservable
  orderly : d.Orderly → d'.Orderly

namespace Bounded

theorem refl (d : Device) : Bounded d d := ⟨rfl, rfl, id⟩

theorem trans (h : Bounded d d') (h' : Bounded d' d'') : Bounded d d'' :=
  ⟨h'.limit.trans h.limit, h'.reservable.trans h.reservable, h'.orderly ∘ h.orderly⟩

theorem allocate (h : d.allocate size = .ok (a, d')) : Bounded d d' := by
  obtain ⟨⟨hl, -⟩, hd⟩ := allocate_eq_ok_iff.1 h
  cases hd
  refine ⟨rfl, rfl, fun ho => ⟨Table.nodup_keys_insert ho.keys, fun {id data} hf => ?_,
    fun l hlimit => ?_⟩⟩
  · change id < d.nextId + 1
    rw [Table.find?_insert] at hf
    split at hf
    · omega
    · exact Nat.lt_succ_of_lt (ho.fresh hf)
  · have hsum := ho.allocated_allocate h
    rw [hsum]
    exact hl l hlimit

theorem allocateImage {i : Image} (h : d.allocateImage i = .ok (a, d')) : Bounded d d' := by
  unfold Device.allocateImage at h
  split at h
  · cases h
  · exact .allocate h

theorem deallocate (h : d.deallocate a = .ok d') : Bounded d d' := by
  have hle (ho : d.Orderly) := ho.allocated_deallocate h
  unfold Device.deallocate at h
  split at h <;> cases h
  refine ⟨rfl, rfl, fun ho => ⟨Table.nodup_keys_erase ho.keys, fun {id data} hf => ?_,
    fun l hl => ?_⟩⟩
  · rw [Table.find?_erase] at hf
    split at hf
    · cases hf
    · exact ho.fresh hf
  · exact Nat.le_trans (hle ho) (ho.within l hl)

theorem rewritten (h : d.Rewritten d') : Bounded d d' := by
  refine ⟨h.limit, h.reservable, fun ho => ⟨h.keys ▸ ho.keys, fun {id data'} hf => ?_,
    fun l hl => ?_⟩⟩
  · rw [h.nextId]
    have hs := h.size id
    rw [hf, Option.map_some, eq_comm, Option.map_eq_some_iff] at hs
    obtain ⟨data, hd, -⟩ := hs
    exact ho.fresh hd
  · rw [h.allocated ho.keys]
    exact ho.within l (h.limit ▸ hl)

end Bounded

theorem orderly_create (limit : Option Nat) (reservable : Nat) :
    (create limit reservable).Orderly :=
  ⟨List.nodup_nil, fun hf => (by cases hf), fun _ _ => Nat.zero_le _⟩

end Device

/-! ## The pool -/

namespace Pool

open Device

variable {p p' : Pool} {out : List Allocation} {size : Nat}

/-- The pool goes on, on a device that keeps to its limit. -/
structure Serving (p p' : Pool) : Prop where
  terminated : p'.terminated = p.terminated
  device : p.device.Bounded p'.device

instance : Std.Refl Serving := ⟨fun p => ⟨rfl, .refl p.device⟩⟩

instance : IsTrans Pool Serving where
  trans _ _ _ h h' := ⟨h'.terminated.trans h.terminated, h.device.trans h'.device⟩

theorem onDevice_serving {f : Device → Except DeviceError Device}
    (hf : ∀ {d d'}, f d = .ok d' → d.Bounded d') : (onDevice f).Along Serving := by
  intro p
  rw [onDevice_on]
  cases hd : f p.device with
  | error e => exact Std.Refl.refl p
  | ok d => exact ⟨rfl, hf hd⟩

theorem fromDevice_serving {f : Device → Except DeviceError (Allocation × Device)}
    (hf : ∀ {d a d'}, f d = .ok (a, d') → d.Bounded d') : (fromDevice f).Along Serving := by
  intro p
  rw [fromDevice_on]
  cases hd : f p.device with
  | error e => exact Std.Refl.refl p
  | ok x => exact ⟨rfl, hf hd⟩

theorem drain_serving : drain.Along Serving := by
  refine .get_bind fun p => ?_
  have hall : (p.cachedAllocations.forM fun a => onDevice (·.deallocate a)).Along Serving :=
    Along.forM _ fun a => onDevice_serving .deallocate
  have h := hall { p with free := .empty, stats := { p.stats with cached := 0 } }
  rw [on_set_bind]
  exact ⟨h.terminated, h.device⟩

theorem supplied_serving {a : Allocation} {d : Device} (h : p.device.allocate size = .ok (a, d)) :
    p.Serving (p.supplied d) := ⟨rfl, .allocate h⟩

theorem allocate_serving (size : Nat) (zero : Bool) : (allocate size zero).Along Serving := by
  intro p
  have hr := allocate_requested p size zero
  generalize (allocate size zero).on p = x at hr ⊢
  cases hr with
  | terminated _ => exact Std.Refl.refl p
  | fresh _ _ hr =>
    cases hr with
    | granted h => exact supplied_serving h
    | relieved _ hdrain h =>
      exact IsTrans.trans _ _ _ (drain_serving.ends hdrain) (supplied_serving h)
    | refused _ hdrain _ => exact drain_serving.ends hdrain
    | undrained _ hdrain => exact drain_serving.ends hdrain
  | recycled _ hc _ => exact ⟨hc.terminated, hc.device ▸ .refl p.device⟩
  | cleared _ hc _ hf => exact ⟨hc.terminated, hc.device ▸ .rewritten (.fill hf)⟩
  | uncleared _ hc _ _ => exact ⟨hc.terminated, hc.device ▸ .refl p.device⟩

theorem release_serving (a : Allocation) : (release a).Along Serving :=
  .get_bind fun p => by
    split
    · exact ⟨rfl, .refl p.device⟩
    · exact onDevice_serving .deallocate p

/-- Terminating a pool changes the device as draining it does. -/
theorem terminate_bounded (p : Pool) : p.device.Bounded (terminate.on p).2.device := by
  rw [terminate, on_modify_bind]
  exact (drain_serving { p with terminated := true }).device

/-! ## What is admitted -/

/-- The bytes on the device that are on none of the free lists. -/
def uncached (p : Pool) : Nat :=
  ((p.device.memory.entries.filter
    fun e => e.1 ∉ p.cachedAllocations.map (·.id)).map (·.2.size)).sum

namespace Ledger

/-- What is not on a free list is out. -/
theorem uncached (h : p.Ledger out) : p.uncached = (out.map (·.size)).sum := by
  let apart (a : Allocation) : Bool := a.id ∉ p.cachedAllocations.map (·.id)
  have hdistinct := h.holds.distinct
  rw [List.map_append] at hdistinct
  obtain ⟨-, -, hdisjoint⟩ := List.nodup_append'.1 hdistinct
  have hout : (out ++ p.cachedAllocations).filter apart = out := by
    have hnone : p.cachedAllocations.filter apart = [] :=
      List.filter_eq_nil_iff.2 fun a ha => by simpa [apart] using ⟨a, ha, rfl⟩
    rw [List.filter_append, hnone, List.append_nil, List.filter_eq_self]
    intro a ha
    exact decide_eq_true fun hc => hdisjoint (List.mem_map_of_mem ha) hc
  have hperm := (h.holds.entries_perm.filter apart).map (·.size)
  rw [hout, List.filter_map, List.map_map] at hperm
  exact hperm.sum_nat

theorem le_allocated (h : p.Ledger out) : (out.map (·.size)).sum ≤ p.device.allocated := by
  rw [h.holds.allocated, List.map_append, List.sum_append]
  exact Nat.le_add_right ..

/-- A new allocation is admitted iff it fits in beside what is out. -/
theorem fresh_admits {x : Except DeviceError Allocation × Pool} (h : p.Ledger out)
    (hx : FreshlyRequested p size x)
    (hr : (∀ l ∈ p.device.limit, (out.map (·.size)).sum + size ≤ l) →
      size ≤ p.device.reservable) :
    (∃ a, x.1 = .ok a) ↔ ∀ l ∈ p.device.limit, (out.map (·.size)).sum + size ≤ l := by
  obtain ⟨q, hdrain, -, -, hold⟩ := Ledger.drain h.holds
  have hbounded : p.device.Bounded q.device := by simpa [hdrain] using (drain_serving p).device
  have hq : (∃ x, q.device.allocate size = .ok x) ↔
      ∀ l ∈ p.device.limit, (out.map (·.size)).sum + size ≤ l := by
    rw [exists_allocate_iff, hold.allocated, hbounded.limit, hbounded.reservable]
    exact ⟨And.left, fun h => ⟨h, hr h⟩⟩
  cases hx with
  | granted hd =>
    -- What fits in beside all that is live fits in beside what is out.
    have hle := h.le_allocated
    obtain ⟨hl, -⟩ := exists_allocate_iff.1 ⟨_, hd⟩
    refine ⟨fun _ l hlim => ?_, fun _ => ⟨_, rfl⟩⟩
    have := hl l hlim
    omega
  | relieved _ hdrain' hd =>
    cases hdrain.symm.trans hdrain'
    exact ⟨fun _ => hq.1 ⟨_, hd⟩, fun _ => ⟨_, rfl⟩⟩
  | refused _ hdrain' hd =>
    cases hdrain.symm.trans hdrain'
    rw [← hq, hd]
    simp
  | undrained _ hdrain' => cases hdrain.symm.trans hdrain'

/-- An allocation on a free list is in use already, so the limit admits it. -/
theorem taken_admits {a : Allocation} {q : Pool} (h : p.Ledger out) (ho : p.device.Orderly)
    (ht : p.terminated = false) (hc : p.Taken size a q) :
    ∀ l ∈ p.device.limit, (out.map (·.size)).sum + size ≤ l := by
  obtain ⟨hq, hs⟩ := h.taken ht hc
  have hle := hc.device ▸ hq.le_allocated
  rw [List.map_cons, List.sum_cons, hs] at hle
  intro l hl
  have := ho.within l hl
  omega

/-- What the pool keeps neither refuses a request nor lets one through. -/
theorem admits (h : p.Ledger out) (ho : p.device.Orderly) (zero : Bool)
    (hr : (∀ l ∈ p.device.limit, (out.map (·.size)).sum + size ≤ l) →
      size ≤ p.device.reservable) :
    (∃ a, ((Pool.allocate size zero).on p).1 = .ok a) ↔
      p.terminated = false ∧ ∀ l ∈ p.device.limit, (out.map (·.size)).sum + size ≤ l := by
  have hx := allocate_requested p size zero
  generalize (Pool.allocate size zero).on p = x at hx ⊢
  cases hx with
  | terminated ht => simp [ht]
  | fresh ht _ hx =>
    rw [h.fresh_admits hx hr]
    exact (and_iff_right ht).symm
  | recycled ht hc _ => exact ⟨fun _ => ⟨ht, h.taken_admits ho ht hc⟩, fun _ => ⟨_, rfl⟩⟩
  | cleared ht hc _ _ => exact ⟨fun _ => ⟨ht, h.taken_admits ho ht hc⟩, fun _ => ⟨_, rfl⟩⟩
  | uncleared ht hc _ hf =>
    obtain ⟨d, hfill, -⟩ := Holds.clear (h.taken ht hc).1.holds
    cases hfill.symm.trans hf

end Ledger

end Pool

end FieldCompute
