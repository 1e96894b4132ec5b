import FieldCompute.Proofs.Device.FreeLists
import Mathlib.Data.List.Perm.Subperm
/-!
# Custody

Somebody may give memory back past the pool, so that what is out or on the free lists is no longer
live. What remains is `Pool.Custody`: the pool keeps nothing that is out, and no id twice. It needs
only that the pool is given what is out and nothing else. So a request that is refused touches the
bytes of nothing that is out, even if the pool gives back all that it keeps on the way
(`Pool.allocate_spares`, `Custody.keeps`).
-/

namespace FieldCompute

open Routine

namespace Pool

variable {p p' : Pool} {out out' : List Allocation} {a : Allocation} {size : Nat}

/-! ## Giving back what is kept -/

/-- No id has been given out, and only what is under these ids has other bytes or none. -/
structure Spares (ids : List Nat) (p p' : Pool) : Prop where
  nextId : p'.device.nextId = p.device.nextId
  bytes : ∀ id ∉ ids, p'.device.memory.find? id = p.device.memory.find? id

variable {ids : List Nat}

instance : Std.Refl (Spares ids) := ⟨fun _ => ⟨rfl, fun _ _ => rfl⟩⟩

instance : IsTrans Pool (Spares ids) where
  trans _ _ _ h h' :=
    ⟨h'.nextId.trans h.nextId, fun id hid => (h'.bytes id hid).trans (h.bytes id hid)⟩

theorem deallocate_spares (ha : a.id ∈ ids) : (onDevice (·.deallocate a)).Along (Spares ids) := by
  intro p
  rw [onDevice_on]
  cases hd : p.device.deallocate a with
  | error e => exact Std.Refl.refl p
  | ok d =>
    unfold Device.deallocate at hd
    split at hd <;> cases hd
    refine ⟨rfl, fun id hid => ?_⟩
    have hne : id ≠ a.id := fun h => hid (h ▸ ha)
    simp [Table.find?_erase, hne]

/-- The ids of what the pool keeps. -/
def cachedIds (p : Pool) : List Nat := p.cachedAllocations.map (·.id)

theorem drain_spares (p : Pool) : Spares p.cachedIds p (drain.on p).2 := by
  have hall : (p.cachedAllocations.forM fun a => onDevice (·.deallocate a)).Along
      (Spares p.cachedIds) := Along.forM_of_mem fun a ha =>
    deallocate_spares (List.mem_map.2 ⟨a, ha, rfl⟩)
  have h := hall { p with free := .empty, stats := { p.stats with cached := 0 } }
  rw [drain, on_get_bind, on_set_bind]
  exact ⟨h.nextId, h.bytes⟩

/-- A request that is refused spares all that the pool does not keep. -/
theorem allocate_spares {zero : Bool} {e : DeviceError}
    (h : (allocate size zero).on p = (.error e, p')) : Spares p.cachedIds p p' := by
  have hdrained := drain_spares p
  have hr := allocate_requested p size zero
  rw [h] at hr
  cases hr with
  | terminated _ => exact Std.Refl.refl p
  | fresh _ _ hr =>
    cases hr with
    | refused _ hdrain _ => rwa [hdrain] at hdrained
    | undrained _ hdrain => rwa [hdrain] at hdrained
  | uncleared _ hc _ _ => exact ⟨congrArg _ hc.device, fun id _ => by rw [hc.device]⟩

/-! ## Nobody else's -/

/-- What is out and what the pool keeps are different allocations, and all have been given out by
the device. They need not be live. -/
structure Custody (p : Pool) (out : List Allocation) : Prop where
  distinct : ((out ++ p.cachedAllocations).map (·.id)).Nodup
  given {a : Allocation} : a ∈ out ++ p.cachedAllocations → a.id < p.device.nextId
  keys : p.free.keys.Nodup

open scoped List

namespace Custody

theorem create (limit : Option Nat) (capacity reservable : Nat) :
    (Pool.create (.create limit reservable) capacity).Custody [] :=
  ⟨List.nodup_nil, fun ha => (by cases ha), List.nodup_nil⟩

/-- There is nothing new. -/
theorem subperm (h : p.Custody out)
    (hs : out' ++ p'.cachedAllocations <+~ out ++ p.cachedAllocations)
    (hn : p.device.nextId ≤ p'.device.nextId) (hk : p'.free.keys.Nodup) : p'.Custody out' := by
  obtain ⟨l, hperm, hsub⟩ := hs
  refine ⟨?_, fun ha => ?_, hk⟩
  · exact (hperm.map (·.id)).nodup_iff.1 (h.distinct.sublist (hsub.map _))
  · exact Nat.lt_of_lt_of_le (h.given (hsub.subset (hperm.mem_iff.2 ha))) hn

theorem mono (h : p.Custody out) (hs : out' <+~ out) : p.Custody out' :=
  h.subperm ((List.subperm_append_right _).2 hs) (Nat.le_refl _) h.keys

theorem withDevice (h : p.Custody out) (hf : p'.free = p.free)
    (hn : p'.device.nextId = p.device.nextId) : p'.Custody out := by
  refine h.subperm ?_ (Nat.le_of_eq hn.symm) (hf ▸ h.keys)
  rw [cachedAllocations, hf]
  exact List.Subperm.refl _

/-- Giving memory back past the pool leaves apart what is apart. -/
theorem deallocate (h : p.Custody out) (a : Allocation) :
    ((onDevice (·.deallocate a)).on p).2.Custody out := by
  have hb : p.Beneath _ := onDevice_beneath (·.deallocate a) p
  exact h.withDevice (by rw [hb]) (deallocate_spares (List.mem_singleton.2 rfl) p).nextId

theorem rewritten (h : p.Custody out) {d : Device} (hd : p.device.Rewritten d) :
    Custody { p with device := d } out := h.withDevice rfl hd.nextId

/-- The pool keeps nothing any more. -/
theorem emptied (h : p.Custody out) (hf : p'.free = .empty)
    (hn : p'.device.nextId = p.device.nextId) : p'.Custody out := by
  refine h.subperm ?_ (Nat.le_of_eq hn.symm) (hf ▸ List.nodup_nil)
  have hnone : p'.cachedAllocations = [] := by rw [cachedAllocations, hf]; rfl
  rw [hnone, List.append_nil]
  exact (List.sublist_append_left ..).subperm

theorem drain (h : p.Custody out) : (Pool.drain.on p).2.Custody out :=
  h.emptied (by rw [drain_snd]) (drain_spares p).nextId

theorem terminate (h : p.Custody out) : (Pool.terminate.on p).2.Custody out := by
  rw [Pool.terminate, on_modify_bind]
  exact Custody.drain (p := { p with terminated := true }) ⟨h.distinct, h.given, h.keys⟩

/-- What is out is none of what the pool keeps. -/
theorem apart (h : p.Custody out) (ha : a ∈ out) : a.id ∉ p.cachedIds := by
  have hd := h.distinct
  rw [List.map_append, List.nodup_append'] at hd
  exact hd.2.2 (List.mem_map.2 ⟨a, ha, rfl⟩)

/-- What spares all that the pool does not keep leaves the bytes of what is out alone. -/
theorem keeps (h : p.Custody out) (hs : Spares p.cachedIds p p') :
    Device.Keeps out p.device p'.device := fun _ ha => hs.bytes _ (h.apart ha)

/-- A new allocation has the next id. -/
theorem fresh (h : p.Custody out) {d : Device} (ha : p.device.allocate size = .ok (a, d)) :
    Custody { p with device := d } (a :: out) := by
  obtain ⟨-, hd⟩ := Device.allocate_eq_ok_iff.1 ha
  cases hd
  refine ⟨List.nodup_cons.2 ⟨?_, h.distinct⟩, fun {b} hb => ?_, h.keys⟩
  · intro hm
    obtain ⟨b, hb, hid⟩ := List.mem_map.1 hm
    exact Nat.ne_of_lt (h.given hb) hid
  · change b.id < p.device.nextId + 1
    rcases List.mem_cons.1 hb with rfl | hb
    · exact Nat.lt_succ_self _
    · exact Nat.lt_succ_of_lt (h.given hb)

/-- What a call that gives an allocation leaves in custody. -/
def Given (out : List Allocation) : Except DeviceError Allocation × Pool → Prop
  | (.ok a, p) => p.Custody (a :: out)
  | (.error _, p) => p.Custody out

theorem fromDevice (h : p.Custody out) (size : Nat) :
    Given out ((Pool.fromDevice (·.allocate size)).on p) := by
  rw [fromDevice_on]
  cases hd : p.device.allocate size with
  | error e => exact h
  | ok x => exact h.fresh hd

theorem fromDevice_image (h : p.Custody out) (i : Image) :
    Given out ((Pool.fromDevice (·.allocateImage i)).on p) := by
  rw [fromDevice_on]
  cases hd : p.device.allocateImage i with
  | error e => exact h
  | ok x =>
    obtain ⟨size, -, hd⟩ := Device.allocateImage_eq_ok_iff.1 hd
    exact h.fresh hd

theorem taken {q : Pool} (h : p.Custody out) (hc : p.Taken size a q) : q.Custody (a :: out) := by
  refine h.subperm ?_ (Nat.le_of_eq ?_) (hc.free ▸ Table.nodup_keys_insert h.keys)
  · exact (List.perm_middle.symm.trans ((hc.perm h.keys).append_left out)).subperm
  · rw [hc.device]

theorem allocate (h : p.Custody out) (size : Nat) (zero : Bool) :
    Given out ((Pool.allocate size zero).on p) := by
  have supplied {q : Pool} {d : Device} {a : Allocation} (hq : q.Custody out)
      (hd : q.device.allocate size = .ok (a, d)) : Given out (.ok a, q.supplied d) :=
    (hq.fresh hd).withDevice rfl rfl
  have drained {r : Except DeviceError Unit} {q : Pool} (hdrain : Pool.drain.on p = (r, q)) :
      q.Custody out := by
    have hq := h.drain
    rwa [hdrain] at hq
  have hr := allocate_requested p size zero
  generalize (Pool.allocate size zero).on p = x at hr ⊢
  cases hr with
  | terminated _ => exact h
  | fresh _ _ hr =>
    cases hr with
    | granted hd => exact supplied h hd
    | relieved _ hdrain hd => exact supplied (drained hdrain) hd
    | refused _ hdrain _ => exact drained hdrain
    | undrained _ hdrain => exact drained hdrain
  | recycled _ hc _ => exact h.taken hc
  | cleared _ hc _ hf => exact (h.taken hc).rewritten (.fill hf)
  | uncleared _ hc _ _ => exact (h.taken hc).mono List.Subperm.cons_self

/-- What goes back is on a free list, or nobody has it any more. -/
theorem release (h : p.Custody (a :: out)) : ((Pool.release a).on p).2.Custody out := by
  have hleft : p.Custody out := h.mono List.Subperm.cons_self
  rw [Pool.release, on_get_bind]
  split
  · refine h.subperm ?_ (Nat.le_refl _) (Table.nodup_keys_insert h.keys)
    exact (((putBack_perm h.keys rfl).append_left out).trans List.perm_middle).subperm
  · exact hleft.deallocate a

end Custody

end Pool

end FieldCompute
