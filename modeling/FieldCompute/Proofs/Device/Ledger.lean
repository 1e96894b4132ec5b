import FieldCompute.Proofs.Device.Memory
import FieldCompute.Proofs.Device.Requests
/-!
# Who holds what

`Device.Holds` says of a list of allocations that these are all that are live, each as large as its
handle says and apart from the others. `Pool.Ledger` says so of the allocations that are out
together with those on the free lists, each of which is of one size (`Pool.Sorted`). Every call of
the pool keeps the ledger in balance and leaves the bytes of what is out alone (`Ledger.allocate`,
`Ledger.release`, `Ledger.terminate`).
-/

namespace FieldCompute

/-! ## The device -/

namespace Device

variable {d d' d'' : Device} {l l' : List Allocation} {a : Allocation} {size : Nat}

/-- These allocations are live and no others, each under an id of its own and as large as its handle
says. -/
structure Holds (d : Device) (l : List Allocation) : Prop where
  distinct : (l.map (·.id)).Nodup
  live {a : Allocation} : a ∈ l → ∃ data, d.memory.find? a.id = some data ∧ data.size = a.size
  only {id : Nat} {data : Array UInt8} : d.memory.find? id = some data → ∃ a ∈ l, a.id = id
  fresh {id : Nat} {data : Array UInt8} : d.memory.find? id = some data → id < d.nextId
  keys : d.memory.keys.Nodup

/-- What is left of allocations with different ids without the first of them. -/
theorem filter_other (h : ((a :: l).map (·.id)).Nodup) :
    (a :: l).filter (fun b : Allocation => b.id ≠ a.id) = l := by
  rw [List.filter_cons_of_neg (by simp), List.filter_eq_self]
  intro b hb
  simpa using fun hid => (List.nodup_cons.1 h).1 (List.mem_map.2 ⟨b, hb, hid⟩)

theorem filter_perm_erase (h : (l.map (·.id)).Nodup) (ha : a ∈ l) :
    (l.filter fun b : Allocation => b.id ≠ a.id).Perm (l.erase a) := by
  have hp := List.perm_cons_erase ha
  have hrest := hp.filter fun b : Allocation => b.id ≠ a.id
  rwa [filter_other ((hp.map (·.id)).nodup_iff.1 h)] at hrest

/-- The bytes of the allocations are the same on both devices. -/
def Keeps (l : List Allocation) (d d' : Device) : Prop :=
  ∀ a ∈ l, d'.memory.find? a.id = d.memory.find? a.id

theorem Keeps.refl (l : List Allocation) (d : Device) : Keeps l d d := fun _ _ => rfl

theorem Keeps.trans (h : Keeps l d d') (h' : Keeps l d' d'') : Keeps l d d'' :=
  fun a ha => (h' a ha).trans (h a ha)

theorem Keeps.subset (h : Keeps l d d') (hs : l' ⊆ l) : Keeps l' d d' := fun a ha => h a (hs ha)

namespace Holds

theorem perm (h : d.Holds l) (hp : l'.Perm l) : d.Holds l' where
  distinct := (hp.map _).nodup_iff.2 h.distinct
  live ha := h.live (hp.mem_iff.1 ha)
  only hf := by
    obtain ⟨a, ha, hid⟩ := h.only hf
    exact ⟨a, hp.mem_iff.2 ha, hid⟩
  fresh := h.fresh
  keys := h.keys

theorem rewritten (h : d.Holds l) (hr : d.Rewritten d') : d'.Holds l := by
  have found {id : Nat} {data' : Array UInt8} (hf : d'.memory.find? id = some data') :
      ∃ data, d.memory.find? id = some data := by
    rcases hr.find?_cases id with ⟨hnone, -⟩ | ⟨data, -, hd, -, -⟩
    · rw [hf] at hnone
      cases hnone
    · exact ⟨data, hd⟩
  refine ⟨h.distinct, fun {a} ha => ?_, fun hf => ?_, fun hf => ?_, hr.keys ▸ h.keys⟩
  · obtain ⟨data, hd, hs⟩ := h.live ha
    rcases hr.find?_cases a.id with ⟨-, hnone⟩ | ⟨data₀, data', hd₀, hd', hs'⟩
    · rw [hd] at hnone
      cases hnone
    · obtain rfl := Option.some.inj (hd.symm.trans hd₀)
      exact ⟨data', hd', hs'.trans hs⟩
  · obtain ⟨data, hd⟩ := found hf
    exact h.only hd
  · obtain ⟨data, hd⟩ := found hf
    rw [hr.nextId]
    exact h.fresh hd

/-- The table of the device lists the allocations. -/
theorem entries_perm (h : d.Holds l) :
    (d.memory.entries.map fun e => (⟨e.1, e.2.size⟩ : Allocation)).Perm l := by
  have hids : (d.memory.entries.map fun e => (⟨e.1, e.2.size⟩ : Allocation)).map (·.id) =
      d.memory.keys := by simp [Table.keys]
  have hleft := (hids ▸ h.keys).of_map
  refine (List.perm_ext_iff_of_nodup hleft h.distinct.of_map).2 fun a => ⟨fun ha => ?_, fun ha => ?_⟩
  · obtain ⟨⟨id, data⟩, he, rfl⟩ := List.mem_map.1 ha
    have hd := Table.find?_of_mem h.keys he
    obtain ⟨b, hb, rfl⟩ := h.only hd
    obtain ⟨data', hd', hs⟩ := h.live hb
    obtain rfl := Option.some.inj (hd.symm.trans hd')
    rwa [hs]
  · obtain ⟨data, hd, hs⟩ := h.live ha
    exact List.mem_map.2 ⟨_, Table.mem_of_find? hd, by rw [hs]⟩

/-- The bytes in use are those of the allocations. -/
theorem allocated (h : d.Holds l) : d.allocated = (l.map (·.size)).sum := by
  rw [Device.allocated, Table.values, ← (h.entries_perm.map (·.size)).sum_nat, List.map_map,
    List.map_map]
  rfl

/-- A new allocation is all zero and apart from the others. -/
theorem allocate (h : d.Holds l) (ha : d.allocate size = .ok (a, d')) :
    d'.Holds (a :: l) ∧ a.size = size ∧
      d'.memory.find? a.id = some (.replicate size 0) ∧ Keeps l d d' := by
  have hnew {b : Allocation} (hb : b ∈ l) : b.id ≠ d.nextId := by
    obtain ⟨data, hd, -⟩ := h.live hb
    exact Nat.ne_of_lt (h.fresh hd)
  unfold Device.allocate at ha
  split at ha
  · cases ha
  split at ha <;> cases ha
  refine ⟨⟨?_, fun hb => ?_, fun {id data} hf => ?_, fun {id data} hf => ?_,
    Table.nodup_keys_insert h.keys⟩, rfl, Table.find?_insert_self .., fun b hb =>
    Table.find?_insert_of_ne (hnew hb)⟩
  · rw [List.map_cons, List.nodup_cons]
    refine ⟨?_, h.distinct⟩
    intro hm
    obtain ⟨b, hb, hid⟩ := List.mem_map.1 hm
    exact hnew hb hid
  · rcases List.mem_cons.1 hb with rfl | hb
    · exact ⟨_, Table.find?_insert_self .., by simp⟩
    · simp only [Table.find?_insert_of_ne (hnew hb)]
      exact h.live hb
  · rw [Table.find?_insert] at hf
    split at hf
    · exact ⟨_, List.mem_cons_self, by symm; assumption⟩
    · obtain ⟨b, hb, hid⟩ := h.only hf
      exact ⟨b, List.mem_cons_of_mem _ hb, hid⟩
  · change id < d.nextId + 1
    rw [Table.find?_insert] at hf
    split at hf
    · omega
    · exact Nat.lt_succ_of_lt (h.fresh hf)

/-- What is left when memory goes back is what has another id. -/
theorem without (h : d.Holds l) (hd : d.deallocate a = .ok d') :
    d'.Holds (l.filter (·.id ≠ a.id)) ∧ Keeps (l.filter (·.id ≠ a.id)) d d' := by
  unfold deallocate at hd
  split at hd <;> cases hd
  have hkeeps : Keeps (l.filter (·.id ≠ a.id)) d { d with memory := d.memory.erase a.id } := by
    intro b hb
    have hne : b.id ≠ a.id := by simpa using (List.mem_filter.1 hb).2
    simp [Table.find?_erase, hne]
  refine ⟨⟨h.distinct.sublist (List.filter_sublist.map _), fun hb => ?_, fun {id data} hf => ?_,
    fun {id data} hf => ?_, Table.nodup_keys_erase h.keys⟩, hkeeps⟩
  · rw [hkeeps _ hb]
    exact h.live (List.mem_of_mem_filter hb)
  · rw [Table.find?_erase] at hf
    split at hf
    · cases hf
    · rename_i hne
      obtain ⟨b, hb, rfl⟩ := h.only hf
      exact ⟨b, List.mem_filter.2 ⟨hb, by simpa using hne⟩, rfl⟩
  · rw [Table.find?_erase] at hf
    split at hf
    · cases hf
    · exact h.fresh hf

theorem isLive (h : d.Holds l) (ha : a ∈ l) : d.isLive a.id = true := by
  obtain ⟨data, hd, -⟩ := h.live ha
  rw [Device.isLive, Table.contains_eq_isSome, hd]
  rfl

theorem deallocate (h : d.Holds (a :: l)) :
    ∃ d', d.deallocate a = .ok d' ∧ d'.Holds l ∧ Keeps l d d' := by
  have hd : d.deallocate a = .ok { d with memory := d.memory.erase a.id } := by
    rw [Device.deallocate, if_pos (h.isLive List.mem_cons_self)]
    rfl
  have hleft := h.without hd
  rw [filter_other h.distinct] at hleft
  exact ⟨_, hd, hleft⟩

/-- An allocation can be filled with zeros, and the others do not change. -/
theorem clear (h : d.Holds (a :: l)) :
    ∃ d', d.fill a 0 = .ok d' ∧ d'.Holds (a :: l) ∧
      d'.memory.find? a.id = some (.replicate a.size 0) ∧ Keeps l d d' := by
  obtain ⟨data, hd, hs⟩ := h.live List.mem_cons_self
  have hfill : d.fill a 0 = .ok _ := fill_eq_ok_iff.2 ⟨data, hd, Nat.le_of_eq hs.symm, rfl⟩
  refine ⟨_, hfill, h.rewritten (.fill hfill), ?_, ?_⟩
  · simp only [Table.find?_insert_self, Option.some.injEq]
    rw [patched_all (by simpa using hs), repeated_zero, List.toArray_replicate]
  · intro b hb
    apply Table.find?_insert_of_ne
    intro hid
    exact (List.nodup_cons.1 h.distinct).1 (List.mem_map.2 ⟨b, hb, hid⟩)

end Holds

/-- A device refuses memory beyond its limit and what the host cannot reserve. -/
theorem allocate_eq_error {e : DeviceError} (h : d.allocate size = .error e) :
    (∃ requested inUse limit, e = .outOfMemory requested inUse limit) ∨
      ∃ requested, e = .hostAllocation requested := by
  unfold allocate at h
  split at h
  · cases h
    exact .inl ⟨_, _, _, rfl⟩
  split at h <;> cases h
  exact .inr ⟨_, rfl⟩

end Device

/-! ## The pool -/

/-- There is no memory to be had. -/
def DeviceError.IsShortage : DeviceError → Prop
  | .outOfMemory .. | .hostAllocation _ | .poolTerminated => True
  | _ => False

namespace Pool

open Routine Device

variable {p p' : Pool} {out : List Allocation} {a : Allocation} {size : Nat}

/-- A device that has no memory to give says so. -/
theorem allocate_shortage {e : DeviceError} (h : p.device.allocate size = .error e) :
    e.IsShortage := by
  rcases allocate_eq_error h with ⟨_, _, _, rfl⟩ | ⟨_, rfl⟩ <;> trivial

/-- The allocations `out` and those on the free lists are all that is live, each apart from the
others. Every free list is of one size, and a pool that is terminated has none. -/
structure Ledger (p : Pool) (out : List Allocation) : Prop where
  holds : p.device.Holds (out ++ p.cachedAllocations)
  sorted {size : Nat} {a : Allocation} : a ∈ p.bucket size → a.size = size
  keys : p.free.keys.Nodup
  ended : p.terminated = true → p.cachedAllocations = []

/-- What a call of the pool comes to for allocations that it does not work on. -/
structure Balanced (p p' : Pool) (out out' : List Allocation) : Prop where
  ledger : p'.Ledger out'
  keeps : Keeps out p.device p'.device
  ends : p.terminated = true → p'.terminated = true

theorem Ledger.perm {out' : List Allocation} (h : p.Ledger out) (hp : out'.Perm out) :
    p.Ledger out' := { h with holds := h.holds.perm (hp.append_right _) }

theorem Balanced.mono {l l' out' : List Allocation} (h : Balanced p p' l l') (hs : out ⊆ l)
    (hp : out'.Perm l') : Balanced p p' out out' :=
  ⟨h.ledger.perm hp, h.keeps.subset hs, h.ends⟩

theorem Ledger.balanced (h : p.Ledger out) : Balanced p p out out := ⟨h, .refl _ _, id⟩

/-- What a request for memory comes to. -/
inductive Supplied (p : Pool) (out : List Allocation) (size : Nat) (zero : Bool) :
    Except DeviceError Allocation × Pool → Prop
  | granted {p' : Pool} {a : Allocation} :
    Balanced p p' out (a :: out) → a.size = size →
    (zero = true → p'.device.memory.find? a.id = some (.replicate size 0)) →
    Supplied p out size zero (.ok a, p')
  | refused {p' : Pool} {e : DeviceError} : Balanced p p' out out → e.IsShortage →
    Supplied p out size zero (.error e, p')

theorem cachedAllocations_perm (h : p.free.keys.Nodup) (size : Nat) :
    p.cachedAllocations.Perm (p.bucket size ++ (p.free.erase size).values.flatten) := by
  unfold cachedAllocations bucket
  cases hs : p.free.find? size with
  | none => rw [Table.erase_eq_self hs]; rfl
  | some l => exact (Table.values_erase_perm h hs).flatten

theorem insert_perm (h : p.free.keys.Nodup) (size : Nat) (l : List Allocation) :
    (p.free.insert size l).values.flatten.Perm (l ++ (p.free.erase size).values.flatten) :=
  (Table.values_insert_perm h).flatten

/-- What is taken off a free list was kept. -/
theorem Taken.perm {q : Pool} (hc : p.Taken size a q) (h : p.free.keys.Nodup) :
    (a :: q.cachedAllocations).Perm p.cachedAllocations := by
  have hcached := cachedAllocations_perm h size
  rw [← List.dropLast_append_getLast? a hc.latest, List.append_assoc] at hcached
  refine .trans ?_ (List.perm_middle.symm.trans hcached.symm)
  rw [cachedAllocations, hc.free]
  exact (insert_perm h size (p.bucket size).dropLast).cons a

/-- What is put on a free list is kept beside what was. -/
theorem putBack_perm {q : Pool} (h : p.free.keys.Nodup)
    (hq : q.free = p.free.insert a.size (p.bucket a.size ++ [a])) :
    q.cachedAllocations.Perm (a :: p.cachedAllocations) := by
  rw [cachedAllocations, hq]
  refine (insert_perm h a.size (p.bucket a.size ++ [a])).trans ?_
  rw [List.append_assoc]
  exact List.perm_middle.trans ((cachedAllocations_perm h a.size).symm.cons a)

theorem bucket_insert {q : Pool} {l : List Allocation} {other : Nat}
    (hq : q.free = p.free.insert size l) :
    q.bucket other = if other = size then l else p.bucket other := by
  rw [bucket, hq, Table.find?_insert]
  split <;> rfl

/-- Every free list is of one size. -/
def Sorted (p : Pool) : Prop := ∀ size, ∀ a ∈ p.bucket size, a.size = size

namespace Sorted

theorem of_free (h : p.Sorted) (hf : p'.free = p.free) : p'.Sorted := by
  intro size a ha
  rw [bucket, hf] at ha
  exact h size a ha

theorem of_empty (hf : p.free = .empty) : p.Sorted := by
  intro size a ha
  rw [bucket, hf] at ha
  cases ha

theorem insert (h : p.Sorted) (size : Nat) {l : List Allocation} (hl : ∀ a ∈ l, a.size = size)
    (hf : p'.free = p.free.insert size l) : p'.Sorted := by
  intro other a ha
  rw [bucket_insert hf] at ha
  split at ha
  · subst other
    exact hl a ha
  · exact h other a ha

theorem left {q : Pool} (h : p.Sorted) (hc : p.Taken size a q) : q.Sorted :=
  h.insert size (fun b hb => h size b (List.dropLast_subset _ hb)) hc.free

theorem putBack (h : p.Sorted)
    (hf : p'.free = p.free.insert a.size (p.bucket a.size ++ [a])) : p'.Sorted := by
  refine h.insert a.size (fun b hb => ?_) hf
  rcases List.mem_append.1 hb with hb | hb
  · exact h _ b hb
  · rw [List.mem_singleton.1 hb]

end Sorted

namespace Ledger

theorem create (limit : Option Nat) (capacity reservable : Nat) :
    (Pool.create (.create limit reservable) capacity).Ledger [] :=
  ⟨⟨List.nodup_nil, fun ha => (by cases ha), fun hf => (by cases hf), fun hf => (by cases hf),
    List.nodup_nil⟩, fun ha => (by cases ha), List.nodup_nil, fun _ => rfl⟩

theorem live (h : p.Ledger out) (ha : a ∈ out) :
    ∃ data, p.device.memory.find? a.id = some data ∧ data.size = a.size :=
  h.holds.live (List.mem_append_left _ ha)

/-- Only the device is another one. -/
theorem withDevice {d : Device} {out' : List Allocation} (h : p.Ledger out)
    (hd : d.Holds (out' ++ p.cachedAllocations)) : ({ p with device := d } : Pool).Ledger out' :=
  ⟨hd, h.sorted, h.keys, h.ended⟩

/-- The device gives an allocation. -/
theorem granted {d : Device} (h : p.Ledger out) (ha : p.device.allocate size = .ok (a, d)) :
    Balanced p { p with device := d } out (a :: out) ∧ a.size = size ∧
      d.memory.find? a.id = some (.replicate size 0) := by
  obtain ⟨hold, hs, hzero, hk⟩ := h.holds.allocate ha
  exact ⟨⟨h.withDevice hold, hk.subset (List.subset_append_left ..), id⟩, hs, hzero⟩

theorem fromDevice (h : p.Ledger out)
    (ha : (Pool.fromDevice (·.allocate size)).on p = (.ok a, p')) :
    Balanced p p' out (a :: out) ∧ a.size = size ∧
      p'.device.memory.find? a.id = some (.replicate size 0) := by
  rw [fromDevice_on] at ha
  cases hd : p.device.allocate size with
  | error e => rw [hd] at ha; cases ha
  | ok r =>
    rw [hd] at ha
    cases ha
    exact h.granted hd

/-- An image is memory of the device. -/
theorem fromDevice_image {i : Image} (h : p.Ledger out)
    (ha : (Pool.fromDevice (·.allocateImage i)).on p = (.ok a, p')) :
    Balanced p p' out (a :: out) ∧ i.bytes? = some a.size := by
  rw [fromDevice_on, Device.allocateImage] at ha
  cases hb : i.bytes? with
  | none => rw [hb] at ha; cases ha
  | some size =>
    rw [hb, ← fromDevice_on (·.allocate size)] at ha
    obtain ⟨hbal, hs, -⟩ := h.fromDevice ha
    exact ⟨hbal, congrArg some hs.symm⟩

/-- Giving back allocations one after the other. -/
theorem deallocateAll {l : List Allocation} (h : p.device.Holds (out ++ l)) :
    ∃ d, (l.forM fun a => onDevice (·.deallocate a)).on p = (.ok (), { p with device := d }) ∧
      d.Holds out ∧ Keeps out p.device d := by
  induction l generalizing p with
  | nil => exact ⟨p.device, rfl, by simpa using h, .refl _ _⟩
  | cons a l ih =>
    obtain ⟨d, hd, hold, hk⟩ := (h.perm List.perm_middle.symm).deallocate
    have hon : (onDevice (·.deallocate a)).on p = (.ok (), { p with device := d }) := by
      rw [onDevice_on, hd]
    obtain ⟨d', hd', hold', hk'⟩ := ih (p := { p with device := d }) hold
    refine ⟨d', ?_, hold', (hk.subset (List.subset_append_left ..)).trans hk'⟩
    change (onDevice (·.deallocate a) >>= fun _ =>
      l.forM fun a => onDevice (·.deallocate a)).on p = _
    rw [on_bind_of_ok hon, hd']

/-- Draining gives back what is on the free lists, all of it. -/
theorem drain (h : p.device.Holds (out ++ p.cachedAllocations)) :
    ∃ p', Pool.drain.on p = (.ok (), p') ∧ Balanced p p' out out ∧
      p'.terminated = p.terminated ∧ p'.device.Holds out := by
  rw [Pool.drain, on_get_bind, on_set_bind]
  obtain ⟨d, hd, hold, hk⟩ := deallocateAll
    (p := { p with free := .empty, stats := { p.stats with cached := 0 } }) h
  have hout : d.Holds (out ++ []) := by rwa [List.append_nil]
  exact ⟨_, hd, ⟨⟨hout, fun ha => (by cases ha), List.nodup_nil, fun _ => rfl⟩, hk, id⟩, rfl, hold⟩

/-- Whatever is on the free lists, terminating succeeds. -/
theorem terminate (h : p.Ledger out) :
    ∃ p', Pool.terminate.on p = (.ok (), p') ∧ Balanced p p' out out ∧ p'.terminated = true := by
  obtain ⟨p', hd, hb, ht, -⟩ := drain (p := { p with terminated := true }) h.holds
  rw [Pool.terminate, on_modify_bind]
  exact ⟨p', hd, ⟨hb.ledger, hb.keeps, fun _ => ht⟩, ht⟩

theorem allocateFresh {x : Except DeviceError Allocation × Pool} (h : p.Ledger out) (zero : Bool)
    (hr : FreshlyRequested p size x) : Supplied p out size zero x := by
  -- What is out together with what is kept can be drained.
  obtain ⟨q', hdrain', hq', -⟩ := drain h.holds
  cases hr with
  | granted hd =>
    obtain ⟨hq, hs, hzero⟩ := h.granted hd
    exact .granted ⟨{ hq.ledger with }, hq.keeps, hq.ends⟩ hs fun _ => hzero
  | relieved he hdrain hd =>
    cases hdrain'.symm.trans hdrain
    obtain ⟨hq, hs, hzero⟩ := hq'.ledger.granted hd
    exact .granted ⟨{ hq.ledger with }, hq'.keeps.trans hq.keeps, hq.ends ∘ hq'.ends⟩ hs
      fun _ => hzero
  | refused he hdrain hd =>
    cases hdrain'.symm.trans hdrain
    exact .refused hq' (allocate_shortage he)
  | undrained he hdrain => cases hdrain'.symm.trans hdrain

theorem taken {q : Pool} (h : p.Ledger out) (ht : p.terminated = false)
    (hc : p.Taken size a q) : q.Ledger (a :: out) ∧ a.size = size := by
  have hsorted : p.Sorted := fun _ _ => h.sorted
  refine ⟨⟨?_, fun {other b} => hsorted.left hc other b, hc.free ▸ Table.nodup_keys_insert h.keys,
    fun hq => ?_⟩, h.sorted (List.mem_of_getLast? hc.latest)⟩
  · -- The same allocations are held as before: one of them has changed sides.
    rw [hc.device]
    exact h.holds.perm (List.perm_middle.symm.trans ((hc.perm h.keys).append_left out))
  · rw [hc.terminated, ht] at hq
    cases hq

/-- Whatever is asked for, what the pool gives is nobody else's. -/
theorem allocate (h : p.Ledger out) (size : Nat) (zero : Bool) :
    Supplied p out size zero ((Pool.allocate size zero).on p) := by
  have hr := allocate_requested p size zero
  generalize (Pool.allocate size zero).on p = x at hr ⊢
  cases hr with
  | terminated _ => exact .refused h.balanced trivial
  | fresh _ _ hr => exact h.allocateFresh zero hr
  | recycled ht hc hz =>
    obtain ⟨hq, hs⟩ := h.taken ht hc
    exact .granted ⟨hq, hc.device ▸ .refl _ _, hc.terminated ▸ id⟩ hs fun hz' => by simp [hz] at hz'
  | cleared ht hc _ hf =>
    obtain ⟨hq, hs⟩ := h.taken ht hc
    -- A recycled allocation is cleared only after it has left its free list.
    obtain ⟨d, hfill, hold, hzero, hk⟩ := Holds.clear hq.holds
    cases hfill.symm.trans hf
    refine .granted ⟨hq.withDevice hold, ?_, hc.terminated ▸ id⟩ hs fun _ => hs ▸ hzero
    exact hc.device ▸ hk.subset (List.subset_append_left ..)
  | uncleared ht hc _ hf =>
    obtain ⟨d, hfill, -⟩ := Holds.clear (h.taken ht hc).1.holds
    cases hfill.symm.trans hf

/-- What is out can be given back. -/
theorem release (h : p.Ledger (a :: out)) :
    ∃ p', (Pool.release a).on p = (.ok (), p') ∧ Balanced p p' out out := by
  rw [Pool.release, on_get_bind]
  split
  · rename_i hkeep
    have ht : ¬p.terminated = true := by
      intro ht
      simp [ht] at hkeep
    have hsorted : p.Sorted := fun _ _ => h.sorted
    refine ⟨_, rfl, ⟨?_, fun {other b} => hsorted.putBack rfl other b,
      Table.nodup_keys_insert h.keys, fun hq => absurd hq ht⟩, .refl _ _, id⟩
    exact h.holds.perm (((putBack_perm h.keys rfl).append_left out).trans List.perm_middle)
  · obtain ⟨d, hd, hold, hk⟩ := Holds.deallocate h.holds
    rw [onDevice_on, hd]
    exact ⟨_, rfl, h.withDevice hold, hk.subset (List.subset_append_left ..), id⟩

/-- What is on no free list can go back to the device past the pool. -/
theorem free (h : p.Ledger out) (ha : ∀ b ∈ p.cachedAllocations, b.id ≠ a.id)
    (hd : (onDevice (·.deallocate a)).on p = (.ok (), p')) :
    p'.Ledger (out.filter (·.id ≠ a.id)) ∧
      Keeps (out.filter (·.id ≠ a.id)) p.device p'.device := by
  rw [onDevice_on] at hd
  split at hd <;> cases hd
  rename_i d hd
  obtain ⟨hleft, hkeeps⟩ := h.holds.without hd
  have hcached : p.cachedAllocations.filter (fun b : Allocation => b.id ≠ a.id) =
      p.cachedAllocations := List.filter_eq_self.2 fun b hb => by simpa using ha b hb
  rw [List.filter_append, hcached] at hleft hkeeps
  exact ⟨h.withDevice hleft, hkeeps.subset (List.subset_append_left ..)⟩

end Ledger

end Pool

end FieldCompute
