import FieldCompute.Proofs.Device.Ledger
/-!
# Runs of a pool

A client asks a pool for memory, gives back what it holds and may terminate the pool, in any order
(`PoolRun`). What it holds and what the pool keeps is then all that is live, each part apart from
the others (`PoolUse.Settled`), so no release fails and no byte is lost
(`PoolRun.nothing_aliased_or_lost`).
-/

namespace FieldCompute

open Routine

/-- What a client asks of a pool. -/
inductive PoolCall where
  | allocate (size : Nat) (zero : Bool)
  | release (a : Allocation)
  | terminate
deriving DecidableEq, Repr

/-- A pool with what its client got and has not given back, each with the size it asked for. -/
structure PoolUse where
  pool : Pool
  held : List (Allocation × Nat)

namespace PoolUse

def handles (u : PoolUse) : List Allocation := u.held.map (·.1)

/-- The pool and what is held after a call. What a refused call was to give back stays held. -/
def step (u : PoolUse) : PoolCall → PoolUse
  | .allocate size zero =>
    match (Pool.allocate size zero).on u.pool with
    | (.ok a, pool) => ⟨pool, (a, size) :: u.held⟩
    | (.error _, pool) => ⟨pool, u.held⟩
  | .release a =>
    match (Pool.release a).on u.pool with
    | (.ok _, pool) => ⟨pool, u.held.filter (·.1 ≠ a)⟩
    | (.error _, pool) => ⟨pool, u.held⟩
  | .terminate => ⟨(Pool.terminate.on u.pool).2, u.held⟩

/-- The client gives back only what it holds. -/
def Fair (u : PoolUse) : PoolCall → Prop
  | .release a => a ∈ u.handles
  | _ => True

instance (u : PoolUse) (c : PoolCall) : Decidable (u.Fair c) :=
  match c with
  | .release a => inferInstanceAs (Decidable (a ∈ u.handles))
  | .allocate .. | .terminate => inferInstanceAs (Decidable True)

/-- What is held makes up the ledger of the pool, and each handle is as large as it was asked for. -/
structure Settled (u : PoolUse) : Prop where
  ledger : u.pool.Ledger u.handles
  sizes {a : Allocation} {size : Nat} : (a, size) ∈ u.held → a.size = size

namespace Settled

variable {u : PoolUse} {a : Allocation} {c : PoolCall}

theorem nodup (h : u.Settled) : u.handles.Nodup :=
  (h.ledger.holds.distinct.sublist ((List.sublist_append_left ..).map _)).of_map

/-- Without an allocation the others are held. -/
theorem handles_without (h : u.Settled) (pool : Pool) (a : Allocation) :
    (⟨pool, u.held.filter (·.1 ≠ a)⟩ : PoolUse).handles = u.handles.erase a := by
  rw [h.nodup.erase_eq_filter, handles, handles, List.filter_map]
  congr 1
  exact List.filter_congr fun x _ => by rw [Bool.eq_iff_iff]; simp

/-- What is held can be given back. -/
theorem release (h : u.Settled) (ha : a ∈ u.handles) :
    ∃ pool, (Pool.release a).on u.pool = (.ok (), pool) ∧
      Pool.Balanced u.pool pool (u.handles.erase a) (u.handles.erase a) :=
  (h.ledger.perm (List.perm_cons_erase ha).symm).release

/-- A call keeps the pool and its client settled, and does not bring a pool back. -/
theorem step (h : u.Settled) (hc : u.Fair c) : (u.step c).Settled ∧
    (u.pool.terminated = true → (u.step c).pool.terminated = true) := by
  cases c with
  | allocate size zero =>
    have hs := h.ledger.allocate size zero
    rw [PoolUse.step]
    generalize (Pool.allocate size zero).on u.pool = r at hs ⊢
    cases hs with
    | refused hb => exact ⟨⟨hb.ledger, h.sizes⟩, hb.ends⟩
    | granted hb hsize =>
      refine ⟨⟨hb.ledger, fun hx => ?_⟩, hb.ends⟩
      rcases List.mem_cons.1 hx with hx | hx
      · cases hx
        exact hsize
      · exact h.sizes hx
  | release a =>
    obtain ⟨pool, hr, hb⟩ := h.release hc
    rw [PoolUse.step, hr]
    exact ⟨⟨h.handles_without pool a ▸ hb.ledger, fun hx => h.sizes (List.mem_of_mem_filter hx)⟩,
      hb.ends⟩
  | terminate =>
    obtain ⟨pool, ht, hb, -⟩ := h.ledger.terminate
    rw [PoolUse.step, ht]
    exact ⟨⟨hb.ledger, h.sizes⟩, hb.ends⟩

/-- The bytes in use are those that are held and those that are kept. -/
theorem allocated (h : u.Settled) : u.pool.device.allocated =
    (u.held.map (·.2)).sum + (u.pool.cachedAllocations.map (·.size)).sum := by
  have hheld : u.handles.map (·.size) = u.held.map (·.2) := by
    rw [handles, List.map_map]
    exact List.map_congr_left fun x hx => h.sizes hx
  rw [h.ledger.holds.allocated, List.map_append, List.sum_append, hheld]

end Settled

end PoolUse

/-- What a pool on a fresh device of a host and its client come to, with the calls on the way
there. -/
inductive PoolRun (limit : Option Nat) (capacity reservable : Nat) :
    PoolUse → List PoolCall → Prop
  | start : PoolRun limit capacity reservable ⟨.create (.create limit reservable) capacity, []⟩ []
  | step {u : PoolUse} {calls : List PoolCall} (c : PoolCall) :
    PoolRun limit capacity reservable u calls → u.Fair c →
      PoolRun limit capacity reservable (u.step c) (calls ++ [c])

namespace PoolRun

variable {limit : Option Nat} {capacity reservable : Nat} {u : PoolUse} {calls : List PoolCall}

theorem settled (r : PoolRun limit capacity reservable u calls) : u.Settled := by
  induction r with
  | start => exact ⟨.create limit capacity reservable, fun hx => (by cases hx)⟩
  | step c _ hc ih => exact (ih.step hc).1

/-- Once terminated, a pool stays so. -/
theorem terminated (r : PoolRun limit capacity reservable u calls) (h : .terminate ∈ calls) :
    u.pool.terminated = true := by
  induction r with
  | start => cases h
  | @step u calls c r hc ih =>
    rcases List.mem_append.1 h with h | h
    · exact (r.settled.step hc).2 (ih h)
    · obtain rfl := List.mem_singleton.1 h
      obtain ⟨pool, ht, -, hend⟩ := r.settled.ledger.terminate
      rw [PoolUse.step, ht]
      exact hend

/-- What is held and what is kept are apart from each other, what is held is live and as large as it
was asked for, and together they are the bytes in use. A release and terminating succeed, and a
request fails for want of memory only. Once the pool is terminated, only what is held is in use. -/
theorem nothing_aliased_or_lost (r : PoolRun limit capacity reservable u calls) :
    ((u.handles ++ u.pool.cachedAllocations).map (·.id)).Nodup ∧
    (∀ a size, (a, size) ∈ u.held → a.size = size ∧
      ∃ data, u.pool.device.memory.find? a.id = some data ∧ data.size = size) ∧
    u.pool.device.allocated =
      (u.held.map (·.2)).sum + (u.pool.cachedAllocations.map (·.size)).sum ∧
    (∀ a ∈ u.handles, ((Pool.release a).on u.pool).1 = .ok ()) ∧
    (Pool.terminate.on u.pool).1 = .ok () ∧
    (∀ size zero e, ((Pool.allocate size zero).on u.pool).1 = .error e →
      (∃ requested inUse limit, e = .outOfMemory requested inUse limit) ∨
        (∃ requested, e = .hostAllocation requested) ∨ e = .poolTerminated) ∧
    (.terminate ∈ calls → u.pool.cachedAllocations = [] ∧
      u.pool.device.allocated = (u.held.map (·.2)).sum) := by
  have h := r.settled
  refine ⟨h.ledger.holds.distinct, fun a size ha => ?_, h.allocated, fun a ha => ?_, ?_,
    fun size zero e he => ?_, fun ht => ?_⟩
  · have hsize := h.sizes ha
    obtain ⟨data, hd, hs⟩ := h.ledger.live (List.mem_map.2 ⟨_, ha, rfl⟩)
    exact ⟨hsize, data, hd, hs.trans hsize⟩
  · obtain ⟨pool, hr, -⟩ := h.release ha
    rw [hr]
  · obtain ⟨pool, ht, -⟩ := h.ledger.terminate
    rw [ht]
  · have hs := h.ledger.allocate size zero
    generalize (Pool.allocate size zero).on u.pool = x at hs he
    cases hs with
    | granted => cases he
    | refused _ hshort =>
      cases he
      cases e with
      | outOfMemory requested inUse limit => exact .inl ⟨_, _, _, rfl⟩
      | hostAllocation requested => exact .inr (.inl ⟨_, rfl⟩)
      | poolTerminated => exact .inr (.inr rfl)
      | _ => exact hshort.elim
  · have hnone := h.ledger.ended (r.terminated ht)
    refine ⟨hnone, ?_⟩
    rw [h.allocated, hnone]
    rfl

/-- Two allocations fill the device. One is kept on its free list until a request of another size
drains it; the other one is given back after the pool has ended. -/
theorem nothing_aliased_or_lost_drained : ∃ u,
    PoolRun (some 64) 1 (2 ^ 20) u [.allocate 32 false, .allocate 32 false, .release ⟨0, 32⟩,
      .allocate 16 true, .terminate, .release ⟨1, 32⟩] ∧
    u.held = [(⟨2, 16⟩, 16)] ∧ u.pool.device.allocated = 16 := by
  have full : PoolRun (some 64) 1 (2 ^ 20) _ _ :=
    (start.step (.allocate 32 false) trivial).step (.allocate 32 false) trivial
  have kept := full.step (.release ⟨0, 32⟩) (by decide)
  have drained := (kept.step (.allocate 16 true) trivial).step .terminate trivial
  have ended := drained.step (.release ⟨1, 32⟩) (by decide)
  refine ⟨_, ended, ?_, ?_⟩
  · decide
  · rw [(ended.nothing_aliased_or_lost.2.2.2.2.2.2 (by decide)).2]
    decide

end PoolRun

end FieldCompute
