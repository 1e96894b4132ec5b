import FieldCompute.Proofs.Device.Admission
/-!
# A pool on a shared device

Clients ask a pool for memory and give it back, and ask the device under it for memory of its own,
write and fill, in any order (`SharedRun`). In all of these states a request is admitted by the
bytes that the pool does not keep, and what is handed out zeroed reads as zero, whoever had it
before (`SharedRun.admission`).
-/

namespace FieldCompute

open Routine Device

/-- What clients ask of a pool and of the device under it. -/
inductive SharedCall where
  | allocate (size : Nat) (zero : Bool)
  | release (a : Allocation)
  | terminate
  | deviceAllocate (size : Nat)
  | deviceImage (i : Image)
  | deviceFree (a : Allocation)
  | deviceWrite (p : Pointer) (bytes : List UInt8)
  | deviceFill (a : Allocation) (pattern : UInt32)
deriving Repr

/-- A pool with what clients got from it and its device and have not given back. -/
structure SharedUse where
  pool : Pool
  held : List Allocation

namespace SharedUse

/-- What is held after a request for memory. -/
def take (u : SharedUse) : Except DeviceError Allocation × Pool → SharedUse
  | (.ok a, pool) => ⟨pool, a :: u.held⟩
  | (.error _, pool) => ⟨pool, u.held⟩

/-- What is held after an attempt to give memory back. -/
def give (u : SharedUse) (a : Allocation) : Except DeviceError Unit × Pool → SharedUse
  | (.ok _, pool) => ⟨pool, u.held.filter (·.id ≠ a.id)⟩
  | (.error _, pool) => ⟨pool, u.held⟩

/-- The pool and what is held after a call. -/
def step (u : SharedUse) : SharedCall → SharedUse
  | .allocate size zero => u.take ((Pool.allocate size zero).on u.pool)
  | .release a => u.give a ((Pool.release a).on u.pool)
  | .terminate => ⟨(Pool.terminate.on u.pool).2, u.held⟩
  | .deviceAllocate size => u.take ((Pool.fromDevice (·.allocate size)).on u.pool)
  | .deviceImage i => u.take ((Pool.fromDevice (·.allocateImage i)).on u.pool)
  | .deviceFree a => u.give a ((Pool.onDevice (·.deallocate a)).on u.pool)
  | .deviceWrite p bytes => ⟨((Pool.onDevice (·.write p bytes)).on u.pool).2, u.held⟩
  | .deviceFill a pattern => ⟨((Pool.onDevice (·.fill a pattern)).on u.pool).2, u.held⟩

/-- Only what is held is given to the pool, and nobody frees what the pool keeps. -/
def Fair (u : SharedUse) : SharedCall → Prop
  | .release a => a ∈ u.held
  | .deviceFree a => ∀ b ∈ u.pool.cachedAllocations, b.id ≠ a.id
  | _ => True

/-- What is held makes up the ledger of the pool, and the device keeps to its limit, on its host. -/
structure Settled (limit : Option Nat) (reservable : Nat) (u : SharedUse) : Prop where
  ledger : u.pool.Ledger u.held
  orderly : u.pool.device.Orderly
  limit : u.pool.device.limit = limit
  reservable : u.pool.device.reservable = reservable

variable {limit : Option Nat} {reservable : Nat} {u : SharedUse} {c : SharedCall}

@[simp] theorem pool_take (u : SharedUse) (x : Except DeviceError Allocation × Pool) :
    (u.take x).pool = x.2 := by
  obtain ⟨_ | _, _⟩ := x <;> rfl

@[simp] theorem pool_give (u : SharedUse) (a : Allocation) (x : Except DeviceError Unit × Pool) :
    (u.give a x).pool = x.2 := by
  obtain ⟨_ | _, _⟩ := x <;> rfl

/-- Every call but terminating leaves the pool in service. -/
theorem step_serving (u : SharedUse) (hc : c ≠ .terminate) : u.pool.Serving (u.step c).pool := by
  cases c with
  | terminate => exact absurd rfl hc
  | allocate size zero =>
    rw [step, pool_take]
    exact Pool.allocate_serving size zero u.pool
  | release a =>
    rw [step, pool_give]
    exact Pool.release_serving a u.pool
  | deviceAllocate size =>
    rw [step, pool_take]
    exact Pool.fromDevice_serving .allocate u.pool
  | deviceImage i =>
    rw [step, pool_take]
    exact Pool.fromDevice_serving .allocateImage u.pool
  | deviceFree a =>
    rw [step, pool_give]
    exact Pool.onDevice_serving .deallocate u.pool
  | deviceWrite p bytes => exact Pool.onDevice_serving (fun h => .rewritten (.write h)) u.pool
  | deviceFill a pattern => exact Pool.onDevice_serving (fun h => .rewritten (.fill h)) u.pool

theorem step_bounded (u : SharedUse) (c : SharedCall) :
    u.pool.device.Bounded (u.step c).pool.device := by
  by_cases hc : c = .terminate
  · subst hc
    exact Pool.terminate_bounded u.pool
  · exact (u.step_serving hc).device

namespace Settled

/-- A request leaves the ledger in balance. -/
theorem take (h : u.Settled limit reservable) {x : Except DeviceError Allocation × Pool}
    (hok : ∀ {a pool}, x = (.ok a, pool) → pool.Ledger (a :: u.held))
    (herror : ∀ {e pool}, x = (.error e, pool) → pool = u.pool) :
    (u.take x).pool.Ledger (u.take x).held := by
  obtain ⟨e | a, pool⟩ := x
  · obtain rfl := herror rfl
    exact h.ledger
  · exact hok rfl

/-- What a call changes past the pool is bytes. -/
theorem onDevice (h : u.Settled limit reservable) {f : Device → Except DeviceError Device}
    (hf : ∀ {d}, f u.pool.device = .ok d → u.pool.device.Rewritten d) :
    ((Pool.onDevice f).on u.pool).2.Ledger u.held := by
  rw [Pool.onDevice_on]
  cases hd : f u.pool.device with
  | error e => exact h.ledger
  | ok d => exact h.ledger.withDevice (h.ledger.holds.rewritten (hf hd))

theorem ledger_step (h : u.Settled limit reservable) (hc : u.Fair c) :
    (u.step c).pool.Ledger (u.step c).held := by
  cases c with
  | allocate size zero =>
    have hs := h.ledger.allocate size zero
    rw [SharedUse.step]
    generalize (Pool.allocate size zero).on u.pool = x at hs ⊢
    cases hs with
    | granted hb => exact hb.ledger
    | refused hb => exact hb.ledger
  | release a =>
    obtain ⟨pool, hr, hb⟩ := (h.ledger.perm (List.perm_cons_erase hc).symm).release
    have hdistinct := h.ledger.holds.distinct.sublist ((List.sublist_append_left ..).map _)
    rw [SharedUse.step, hr]
    exact hb.ledger.perm (filter_perm_erase hdistinct hc)
  | terminate =>
    obtain ⟨pool, ht, hb, -⟩ := h.ledger.terminate
    rw [SharedUse.step, ht]
    exact hb.ledger
  | deviceAllocate size =>
    exact h.take (fun ha => (h.ledger.fromDevice ha).1.ledger) Pool.fromDevice_error
  | deviceImage i =>
    exact h.take (fun ha => (h.ledger.fromDevice_image ha).1.ledger) Pool.fromDevice_error
  | deviceFree a =>
    rw [SharedUse.step]
    cases hd : (Pool.onDevice (·.deallocate a)).on u.pool with
    | mk r pool =>
      cases r with
      | error e =>
        obtain rfl := Pool.onDevice_error hd
        exact h.ledger
      | ok _ => exact (h.ledger.free hc hd).1
  | deviceWrite p bytes => exact h.onDevice .write
  | deviceFill a pattern => exact h.onDevice .fill

theorem step (h : u.Settled limit reservable) (hc : u.Fair c) :
    (u.step c).Settled limit reservable :=
  have hb := u.step_bounded c
  ⟨h.ledger_step hc, hb.orderly h.orderly, hb.limit.trans h.limit,
    hb.reservable.trans h.reservable⟩

end Settled

end SharedUse

/-- What a pool and a fresh device of a host under it come to, with the calls on the way there. -/
inductive SharedRun (limit : Option Nat) (capacity reservable : Nat) :
    SharedUse → List SharedCall → Prop
  | start : SharedRun limit capacity reservable ⟨.create (.create limit reservable) capacity, []⟩ []
  | step {u : SharedUse} {calls : List SharedCall} (c : SharedCall) :
    SharedRun limit capacity reservable u calls → u.Fair c →
      SharedRun limit capacity reservable (u.step c) (calls ++ [c])

namespace SharedRun

variable {limit : Option Nat} {capacity reservable : Nat} {u : SharedUse} {calls : List SharedCall}

theorem settled (r : SharedRun limit capacity reservable u calls) : u.Settled limit reservable := by
  induction r with
  | start => exact ⟨.create limit capacity reservable, orderly_create limit reservable, rfl, rfl⟩
  | step c _ hc ih => exact ih.step hc

/-- A pool is in service until it is terminated. -/
theorem serving (r : SharedRun limit capacity reservable u calls) (ht : .terminate ∉ calls) :
    u.pool.terminated = false := by
  induction r with
  | start => rfl
  | @step u calls c _ _ ih =>
    rw [List.mem_append, List.mem_singleton, not_or] at ht
    rw [(u.step_serving (Ne.symm ht.2)).terminated]
    exact ih ht.1

/-- Until the pool is terminated it gives memory exactly where the bytes that it does not keep leave
room for it under the limit. What it gives is live and as large as asked for, and zero throughout if
that was asked for, whoever had it before. -/
theorem admission (r : SharedRun limit capacity reservable u calls) (ht : .terminate ∉ calls)
    (size : Nat) (zero : Bool) (hr : (∀ l ∈ limit, u.pool.uncached + size ≤ l) → size ≤ reservable) :
    ((∃ a, ((Pool.allocate size zero).on u.pool).1 = .ok a) ↔
      ∀ l ∈ limit, u.pool.uncached + size ≤ l) ∧
    ∀ a pool, (Pool.allocate size zero).on u.pool = (.ok a, pool) →
      a.size = size ∧
      (∃ data, pool.device.memory.find? a.id = some data ∧ data.size = size) ∧
      (zero = true → ∀ offset length, offset + length ≤ size →
        pool.device.read ⟨a, offset⟩ length = .ok (.replicate length 0)) := by
  have h := r.settled
  have hserving := r.serving ht
  have hlimit := h.limit
  have hhost := h.reservable
  rw [h.ledger.uncached] at hr ⊢
  subst hlimit hhost
  have hadmits := h.ledger.admits h.orderly zero hr
  rw [hserving, eq_self_iff_true, true_and] at hadmits
  refine ⟨hadmits, fun a pool ha => ?_⟩
  have hs := h.ledger.allocate size zero
  rw [ha] at hs
  cases hs with
  | granted hb hsize hzero =>
    obtain ⟨data, hd, hdata⟩ := hb.ledger.live List.mem_cons_self
    refine ⟨hsize, ⟨data, hd, hdata.trans hsize⟩, fun hz offset length hle => ?_⟩
    exact read_zeros (hzero hz) hle

/-- Of the 48 bytes in use, 32 were written by an owner that has given them back. They are zero for
the next one, and a request for 48 bytes drains them. -/
theorem admission_recycled : ∃ u,
    SharedRun (some 64) 1 (2 ^ 20) u [.allocate 32 false, .deviceWrite ⟨⟨0, 32⟩, 0⟩ [1, 2, 3, 4],
      .release ⟨0, 32⟩, .deviceAllocate 16] ∧
    u.pool.device.allocated = 48 ∧ (∃ a, ((Pool.allocate 48 true).on u.pool).1 = .ok a) ∧
    ∃ pool, (Pool.allocate 32 true).on u.pool = (.ok ⟨0, 32⟩, pool) ∧
      pool.device.read ⟨⟨0, 32⟩, 0⟩ 4 = .ok [0, 0, 0, 0] := by
  have written : SharedRun (some 64) 1 (2 ^ 20) _ _ :=
    (start.step (.allocate 32 false) trivial).step (.deviceWrite ⟨⟨0, 32⟩, 0⟩ [1, 2, 3, 4]) trivial
  have kept := written.step (.release ⟨0, 32⟩) (List.mem_singleton.2 (by decide))
  have shared := kept.step (.deviceAllocate 16) trivial
  have running : SharedCall.terminate ∉ [.allocate 32 false,
      .deviceWrite ⟨⟨0, 32⟩, 0⟩ [1, 2, 3, 4], .release ⟨0, 32⟩, .deviceAllocate 16] := by simp
  refine ⟨_, shared, by decide, ?_, ?_⟩
  · exact (shared.admission running 48 true fun _ => by decide).1.2 (by decide)
  · have zeroed := (shared.admission running 32 true fun _ => by decide).2 ⟨0, 32⟩
    refine ⟨_, Prod.ext (by decide) rfl, ?_⟩
    exact (zeroed _ (Prod.ext (by decide) rfl)).2.2 rfl 0 4 (by decide)

end SharedRun

end FieldCompute
