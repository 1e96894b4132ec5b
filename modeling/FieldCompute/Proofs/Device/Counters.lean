import FieldCompute.Proofs.Device.FreeLists
import FieldCompute.Proofs.Device.SharedRuns
/-!
# The counters of a pool

A pool counts what it keeps apart from the free lists themselves. Whatever clients ask of it and of
the device under it, with whatever handles, and whatever becomes of that device, there are only few
ways to change the books (`Pool.Booked`). Each of them keeps the counters in step with the free
lists (`Pool.Counted.booked`), so they are so at all times (`Pool.counters_in_step`).
-/

namespace FieldCompute

open Routine

/-- What can happen to a pool: a call of the pool or of the device under it, with any handle, or
anything at all to the device. Every call sees a device that keeps its word from the call's start to
its end; one that fails on the way is another device, put there before the call and taken away
after it. -/
inductive PoolEvent where
  | call (c : SharedCall)
  | device (d : Device)
deriving Repr

namespace Pool

variable {p p' : Pool} {size : Nat} {a : Allocation} {events : List PoolEvent}

/-- The pool after an event. Who holds what does not matter here. -/
def next (p : Pool) : PoolEvent → Pool
  | .call c => ((⟨p, []⟩ : SharedUse).step c).pool
  | .device d => { p with device := d }

/-- The pool after events, one after the other. -/
def follow (p : Pool) (events : List PoolEvent) : Pool := events.foldl next p

/-! ## What an event does to the books -/

/-- The pool with nothing on its free lists. -/
def emptied (p : Pool) (d : Device) : Pool :=
  { p with device := d, free := .empty, stats := { p.stats with cached := 0 } }

theorem stats_emptied (p : Pool) (d : Device) :
    (p.emptied d).stats = ⟨p.stats.fresh, p.stats.reused, 0⟩ := rfl

theorem stats_supplied (p : Pool) (d : Device) :
    (p.supplied d).stats = ⟨p.stats.fresh + 1, p.stats.reused, p.stats.cached⟩ := rfl

/-- What an event may make of the books. It may leave any device behind. -/
inductive Booked (p : Pool) : Pool → Prop
  | idle (d : Device) : Booked p { p with device := d }
  | supplied (d : Device) : Booked p (p.supplied d)
  | drained (d : Device) : Booked p (p.emptied d)
  /-- The device gives memory after the pool was drained. -/
  | relieved (d d' : Device) : Booked p ((p.emptied d).supplied d')
  | taken {size : Nat} {a : Allocation} {q : Pool} (ht : p.terminated = false)
    (hc : p.Taken size a q) (d : Device) : Booked p { q with device := d }
  | kept {a : Allocation} (ht : p.terminated = false)
    (hroom : (p.bucket a.size).length < p.capacity) :
    Booked p { p with
      free := p.free.insert a.size (p.bucket a.size ++ [a])
      stats := { p.stats with cached := p.stats.cached + 1 } }
  | ended (d : Device) : Booked p { p.emptied d with terminated := true }

theorem Booked.of_beneath (h : p.Beneath p') : p.Booked p' := by
  have hidle : p.Booked { p with device := p'.device } := .idle _
  rwa [← h] at hidle

theorem eq_emptied_of_drain {r : Except DeviceError Unit} (h : drain.on p = (r, p')) :
    p' = p.emptied p'.device := by
  have hdrain := drain_snd p
  rwa [h] at hdrain

theorem allocate_booked (p : Pool) (size : Nat) (zero : Bool) :
    p.Booked ((allocate size zero).on p).2 := by
  have hr := allocate_requested p size zero
  generalize (allocate size zero).on p = x at hr ⊢
  cases hr with
  | terminated _ => exact .idle p.device
  | fresh _ _ hr =>
    cases hr with
    | granted _ => exact .supplied _
    | relieved _ hdrain _ =>
      rw [eq_emptied_of_drain hdrain]
      exact .relieved _ _
    | refused _ hdrain _ =>
      rw [eq_emptied_of_drain hdrain]
      exact .drained _
    | undrained _ hdrain =>
      rw [eq_emptied_of_drain hdrain]
      exact .drained _
  | recycled ht hc _ => exact .taken ht hc _
  | cleared ht hc _ _ => exact .taken ht hc _
  | uncleared ht hc _ _ => exact .taken ht hc _

theorem release_booked (p : Pool) (a : Allocation) : p.Booked ((release a).on p).2 := by
  rw [release, on_get_bind]
  split
  · rename_i hkeep
    rw [Bool.and_eq_true, Bool.not_eq_true', decide_eq_true_eq] at hkeep
    exact .kept hkeep.1 hkeep.2
  · exact .of_beneath (onDevice_beneath _ p)

theorem terminate_booked (p : Pool) : p.Booked (terminate.on p).2 := by
  rw [terminate_snd]
  exact .ended _

/-- Whatever happens, the books change in one of these ways. -/
theorem next_booked (p : Pool) (e : PoolEvent) : p.Booked (p.next e) := by
  cases e with
  | device d => exact .idle d
  | call c =>
    cases c with
    | allocate size zero =>
      rw [next, SharedUse.step, SharedUse.pool_take]
      exact allocate_booked p size zero
    | release a =>
      rw [next, SharedUse.step, SharedUse.pool_give]
      exact release_booked p a
    | terminate => exact terminate_booked p
    | deviceAllocate size =>
      rw [next, SharedUse.step, SharedUse.pool_take]
      exact .of_beneath (fromDevice_beneath _ p)
    | deviceImage i =>
      rw [next, SharedUse.step, SharedUse.pool_take]
      exact .of_beneath (fromDevice_beneath _ p)
    | deviceFree a =>
      rw [next, SharedUse.step, SharedUse.pool_give]
      exact .of_beneath (onDevice_beneath _ p)
    | deviceWrite q bytes => exact .of_beneath (onDevice_beneath _ p)
    | deviceFill a pattern => exact .of_beneath (onDevice_beneath _ p)

/-! ## In step -/

/-- The counter of what is kept agrees with the free lists. There is one free list for a size, with
handles of this size only and no more than the capacity; a pool that has ended keeps nothing. -/
structure Counted (p : Pool) : Prop where
  cached : p.stats.cached = p.cachedAllocations.length
  keys : p.free.keys.Nodup
  sorted : p.Sorted
  capped (size : Nat) : (p.bucket size).length ≤ p.capacity
  ended : p.terminated = true → p.cachedAllocations = []

namespace Counted

theorem of_empty (hf : p.free = .empty) (hc : p.stats.cached = 0) : p.Counted := by
  refine ⟨?_, hf ▸ List.nodup_nil, .of_empty hf, fun size => ?_, fun _ => ?_⟩
  · rw [hc, cachedAllocations, hf]
    rfl
  · rw [bucket, hf]
    exact Nat.zero_le _
  · rw [cachedAllocations, hf]
    rfl

theorem of_free (h : p.Counted) (hf : p'.free = p.free) (hs : p'.stats.cached = p.stats.cached)
    (hc : p'.capacity = p.capacity) (ht : p'.terminated = p.terminated) : p'.Counted := by
  have hcached : p'.cachedAllocations = p.cachedAllocations := by
    rw [cachedAllocations, cachedAllocations, hf]
  refine ⟨?_, hf ▸ h.keys, h.sorted.of_free hf, fun size => ?_, fun hend => ?_⟩
  · rw [hs, h.cached, hcached]
  · rw [bucket, hf, hc]
    exact h.capped size
  · rw [hcached]
    exact h.ended (ht ▸ hend)

/-- A free list that is handed out from is not empty, so its counter is not zero. -/
theorem cached_taken {q : Pool} (h : p.Counted) (hc : p.Taken size a q) :
    q.cachedAllocations.length + 1 = p.stats.cached := by
  rw [h.cached, ← (hc.perm h.keys).length_eq, List.length_cons]

theorem taken {q : Pool} (h : p.Counted) (ht : p.terminated = false) (hc : p.Taken size a q) :
    q.Counted := by
  refine ⟨?_, hc.free ▸ Table.nodup_keys_insert h.keys, h.sorted.left hc, fun other => ?_,
    fun hend => ?_⟩
  · rw [hc.stats, ← h.cached_taken hc, Nat.add_sub_cancel]
  · rw [bucket_insert hc.free, hc.capacity]
    split
    · rw [List.length_dropLast]
      exact Nat.le_trans (Nat.sub_le _ _) (h.capped size)
    · exact h.capped other
  · rw [hc.terminated, ht] at hend
    cases hend

theorem kept (h : p.Counted) (ht : p.terminated = false)
    (hroom : (p.bucket a.size).length < p.capacity)
    (hf : p'.free = p.free.insert a.size (p.bucket a.size ++ [a]))
    (hs : p'.stats.cached = p.stats.cached + 1) (hc : p'.capacity = p.capacity)
    (hend : p'.terminated = p.terminated) : p'.Counted := by
  refine ⟨?_, hf ▸ Table.nodup_keys_insert h.keys, h.sorted.putBack hf, fun other => ?_, fun he => ?_⟩
  · rw [hs, h.cached, (putBack_perm h.keys hf).length_eq, List.length_cons]
  · rw [bucket_insert hf, hc]
    split
    · rw [List.length_append, List.length_singleton]
      exact hroom
    · exact h.capped other
  · rw [hend, ht] at he
    cases he

theorem booked (h : p.Counted) (hb : p.Booked p') : p'.Counted := by
  cases hb with
  | idle d => exact h.of_free rfl rfl rfl rfl
  | supplied d => exact h.of_free rfl rfl rfl rfl
  | drained d => exact .of_empty rfl rfl
  | relieved d d' => exact .of_empty rfl rfl
  | taken ht hc d => exact (h.taken ht hc).of_free rfl rfl rfl rfl
  | kept ht hroom => exact h.kept ht hroom rfl rfl rfl rfl
  | ended d => exact .of_empty rfl rfl

theorem create (device : Device) (capacity : Nat) : (Pool.create device capacity).Counted :=
  .of_empty rfl rfl

end Counted

/-! ## Onwards -/

/-- The books after `n` events: what was counted stays counted, each event counts one thing more at
most, and an end is for good. -/
structure Onward (n : Nat) (p p' : Pool) : Prop where
  fresh : p.stats.fresh ≤ p'.stats.fresh
  reused : p.stats.reused ≤ p'.stats.reused
  total : p'.stats.fresh + p'.stats.reused + p'.stats.cached ≤
    p.stats.fresh + p.stats.reused + p.stats.cached + n
  capacity : p'.capacity = p.capacity
  terminated : p.terminated = true → p'.terminated = true

theorem Onward.refl (p : Pool) : Onward 0 p p :=
  ⟨Nat.le_refl _, Nat.le_refl _, Nat.le_refl _, rfl, id⟩

theorem Onward.trans {p'' : Pool} {m n : Nat} (h : Onward m p p') (h' : Onward n p' p'') :
    Onward (m + n) p p'' := by
  refine ⟨Nat.le_trans h.fresh h'.fresh, Nat.le_trans h.reused h'.reused, ?_,
    h'.capacity.trans h.capacity, h'.terminated ∘ h.terminated⟩
  have := h.total
  have := h'.total
  omega

theorem Booked.onward (hb : p.Booked p') : Onward 1 p p' := by
  cases hb with
  | idle d => exact ⟨Nat.le_refl _, Nat.le_refl _, Nat.le_succ _, rfl, id⟩
  | supplied d =>
    refine ⟨Nat.le_succ _, Nat.le_refl _, ?_, rfl, id⟩
    simp only [stats_supplied]
    omega
  | drained d =>
    refine ⟨Nat.le_refl _, Nat.le_refl _, ?_, rfl, id⟩
    simp only [stats_emptied]
    omega
  | relieved d d' =>
    refine ⟨Nat.le_succ _, Nat.le_refl _, ?_, rfl, id⟩
    simp only [stats_supplied, stats_emptied]
    omega
  | taken ht hc d =>
    -- The one that is kept no more is the one that was given again.
    refine ⟨?_, ?_, ?_, hc.capacity, hc.terminated.trans⟩
    all_goals
      simp only [hc.stats]
      omega
  | kept ht hroom => exact ⟨Nat.le_refl _, Nat.le_refl _, Nat.le_refl _, rfl, id⟩
  | ended d =>
    refine ⟨Nat.le_refl _, Nat.le_refl _, ?_, rfl, fun _ => rfl⟩
    simp only [stats_emptied]
    omega

theorem follow_append (p : Pool) (events more : List PoolEvent) :
    p.follow (events ++ more) = (p.follow events).follow more := List.foldl_append

theorem follow_onward (p : Pool) (events : List PoolEvent) :
    Onward events.length p (p.follow events) := by
  induction events generalizing p with
  | nil => exact .refl p
  | cons e events ih =>
    rw [List.length_cons, Nat.add_comm]
    exact (next_booked p e).onward.trans (ih (p.next e))

theorem Counted.follow (h : p.Counted) (events : List PoolEvent) : (p.follow events).Counted := by
  induction events generalizing p with
  | nil => exact h
  | cons e events ih => exact ih (h.booked (next_booked p e))

/-- From its end on a pool stays at its end. -/
theorem follow_terminated (p : Pool) (h : .call .terminate ∈ events) :
    (p.follow events).terminated = true := by
  obtain ⟨before, after, rfl⟩ := List.append_of_mem h
  rw [follow_append]
  refine (follow_onward _ after).terminated ?_
  change (terminate.on (p.follow before)).2.terminated = true
  rw [terminate_snd]

/-- Whatever happens to a pool and to its device, with whatever handles. The counter of what is kept
is the number of handles on the free lists, and where it is counted down it is not zero. There is
one free list for a size, with handles of this size only and no more than the capacity. What was
taken from the device and what was given again only rises. No counter exceeds the number of events,
so that none leaves the range of sizes as long as the events can be counted in it. After its end the
pool keeps nothing any more. -/
theorem counters_in_step (device : Device) (capacity : Nat) (events : List PoolEvent) :
    let p := (Pool.create device capacity).follow events
    p.stats.cached = p.cachedAllocations.length ∧
    (∀ size a q, p.takeCached? size = some (a, q) → q.stats.cached + 1 = p.stats.cached) ∧
    p.free.keys.Nodup ∧
    (∀ size, (p.bucket size).length ≤ capacity ∧ ∀ a ∈ p.bucket size, a.size = size) ∧
    (∀ more, p.stats.fresh ≤ (p.follow more).stats.fresh ∧
      p.stats.reused ≤ (p.follow more).stats.reused) ∧
    p.stats.fresh + p.stats.reused + p.stats.cached ≤ events.length ∧
    (.call .terminate ∈ events → p.terminated = true ∧ p.cachedAllocations = []) := by
  intro p
  have hcounted : p.Counted := (Counted.create device capacity).follow events
  have honward : Onward events.length (Pool.create device capacity) p := follow_onward _ events
  refine ⟨hcounted.cached, fun size a q ht => ?_, hcounted.keys, fun size => ⟨?_, hcounted.sorted size⟩,
    fun more => ?_, ?_, fun ht => ?_⟩
  · have htaken := taken_of_takeCached? ht
    have hcached := hcounted.cached_taken htaken
    simp only [htaken.stats]
    omega
  · have hcapped := hcounted.capped size
    rwa [honward.capacity] at hcapped
  · have hmore := follow_onward p more
    exact ⟨hmore.fresh, hmore.reused⟩
  · have htotal := honward.total
    simpa [create] using htotal
  · have hend := follow_terminated (Pool.create device capacity) ht
    exact ⟨hend, hcounted.ended hend⟩

/-- The same handle is given back twice, and then its memory is lost. A request that is served with it
fails, and the handle is kept once less. -/
example :
    let p := (Pool.create (.create none) 2).follow [.call (.allocate 16 false),
      .call (.release ⟨0, 16⟩), .call (.release ⟨0, 16⟩), .device (.create none)]
    p.stats = ⟨1, 0, 2⟩ ∧ ((allocate 16 true).on p).1 = .error (.unknownAllocation "CPU" 0) ∧
      (p.next (.call (.allocate 16 true))).stats = ⟨1, 1, 1⟩ := by decide

end Pool

end FieldCompute
