import FieldCompute.Device.Pool
import FieldCompute.Proofs.Routine
/-!
# What a request to a pool comes to

`Pool.Requested` lists the ways in which a request for memory ends, each with what the device
answered on the way and with the pool that is left. What is true of all requests is proved by a case
for each of them.
-/

namespace FieldCompute.Pool

open Routine

variable {p p' : Pool} {size : Nat} {zero : Bool}

/-! ## Calls of the device -/

theorem onDevice_on (f : Device → Except DeviceError Device) (p : Pool) :
    (onDevice f).on p =
      match f p.device with
      | .ok d => (.ok (), { p with device := d })
      | .error e => (.error e, p) := by
  rw [onDevice, on_get_bind, on_answer_bind]
  cases f p.device <;> rfl

theorem onDevice_error {f : Device → Except DeviceError Device} {e : DeviceError}
    (h : (onDevice f).on p = (.error e, p')) : p' = p := by
  rw [onDevice_on] at h
  split at h <;> cases h
  rfl

theorem fromDevice_on (f : Device → Except DeviceError (Allocation × Device)) (p : Pool) :
    (fromDevice f).on p =
      match f p.device with
      | .ok (a, d) => (.ok a, { p with device := d })
      | .error e => (.error e, p) := by
  rw [fromDevice, on_get_bind, on_answer_bind]
  cases f p.device <;> rfl

theorem fromDevice_error {f : Device → Except DeviceError (Allocation × Device)} {e : DeviceError}
    (h : (fromDevice f).on p = (.error e, p')) : p' = p := by
  rw [fromDevice_on] at h
  split at h <;> cases h
  rfl

/-! ## Requests -/

/-- The pool after one more allocation from the device. -/
def supplied (p : Pool) (d : Device) : Pool :=
  { p with device := d, stats := { p.stats with fresh := p.stats.fresh + 1 } }

/-- What a request comes to that no free list serves. -/
inductive FreshlyRequested (p : Pool) (size : Nat) : Except DeviceError Allocation × Pool → Prop
  | granted {a : Allocation} {d : Device} (h : p.device.allocate size = .ok (a, d)) :
    FreshlyRequested p size (.ok a, p.supplied d)
  /-- The device grants what it refused before the pool was drained. -/
  | relieved {a : Allocation} {d : Device} {e : DeviceError} {q : Pool}
      (he : p.device.allocate size = .error e) (hdrain : drain.on p = (.ok (), q))
      (h : q.device.allocate size = .ok (a, d)) :
    FreshlyRequested p size (.ok a, q.supplied d)
  | refused {e e' : DeviceError} {q : Pool} (he : p.device.allocate size = .error e)
      (hdrain : drain.on p = (.ok (), q)) (h : q.device.allocate size = .error e') :
    FreshlyRequested p size (.error e, q)
  /-- The device does not take back what the pool keeps. -/
  | undrained {e e' : DeviceError} {q : Pool} (he : p.device.allocate size = .error e)
      (hdrain : drain.on p = (.error e', q)) : FreshlyRequested p size (.error e', q)

/-- The allocation is the latest one on its free list and leaves that, and otherwise only the
statistics differ. -/
structure Taken (p : Pool) (size : Nat) (a : Allocation) (q : Pool) : Prop where
  latest : (p.bucket size).getLast? = some a
  free : q.free = p.free.insert size (p.bucket size).dropLast
  device : q.device = p.device
  terminated : q.terminated = p.terminated
  capacity : q.capacity = p.capacity
  stats : q.stats = ⟨p.stats.fresh, p.stats.reused + 1, p.stats.cached - 1⟩

theorem taken_of_takeCached? {a : Allocation} {q : Pool} (h : p.takeCached? size = some (a, q)) :
    p.Taken size a q := by
  obtain ⟨b, hb, hq⟩ := Option.map_eq_some_iff.1 h
  cases hq
  exact ⟨hb, rfl, rfl, rfl, rfl, rfl⟩

/-- What a request comes to. -/
inductive Requested (p : Pool) (size : Nat) (zero : Bool) :
    Except DeviceError Allocation × Pool → Prop
  | terminated (ht : p.terminated = true) : Requested p size zero (.error .poolTerminated, p)
  | fresh {x : Except DeviceError Allocation × Pool} (ht : p.terminated = false)
      (hc : p.takeCached? size = none) (h : FreshlyRequested p size x) : Requested p size zero x
  | recycled {a : Allocation} {q : Pool} (ht : p.terminated = false)
      (hc : p.Taken size a q) (hz : zero = false) : Requested p size zero (.ok a, q)
  | cleared {a : Allocation} {q : Pool} {d : Device} (ht : p.terminated = false)
      (hc : p.Taken size a q) (hz : zero = true)
      (hf : q.device.fill a 0 = .ok d) : Requested p size zero (.ok a, { q with device := d })
  /-- The device does not know what the pool kept, or not as large as it is. -/
  | uncleared {a : Allocation} {q : Pool} {e : DeviceError} (ht : p.terminated = false)
      (hc : p.Taken size a q) (hz : zero = true)
      (hf : q.device.fill a 0 = .error e) : Requested p size zero (.error e, q)

theorem allocateFresh_requested (p : Pool) (size : Nat) :
    FreshlyRequested p size ((allocateFresh size).on p) := by
  rw [allocateFresh, on_bind, on_attempt, fromDevice_on]
  cases hd : p.device.allocate size with
  | ok x => exact .granted hd
  | error e =>
    simp only
    rw [on_bind]
    cases hdrain : drain.on p with
    | mk r q =>
      cases r with
      | error e' => exact .undrained hd hdrain
      | ok _ =>
        simp only
        rw [on_bind, on_mapError, fromDevice_on]
        cases hd' : q.device.allocate size with
        | error e' => exact .refused hd hdrain hd'
        | ok x =>
          have h := FreshlyRequested.relieved hd hdrain hd'
          exact h

theorem allocate_requested (p : Pool) (size : Nat) (zero : Bool) :
    Requested p size zero ((allocate size zero).on p) := by
  rw [allocate, on_get_bind]
  cases ht : p.terminated with
  | true => exact .terminated ht
  | false =>
    cases hc : p.takeCached? size with
    | none => exact .fresh ht hc (allocateFresh_requested p size)
    | some x =>
      cases zero with
      | false => exact .recycled ht (taken_of_takeCached? hc) rfl
      | true =>
        simp only [on_set_bind, if_true, if_false, Bool.false_eq_true]
        rw [on_bind, onDevice_on]
        cases hf : x.2.device.fill x.1 0 with
        | ok d => exact .cleared ht (taken_of_takeCached? hc) rfl hf
        | error e => exact .uncleared ht (taken_of_takeCached? hc) rfl hf

end FieldCompute.Pool
