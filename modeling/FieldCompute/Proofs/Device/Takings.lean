import FieldCompute.Proofs.Device.Admission
/-!
# What a terminated pool takes from its device

A pool that is terminated gives back to the device and takes nothing from it, whatever is asked of
it (`Pool.TakesAtMost`). Only who goes past the pool gets more memory from the device
(`Pool.fromDevice_takes`).
-/

namespace FieldCompute

open Routine

namespace Pool

open Device

variable {p p' p'' : Pool} {n : Nat}

/-- A pool that is terminated stays so, and the bytes in use on its device become at most `n`
more. -/
structure TakesAtMost (n : Nat) (p p' : Pool) : Prop where
  terminated : p.terminated = true → p'.terminated = true
  orderly : p.device.Orderly → p'.device.Orderly
  allocated : p.terminated = true → p.device.Orderly →
    p'.device.allocated ≤ p.device.allocated + n

namespace TakesAtMost

theorem trans {m : Nat} (h : TakesAtMost m p p') (h' : TakesAtMost n p' p'') :
    TakesAtMost (m + n) p p'' := by
  refine ⟨h'.terminated ∘ h.terminated, h'.orderly ∘ h.orderly, fun ht ho => ?_⟩
  have hle := h.allocated ht ho
  have hle' := h'.allocated (h.terminated ht) (h.orderly ho)
  omega

theorem of_device (ht : p'.terminated = p.terminated) (hb : p.device.Bounded p'.device)
    (h : p.device.Orderly → p'.device.allocated ≤ p.device.allocated + n) : TakesAtMost n p p' :=
  ⟨fun h => ht.trans h, hb.orderly, fun _ => h⟩

/-- What only rewrites bytes takes nothing. -/
theorem rewritten (ht : p'.terminated = p.terminated) (h : p.device.Rewritten p'.device) :
    TakesAtMost n p p' := by
  refine .of_device ht (.rewritten h) fun ho => ?_
  rw [h.allocated ho.keys]
  exact Nat.le_add_right ..

/-- Before its end a pool may take what it likes. -/
theorem of_serving (ht : ¬p.terminated = true) (h : p.Serving p') : TakesAtMost n p p' :=
  ⟨fun h => absurd h ht, h.device.orderly, fun h => absurd h ht⟩

end TakesAtMost

instance : Std.Refl (TakesAtMost n) :=
  ⟨fun _ => .of_device rfl (.refl _) fun _ => Nat.le_add_right ..⟩

instance : IsTrans Pool (TakesAtMost 0) where
  trans _ _ _ h h' := h.trans h'

/-! ## Calls -/

theorem deallocate_takes (a : Allocation) : (onDevice (·.deallocate a)).Along (TakesAtMost 0) := by
  intro p
  rw [onDevice_on]
  cases hd : p.device.deallocate a with
  | error e => exact Std.Refl.refl p
  | ok d => exact .of_device rfl (.deallocate hd) fun ho => ho.allocated_deallocate hd

/-- The device itself still gives memory. -/
theorem fromDevice_takes {f : Device → Except DeviceError (Allocation × Device)}
    (h : ∀ {d a d'}, f d = .ok (a, d') → d.allocate n = .ok (a, d')) :
    (fromDevice f).Along (TakesAtMost n) := by
  intro p
  rw [fromDevice_on]
  cases hd : f p.device with
  | error e => exact Std.Refl.refl p
  | ok x =>
    exact .of_device rfl (.allocate (h hd)) fun ho => Nat.le_of_eq (ho.allocated_allocate (h hd))

theorem drain_takes : drain.Along (TakesAtMost 0) := by
  refine .get_bind fun p => ?_
  have hall : (p.cachedAllocations.forM fun a => onDevice (·.deallocate a)).Along (TakesAtMost 0) :=
    Along.forM _ deallocate_takes
  have h := hall { p with free := .empty, stats := { p.stats with cached := 0 } }
  rw [on_set_bind]
  exact ⟨h.terminated, h.orderly, h.allocated⟩

theorem terminate_takes : terminate.Along (TakesAtMost 0) := by
  have hmark : (modify fun p => { p with terminated := true } :
      Routine Pool DeviceError PUnit).Along (TakesAtMost 0) :=
    fun _ => ⟨fun _ => rfl, id, fun _ _ => Nat.le_refl _⟩
  exact hmark.bind fun _ => drain_takes

theorem allocate_terminated (h : p.terminated = true) (size : Nat) (zero : Bool) :
    (allocate size zero).on p = (.error .poolTerminated, p) := by
  rw [allocate, on_get_bind, if_pos h, on_throw_bind]

theorem allocate_takes (size : Nat) (zero : Bool) : (allocate size zero).Along (TakesAtMost 0) := by
  intro p
  by_cases ht : p.terminated = true
  · rw [allocate_terminated ht]
    exact Std.Refl.refl p
  · exact .of_serving ht (allocate_serving size zero p)

theorem release_takes (a : Allocation) : (release a).Along (TakesAtMost 0) := by
  intro p
  by_cases ht : p.terminated = true
  · rw [release, on_get_bind, if_neg (by simp [ht])]
    exact deallocate_takes a p
  · exact .of_serving ht (release_serving a p)

end Pool

end FieldCompute
