import FieldCompute.Proofs.Device.Admission
/-!
# Free lists

Whatever becomes of draining a pool, its free lists are empty then, and beside them only the device
has changed (`Pool.drain_snd`). Every free list stays of one size, also where somebody gives the pool
what never came from it (`Pool.Sorted.release`), so a request gets the size that it asked for
(`Pool.Sorted.allocate`).
-/

namespace FieldCompute

open Routine

namespace Pool

variable {p p' : Pool} {size : Nat}

/-! ## Draining -/

/-- Only the device differs. -/
def Beneath (p p' : Pool) : Prop := p' = { p with device := p'.device }

instance : Std.Refl Beneath := ⟨fun _ => rfl⟩

instance : IsTrans Pool Beneath where
  trans _ _ _ h h' := by
    unfold Beneath at h h'
    rw [h] at h'
    exact h'

theorem onDevice_beneath (f : Device → Except DeviceError Device) :
    (onDevice f).Along Beneath := by
  intro p
  rw [onDevice_on]
  cases f p.device <;> rfl

theorem fromDevice_beneath (f : Device → Except DeviceError (Allocation × Device)) :
    (fromDevice f).Along Beneath := by
  intro p
  rw [fromDevice_on]
  cases f p.device <;> rfl

/-- Draining empties the free lists, also where the device does not take everything back. -/
theorem drain_snd (p : Pool) : (drain.on p).2 =
    { p with
      free := .empty, stats := { p.stats with cached := 0 }, device := (drain.on p).2.device } := by
  have hall (l : List Allocation) : (l.forM fun a => onDevice (·.deallocate a)).Along Beneath :=
    Along.forM l fun a => onDevice_beneath _
  rw [drain, on_get_bind, on_set_bind]
  exact hall _ _

theorem terminate_snd (p : Pool) : (terminate.on p).2 =
    { p with
      terminated := true, free := .empty, stats := { p.stats with cached := 0 }
      device := (terminate.on p).2.device } := by
  rw [terminate, on_modify_bind]
  exact drain_snd _

/-! ## One size each -/

namespace Sorted

theorem beneath (h : p.Sorted) (hb : p.Beneath p') : p'.Sorted := by
  apply h.of_free
  rw [hb]

theorem drain (p : Pool) : (drain.on p).2.Sorted := by
  apply of_empty
  rw [drain_snd]

theorem terminate (p : Pool) : (terminate.on p).2.Sorted := by
  apply of_empty
  rw [terminate_snd]

theorem release (h : p.Sorted) (a : Allocation) : ((release a).on p).2.Sorted := by
  rw [Pool.release, on_get_bind]
  split
  · exact h.putBack rfl
  · exact h.beneath (onDevice_beneath _ p)

end Sorted

/-- What a request comes to: the free lists are still sorted, and what is given has the size. -/
def Suits (size : Nat) (r : Except DeviceError Allocation × Pool) : Prop :=
  r.2.Sorted ∧ ∀ a, r.1 = .ok a → a.size = size

theorem Sorted.supplied {a : Allocation} {d : Device} (h : p.Sorted)
    (hd : p.device.allocate size = .ok (a, d)) : Suits size (.ok a, p.supplied d) := by
  obtain ⟨-, hx⟩ := Device.allocate_eq_ok_iff.1 hd
  cases hx
  refine ⟨h.of_free rfl, ?_⟩
  intro b hb
  cases hb
  rfl

theorem Sorted.taken {a : Allocation} {q : Pool} (h : p.Sorted) (hc : p.Taken size a q) :
    Suits size (.ok a, q) := by
  refine ⟨h.left hc, ?_⟩
  intro b hb
  cases hb
  exact h size a (List.mem_of_getLast? hc.latest)

/-- Whatever was given to the pool, a request gets the size it asked for. -/
theorem Sorted.allocate (h : p.Sorted) (size : Nat) (zero : Bool) :
    Suits size ((allocate size zero).on p) := by
  have refused {e : DeviceError} {q : Pool} (hq : q.Sorted) : Suits size (.error e, q) :=
    ⟨hq, fun a ha => by cases ha⟩
  have drained {r : Except DeviceError Unit} {q : Pool} (hdrain : Pool.drain.on p = (r, q)) :
      q.Sorted := by
    have hq := Sorted.drain p
    rwa [hdrain] at hq
  have hr := allocate_requested p size zero
  generalize (Pool.allocate size zero).on p = x at hr ⊢
  cases hr with
  | terminated _ => exact refused h
  | fresh _ _ hr =>
    cases hr with
    | granted hd => exact h.supplied hd
    | relieved _ hdrain hd => exact (drained hdrain).supplied hd
    | refused _ hdrain _ => exact refused (drained hdrain)
    | undrained _ hdrain => exact refused (drained hdrain)
  | recycled _ hc _ => exact h.taken hc
  | cleared _ hc _ _ =>
    obtain ⟨hq, hsize⟩ := h.taken hc
    exact ⟨hq.of_free rfl, hsize⟩
  | uncleared _ hc _ _ => exact refused (h.left hc)

end Pool
end FieldCompute
