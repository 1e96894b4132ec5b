import FieldCompute.Proofs.Program.Admission
import FieldCompute.Proofs.Program.Takings
/-!
# After the end

Once a program is finalized its pool is terminated (`Run.terminated`). So it has no memory for
trees, arrays or callers any more, and whatever it is asked to do, no more memory of the device is
in use than before (`Run.finalized_takes_nothing`). Images are the exception: they come from the
device itself, past the pool, and are still given (`Run.texture_after_end`).
-/

namespace FieldCompute

open Routine Program

namespace Program

variable {p : Program}

/-! ## Requests to a terminated pool -/

theorem allocateMemory_refused (h : p.pool.terminated = true) (size : Nat) (zero : Bool) :
    ∃ e, (allocateMemory size zero).on p = (.error e, p) := by
  rw [allocateMemory_on]
  split
  · rw [Pool.allocate_terminated h]
    exact ⟨_, rfl⟩
  · exact ⟨_, rfl⟩

theorem createNdarray_refused (h : p.pool.terminated = true) (dtype : DType) (shape : List Nat)
    (layout : ArrayLayout) (zero : Bool) :
    ∃ e, (createNdarray dtype shape layout zero).on p = (.error e, p) := by
  unfold createNdarray
  split
  · exact ⟨_, rfl⟩
  · rename_i size hs
    obtain ⟨e, he⟩ := allocateMemory_refused h size zero
    exact ⟨e, on_bind_of_error he⟩

theorem addTree_refused (hp : p.Hosted) (h : p.pool.terminated = true) (root : Node) :
    ∃ e, ((addTree root false).on p).1 = .error e := by
  have ho := addTree_outcome hp root false
  generalize (addTree root false).on p = x at ho
  cases ho with
  | kept _ _ ha =>
    rw [Pool.allocate_terminated h] at ha
    cases ha
  | rejected _ => exact ⟨_, rfl⟩

/-- An image needs memory of the device and nothing else. -/
theorem allocateImage_ok_iff (i : Image) :
    (∃ a, ((allocateImage i).on p).1 = .ok a) ↔ ∃ size, i.bytes? = some size ∧
      (∀ l ∈ p.device.limit, p.device.allocated + size ≤ l) ∧ size ≤ p.device.reservable := by
  have hdevice : p.device = p.pool.device := rfl
  simp only [← Device.exists_allocate_iff, hdevice]
  rw [allocateImage_on, Pool.fromDevice_on]
  have himage (x : Allocation × Device) := p.pool.device.allocateImage_eq_ok_iff (i := i) (x := x)
  cases hd : p.pool.device.allocateImage i with
  | error e =>
    refine ⟨fun ⟨_, h⟩ => (by cases h), fun ⟨size, hs, x, ha⟩ => ?_⟩
    cases hd.symm.trans ((himage x).2 ⟨size, hs, ha⟩)
  | ok x =>
    obtain ⟨size, hs, ha⟩ := (himage x).1 hd
    exact ⟨fun _ => ⟨size, hs, x, ha⟩, fun _ => ⟨_, rfl⟩⟩

end Program

/-! ## Runs -/

theorem World.takes (w : World) (cs : List Command) :
    w.program.TakesAtMost (cs.map Command.askedBytes).sum (cs.foldl World.step w).program := by
  induction cs generalizing w with
  | nil => exact Std.Refl.refl _
  | cons c cs ih => exact (w.step_takes c).trans (ih (w.step c))

namespace Run

variable {ok : World → Command → Prop} {w : World} {cs : List Command}

/-- A program that is finalized has its pool terminated, however its teardown went. -/
theorem terminated (r : Run ok w cs) (hf : w.program.finalized = true) :
    w.program.pool.terminated = true := by
  refine r.inv (P := fun w => w.program.finalized = true → w.program.pool.terminated = true)
    (fun hp hf => ?_) (fun {w c} ih _ hf => ?_) hf
  · cases hp
    cases hf
  · have htakes := w.step_takes c
    exact (htakes.ends hf).elim (fun hf => htakes.pool.terminated (ih hf)) id

/-- Whatever is done with a program that is finalized, it stays finalized, and it refuses memory for
arrays, for trees and for callers. The bytes in use on its device become no more than before, but
for what was asked of the device itself: by its callers, or for images, which are given wherever the
device has room. -/
theorem finalized_takes_nothing (r : Run ok w cs) (hf : w.program.finalized = true)
    (later : List Command) :
    let p := (later.foldl World.step w).program
    p.finalized = true ∧
    (∀ size zero, ∃ e, (allocateMemory size zero).on p = (.error e, p)) ∧
    (∀ dtype shape layout zero, ∃ e, (createNdarray dtype shape layout zero).on p = (.error e, p)) ∧
    (∀ root, ∃ e, ((addTree root false).on p).1 = .error e) ∧
    p.device.allocated ≤ w.program.device.allocated + (later.map Command.askedBytes).sum ∧
    ∀ i, ((∃ a, ((allocateImage i).on p).1 = .ok a) ↔ ∃ size, i.bytes? = some size ∧
        (∀ l ∈ p.device.limit, p.device.allocated + size ≤ l) ∧ size ≤ p.device.reservable) ∧
      ((∃ id, ((createTexture i).on p).1 = .ok id) ↔ ∃ a, ((allocateImage i).on p).1 = .ok a) := by
  intro p
  have htakes := w.takes later
  have r' := r.foldl later
  have hfinal : p.finalized = true := htakes.stays hf
  have hterminated : p.pool.terminated = true := r'.terminated hfinal
  refine ⟨hfinal, allocateMemory_refused hterminated, createNdarray_refused hterminated,
    addTree_refused r'.hosted hterminated, htakes.pool.allocated (r.terminated hf) r.orderly,
    fun i => ⟨allocateImage_ok_iff i, ?_⟩⟩
  rw [createTexture, on_bind]
  obtain ⟨e | a, q⟩ := (allocateImage i).on p
  · simp
  · exact ⟨fun _ => ⟨a, rfl⟩, fun _ => ⟨_, rfl⟩⟩

/-- The world of a program that had an array and is finalized. -/
def finalizedWorld : World :=
  (World.fresh.step (.createNdarray (.scalar .int32) [4] .aos true)).step .finalize

theorem run_finalizedWorld : Run (fun _ _ => True) finalizedWorld
    [.createNdarray (.scalar .int32) [4] .aos true, .finalize] :=
  (Run.fresh.step (.createNdarray (.scalar .int32) [4] .aos true) trivial).step .finalize trivial

/-- Evaluating an operator and asking for another array take nothing. -/
theorem finalized_takes_nothing_evaluating :
    finalizedWorld.program.finalized = true ∧
    (([.evaluateUnary 0 .neg (.int 1) (.scalar .int32) (.scalar .int32),
      .createNdarray (.scalar .int32) [4] .aos true].foldl
        World.step finalizedWorld).program.device.allocated ≤ 0) := by
  have hf : finalizedWorld.program.finalized = true := by decide
  have hnone : finalizedWorld.program.device.allocated = 0 := by decide
  obtain ⟨-, -, -, -, hle, -⟩ := run_finalizedWorld.finalized_takes_nothing hf
    [.evaluateUnary 0 .neg (.int 1) (.scalar .int32) (.scalar .int32),
      .createNdarray (.scalar .int32) [4] .aos true]
  rw [hnone] at hle
  exact ⟨hf, hle⟩

/-- A finalized program makes a texture, and the device has more bytes in use. -/
theorem texture_after_end :
    Run (fun _ _ => True) finalizedWorld
      [.createNdarray (.scalar .int32) [4] .aos true, .finalize] ∧
    finalizedWorld.program.finalized = true ∧ finalizedWorld.program.device.allocated = 0 ∧
    ((createTexture ⟨.scalar .uint8, 1, [16]⟩).on finalizedWorld.program).1 = .ok 0 ∧
    (finalizedWorld.step (.createTexture ⟨.scalar .uint8, 1, [16]⟩)).program.device.allocated =
      16 := by
  refine ⟨run_finalizedWorld, ?_, ?_, ?_, ?_⟩
  all_goals decide

end Run

end FieldCompute
