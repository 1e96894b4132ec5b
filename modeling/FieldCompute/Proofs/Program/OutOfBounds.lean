import FieldCompute.Proofs.Launch.Straying
import FieldCompute.Proofs.Program.FieldStorage
/-!
# Accesses outside a field

An access that names no element changes no memory and is reported (`Run.outside_rejected`): it fails
or, if the accessor kernel was compiled with checks, the next check for faults does. The indices
count as the kernel gets them, by their low 32 bits. So an index beyond them may name an element
that nobody meant (`Run.outside_wraps`).
-/

namespace FieldCompute

open Routine Program

variable {a : Accessor} {place : Place} {indices : List Int} {t : FieldTree}

/-- The error of an access that names no element. -/
def Accessor.outside (a : Accessor) (place : Place) (indices : List Int) : Error :=
  .outOfBounds (a.kernelName place.id) place.id (indices.map asIndex) place.shape

namespace Program

variable {p q : Program} {code : Code} {kernel : Nat} {k : Kernel} {α : Type}

/-- The code of the accessor kernel of a place, once there is some. -/
def accessorCode? (p : Program) (a : Accessor) (id : NodeId) : Option Code :=
  ((p.accessors.find? (a, id)).bind p.kernels.find?).bind (·.code?)

/-- The access ended in `x` and changed no memory. It failed or, if the kernel's code checks bounds,
left a fault for the next check. -/
structure Rejected (p : Program) (a : Accessor) (place : Place) (indices : List Int) (code : Code)
    (x : Except Failure α × Program) : Prop where
  compiled : x.2.accessorCode? a place.id = some code
  device : x.2.device = p.device
  storage : x.2.engine.storage = p.engine.storage
  failed : code.checksBounds = false →
    x.1 = .error (.error (a.outside place indices)) ∧ x.2.engine.fault = p.engine.fault
  passed : code.checksBounds = true →
    (∃ y, x.1 = .ok y) ∧ x.2.engine.fault = p.engine.fault.or (a.outside place indices).message
  checked : code.checksBounds = true → p.engine.fault = none →
    (checkFault.on x.2).1 = .error (.error (.runtime (a.outside place indices).message))

/-- An index tuple that names no element of a place with storage is not located. -/
theorem Linked.locate_outside (h : p.Linked) (hu : p.Unambiguous) (hp : p.Has t place)
    (hc : t.compileOnly = false)
    (hout : ∃ axis ∈ indices.zip place.shape, axis.1 < 0 ∨ (axis.2 : Int) ≤ axis.1) (code : Code)
    (args : List Value) : (p.engine.launchOf code args).locate place.id indices =
      .error (.error (.outOfBounds code.kernel place.id indices place.shape)) := by
  obtain ⟨b, hb, rfl⟩ := h.binding?_of_has hu hp hc
  exact Launch.locate_outside (l := p.engine.launchOf code args) hb (.inr hout)

/-- Launching the accessor kernel of the place is rejected, and the kernel still serves it. -/
theorem Wired.launch_outside (h : q.Wired) (hp : q.Hosted) (hs : q.Serves a place kernel k)
    (ha : q.accessors.find? (a, place.id) = some kernel)
    (hn : indices.length = place.shape.length)
    (hl : ∀ code args, (q.engine.launchOf code args).locate place.id (indices.map asIndex) =
      .error (.error (.outOfBounds code.kernel place.id (indices.map asIndex) place.shape)))
    (thread : Thread) (v : Value) :
    ∃ code, q.Rejected a place indices code
        ((launch thread kernel (a.arguments indices v)).on q) ∧
      ((launch thread kernel (a.arguments indices v)).on q).2.Serves a place kernel
        { k with code? := some code } := by
  rcases h.launched hp hs thread (a.arguments indices v) with ⟨hne, -⟩ | ⟨-, code, hname, hcode, hr⟩
  · exact absurd ((a.length_arguments v kernel).2 hn) hne
  obtain ⟨position, hrun⟩ := Accessor.run_unlocated (m := ⟨q.device, q.slots⟩) hcode rfl hn
    (hl code (a.arguments indices v))
  obtain ⟨hanswer, hdevice, -, hfault⟩ := hr.run hrun
  have hserves := hs.ran hr
  rw [hname] at hanswer hfault
  refine ⟨code, ⟨?_, hdevice, hr.storage, ?_, ?_, ?_⟩, hserves⟩
  · simp only [accessorCode?, hr.accessors, ha, Option.bind_some, hserves.find]
  · intro hc
    simp only [Engine.answerAfter, Engine.faultAfter?, Engine.faultOf?, hc] at hanswer hfault
    exact ⟨hanswer, hfault.trans (Option.or_none ..)⟩
  · intro hc
    simp only [Engine.answerAfter, Engine.faultAfter?, Engine.faultOf?, hc] at hanswer hfault
    exact ⟨⟨(), hanswer⟩, hfault⟩
  · intro hc hnone
    simp only [Engine.faultAfter?, Engine.faultOf?, hc, hnone] at hfault
    rw [checkFault_on, hfault]
    rfl

theorem Rejected.of_backend {x : Except Failure α × Program} (h : q.Rejected a place indices code x)
    (hb : q.backend = p.backend) : p.Rejected a place indices code x := by
  have he : q.engine = p.engine := congrArg Backend.engine hb
  refine ⟨h.compiled, ?_, ?_, ?_, ?_, ?_⟩
  · rw [h.device, Program.device, he]
    rfl
  · rw [h.storage, he]
  · rw [← he]
    exact h.failed
  · rw [← he]
    exact h.passed
  · rw [← he]
    exact h.checked

/-- Reading the result behind a reader that was rejected changes nothing about that. -/
theorem Rejected.readResult {run : Op Unit} (h : p.Rejected .reader place indices code (run.on q))
    (hs : (run.on q).2.Serves .reader place kernel k) :
    p.Rejected .reader place indices code
      ((run >>= fun _ => Program.readResult kernel).on q) := by
  rw [on_bind]
  generalize run.on q = x at h hs ⊢
  obtain ⟨_ | _, q⟩ := x
  · refine ⟨h.compiled, h.device, h.storage, ?_, ?_, h.checked⟩
    · intro hc
      obtain ⟨hx, hf⟩ := h.failed hc
      cases hx
      exact ⟨rfl, hf⟩
    · intro hc
      obtain ⟨⟨y, hy⟩, -⟩ := h.passed hc
      cases hy
  · obtain ⟨w, hw⟩ := q.slots.exists_load (show 0 < 32 by decide)
    simp only [hs.readResult_on hw]
    refine ⟨h.compiled, h.device, h.storage, ?_, ?_, h.checked⟩
    · intro hc
      cases (h.failed hc).1
    · intro hc
      exact ⟨⟨_, rfl⟩, (h.passed hc).2⟩

end Program

section Runs

variable {ok : World → Command → Prop} {w : World} {cs : List Command}

/-- The launch of an accessor kernel by such an access. -/
theorem Run.launch_outside (r : Run ok w cs) (hu : w.program.Unambiguous)
    (hp : w.program.Has t place) (hc : t.compileOnly = false)
    (hn : indices.length = place.shape.length)
    (hout : ∃ axis ∈ (indices.map asIndex).zip place.shape, axis.1 < 0 ∨ (axis.2 : Int) ≤ axis.1)
    (a : Accessor) (thread : Thread) (v : Value) :
    ∃ kernel q k code, (accessor a place.id).on w.program = (.ok kernel, q) ∧
      w.program.Rejected a place indices code
        ((launch thread kernel (a.arguments indices v)).on q) ∧
      ((launch thread kernel (a.arguments indices v)).on q).2.Serves a place kernel k := by
  obtain ⟨hhosted, hwired⟩ := r.wired
  have hcases := hwired.accessed hhosted a place.id
  generalize (accessor a place.id).on w.program = x at hcases
  cases hcases with
  | unknown hnone => rw [hu.place?_of_mem hp] at hnone; cases hnone
  | @served q u other kernel k hb hq hother hid hfind hs =>
    obtain rfl := hu.unique_place hother hp hid
    have hengine : q.engine = w.program.engine := congrArg Backend.engine hb
    have hl := r.linked.locate_outside hu hp hc hout
    rw [← hengine] at hl
    obtain ⟨code, hrejected, hserves⟩ :=
      hq.launch_outside (hhosted.of_backend hb) hs hfind hn hl thread v
    exact ⟨kernel, q, _, code, rfl, hrejected.of_backend hb, hserves⟩

/-- In every reachable state, writing and reading a place of a tree with storage by an index tuple
that, as the kernel gets it, is outside the shape changes no memory. Under a kernel that was
compiled without checks the access fails; otherwise the next check for faults does, unless it has
an earlier one to report. For indices of at most 32 bits these are all the tuples outside the shape
(`map_asIndex`). -/
theorem Run.outside_rejected (r : Run ok w cs) (hu : w.program.Unambiguous)
    (hp : w.program.Has t place) (hc : t.compileOnly = false)
    (hn : indices.length = place.shape.length)
    (hout : ∃ axis ∈ (indices.map asIndex).zip place.shape, axis.1 < 0 ∨ (axis.2 : Int) ≤ axis.1)
    (thread : Thread) (v : Value) :
    (∃ code, w.program.Rejected .writer place indices code
      ((writeField thread place.id indices v).on w.program)) ∧
    ∃ code, w.program.Rejected .reader place indices code
      ((readField thread place.id indices).on w.program) := by
  constructor
  · obtain ⟨kernel, q, -, code, ha, h, -⟩ := r.launch_outside hu hp hc hn hout .writer thread v
    refine ⟨code, ?_⟩
    rw [writeField, on_bind_of_ok ha]
    exact h
  · obtain ⟨kernel, q, k, code, ha, h, hs⟩ := r.launch_outside hu hp hc hn hout .reader thread v
    refine ⟨code, ?_⟩
    rw [readField, on_bind_of_ok ha]
    rw [Accessor.arguments, List.append_nil] at h hs
    exact h.readResult hs

end Runs

/-- A program with a field of two numbers, both zero. -/
def smallFieldAdded : World := World.fresh.step (.addTree smallTree.root false)

theorem smallFieldAdded_has :
    (∃ cs, Run World.Honest smallFieldAdded cs) ∧ smallFieldAdded.program.Apart ∧
      smallFieldAdded.program.Has smallTree smallField :=
  ⟨⟨_, .once trivial⟩, (by decide : [0, 1, 2].Nodup), .head _, .head _⟩

/-- One past the end nothing is written or read. -/
theorem Run.outside_rejected_past_end :
    (∃ code, smallFieldAdded.program.Rejected .writer smallField [2] code
      ((writeField 0 2 [2] (.int 7)).on smallFieldAdded.program)) ∧
    ∃ code, smallFieldAdded.program.Rejected .reader smallField [2] code
      ((readField 0 2 [2]).on smallFieldAdded.program) := by
  obtain ⟨⟨cs, r⟩, ha, hp⟩ := smallFieldAdded_has
  exact r.outside_rejected ha.unambiguous hp rfl rfl (by decide) 0 (.int 7)

/-- An index far beyond the shape is taken for another one: the write succeeds, no fault is
pending, and the first number has changed. -/
theorem Run.outside_wraps :
    (∃ cs, Run World.Honest smallFieldAdded cs) ∧ smallFieldAdded.program.Apart ∧
      smallFieldAdded.program.Has smallTree smallField ∧ smallTree.compileOnly = false ∧
      ([2 ^ 32] : List Int).length = smallField.shape.length ∧
      (∃ axis ∈ ([2 ^ 32] : List Int).zip smallField.shape,
        axis.1 < 0 ∨ (axis.2 : Int) ≤ axis.1) ∧
      ((readField 0 2 [0]).on smallFieldAdded.program).1 = .ok (.int 0) ∧
      ((writeField 0 2 [2 ^ 32] (.int 7)).on smallFieldAdded.program).1 = .ok () ∧
      ((writeField 0 2 [2 ^ 32] (.int 7)).on smallFieldAdded.program).2.engine.fault = none ∧
      ((readField 0 2 [0]).on
        ((writeField 0 2 [2 ^ 32] (.int 7)).on smallFieldAdded.program).2).1 = .ok (.int 7) := by
  obtain ⟨r, ha, hp⟩ := smallFieldAdded_has
  refine ⟨r, ha, hp, rfl, rfl, by decide, ?_, ?_, ?_, ?_⟩
  all_goals decide +kernel

end FieldCompute
