import FieldCompute.Proofs.Launch.Lowering
import FieldCompute.Proofs.Launch.Safety
import FieldCompute.Proofs.Program.Catalogue
import FieldCompute.Proofs.Program.Launches
import FieldCompute.Proofs.Program.Ownership
/-!
# Launches of a program do not go wrong

In every state that a run of honest callers comes to, the fields lie inside live allocations
(`World.Accounted.lives`), also for code that was compiled when other trees were live. So whatever
kernel is launched, its code is `Sound`.
-/

namespace FieldCompute

open Routine Program

/-- A failure that a launch of a kernel may report. -/
def Failure.OfLaunch : Failure → Prop
  | .error (.argumentCount ..) | .error (.compilation ..) | .error (.invalidIr ..)
  | .error (.notMaterialized _) | .error (.outOfBounds ..) | .error (.evaluation ..) => True
  | _ => False

namespace Launch.Trap

variable {l : Launch} {values : Launch.Values} {s : Stmt} {f : Failure}

theorem ofLaunch (h : l.Trap values s f) : f.OfLaunch := by cases h <;> trivial

theorem undefined_of_evaluation {name text : String}
    (h : l.Trap values s (.error (.evaluation name text))) : l.Undefined values s := by
  cases h; assumption

end Launch.Trap

/-- The fields of all trees lie inside live allocations. -/
theorem World.Accounted.lives {w : World} (h : w.Accounted) {place : NodeId} {b : Binding}
    (hb : w.program.engine.binding? place = some b) : b.Lives w.program.device := by
  obtain ⟨s, hs, hsb⟩ := List.exists_of_findSome?_eq_some hb
  obtain ⟨f, hf, rfl⟩ := Option.map_eq_some_iff.1 hsb
  obtain ⟨id, hid⟩ := (Table.mem_values_iff h.storage).1 hs
  obtain ⟨-, root, hroot⟩ := h.packed hid
  have hlays := Packing.lays_ofTree? hroot
  have hmem := List.mem_of_find?_eq_some hf
  obtain ⟨data, hd, hsize⟩ := h.storage_live hid
  exact ⟨hlays.fits f hmem, data, hd, by rw [hsize]; exact (hlays.within f hmem).2⟩

namespace Program

variable {p : Program} {k : Kernel} {code : Code} {args : List Value}

/-- An error of a run is what stopped it. -/
theorem run_error {e e' : Engine} {slots slots' : ResultSlots} {f : Failure}
    (h : (Engine.run code args).on (e, slots) = (.error f, e', slots')) :
    ∃ halt, ((e.launchOf code args).run ⟨e.device, slots⟩).1 = .error halt ∧ halt.failure = f := by
  obtain ⟨r, m, hr⟩ : ∃ r m, (e.launchOf code args).run ⟨e.device, slots⟩ = (r, m) := ⟨_, _, rfl⟩
  rw [Engine.run_on code args e slots hr] at h
  have hanswer := congrArg Prod.fst h
  cases r with
  | ok _ => cases hanswer
  | error halt =>
    simp only [Engine.answerAfter] at hanswer
    split at hanswer <;> cases hanswer
    exact ⟨halt, by rw [hr], rfl⟩

/-- A launch that fails did not get to run code, or was stopped at a statement of it. -/
theorem LaunchOutcome.stopped {q : Program} {f : Failure} (h : LaunchOutcome p k args (.error f, q)) :
    (f.OfLaunch ∧ ∀ name text, f ≠ .error (.evaluation name text)) ∨
    ∃ code values n s rest, args.length = k.args.length ∧ Runs k code ∧
      (p.engine.launchOf code args).Reaches ⟨p.device, p.slots⟩ values n (s :: rest) ∧
      (p.engine.launchOf code args).step n values s = .error f := by
  generalize hx : (Except.error f, q) = x at h
  cases h with
  | miscounted _ =>
    cases hx
    exact .inl ⟨trivial, fun _ _ h => (by cases h)⟩
  | defective hl _ =>
    cases hx
    rcases Kernel.lower_error hl with ⟨_, rfl⟩ | ⟨_, rfl⟩ <;>
      exact .inl ⟨trivial, fun _ _ h => (by cases h)⟩
  | @ran r t code hargs hc hq ht =>
    have hf := (congrArg Prod.fst hx).symm
    have hengine : r.engine = p.engine := congrArg Backend.engine hq.backend
    simp only [runCode_on, hengine, show r.slots = p.slots from hq.slots] at hf
    generalize he : (Engine.run code args).on (p.engine, p.slots) = y at hf
    obtain ⟨z, e, slots⟩ := y
    obtain rfl : z = .error f := hf
    obtain ⟨halt, hhalt, rfl⟩ := run_error he
    obtain ⟨values, n, s, rest, hr, hs, -⟩ := Launch.Reaches.start.halted hhalt
    exact .inr ⟨code, values, n, s, rest, hargs, hc, hr, hs⟩

end Program

/-- The code of a kernel of the program, whenever it was compiled, is sound on the fields there are
now. -/
theorem World.Accounted.sound {w : World} (h : w.Accounted) {k : Kernel} {code : Code}
    {args : List Value} (hc : k.Makes code) (hargs : args.length = k.args.length) :
    (w.program.engine.launchOf code args).Sound k.args k.rets.length w.program.device := by
  obtain ⟨-, optimize, hl⟩ := hc
  obtain ⟨hw, hrets⟩ := Kernel.lower_wellFormed hl
  exact ⟨hw, hargs, hrets, h.lives⟩

/-- In every state that a run of honest callers comes to, whatever kernel of the program is launched
with whatever arguments: only the six listed errors are reported, a failure to evaluate only where
there is no value, and no code that the launch may run goes wrong on the way. -/
theorem Run.launch_safe {w : World} {cs : List Command} (r : Run World.Honest w cs) {id : Nat}
    {k : Kernel} (hk : w.program.kernels.find? id = some k) (thread : Thread) (args : List Value) :
    (∀ f, ((launch thread id args).on w.program).1 = .error f → f.OfLaunch) ∧
    (∀ name text, ((launch thread id args).on w.program).1 = .error (.error (.evaluation name text)) →
      ∃ code values n s rest, Runs k code ∧
        (w.program.engine.launchOf code args).Reaches ⟨w.program.device, w.program.slots⟩ values n
          (s :: rest) ∧
        (w.program.engine.launchOf code args).step n values s =
          .error (.error (.evaluation name text)) ∧
        (w.program.engine.launchOf code args).Undefined values s) ∧
    (∀ code, Runs k code → args.length = k.args.length →
      (w.program.engine.launchOf code args).Safe ⟨w.program.device, w.program.slots⟩) := by
  obtain ⟨hp, hcat⟩ := r.catalogued
  have hacc := r.accounted fun _ _ h => h
  have hsafe {code : Code} (hc : Runs k code) (hargs : args.length = k.args.length) :
      (w.program.engine.launchOf code args).Safe ⟨w.program.device, w.program.slots⟩ :=
    (hacc.sound (hcat.makes hk hc) hargs).safe
  have hcases := launch_outcome hp hk thread args
  generalize (launch thread id args).on w.program = x at hcases ⊢
  obtain ⟨x, q⟩ := x
  refine ⟨?_, ?_, fun code hc hargs => hsafe hc hargs⟩
  · rintro f rfl
    rcases hcases.stopped with ⟨h, -⟩ | ⟨code, values, n, s, rest, hargs, hc, hr, hs⟩
    · exact h
    · exact ((hsafe hc hargs).traps hr hs).ofLaunch
  · rintro name text rfl
    rcases hcases.stopped with ⟨-, h⟩ | ⟨code, values, n, s, rest, hargs, hc, hr, hs⟩
    · exact absurd rfl (h name text)
    · exact ⟨code, values, n, s, rest, hc, hr, hs,
        ((hsafe hc hargs).traps hr hs).undefined_of_evaluation⟩

/-- The making of a kernel that divides by zero. -/
def makeDivision : Command :=
  .createKernel "quotient" .off [.emit (.const (.int 1) (.scalar .int64)),
    .emit (.const (.int 0) (.scalar .int64)), .emit (.binary .idiv 0 1 (.scalar .int64)), .ret 2]

/-- Launching it fails to evaluate, and that is because there is no quotient. -/
theorem Run.launch_safe_division :
    Run World.Honest (World.fresh.step makeDivision) [makeDivision] ∧
    ∃ k name text, (World.fresh.step makeDivision).program.kernels.find? 0 = some k ∧
      ((launch 0 0 []).on (World.fresh.step makeDivision).program).1 =
        .error (.error (.evaluation name text)) ∧
      ∃ code values s, Runs k code ∧ ((World.fresh.step makeDivision).program.engine.launchOf code
        []).Undefined values s := by
  have r : Run World.Honest (World.fresh.step makeDivision) [makeDivision] :=
    .once trivial
  refine ⟨r, _, _, _, rfl, rfl, ?_⟩
  obtain ⟨code, values, n, s, rest, hc, -, -, hu⟩ := (@r.launch_safe _ _ 0 _ rfl 0 []).2.1 _ _ rfl
  exact ⟨code, values, s, hc, hu⟩

end FieldCompute
