import FieldCompute.Proofs.Program.Catalogue
import FieldCompute.Proofs.Program.Recording
/-!
# Under which settings code was made

A kernel is compiled at most once, and whether its code checks bounds is settled then, by the
settings of the thread that compiles it: later launches run that code, whatever their own settings
say (`RunsUnder.checksBounds`).
-/

namespace FieldCompute

open Routine

namespace Program

variable {p q : Program} {s c : Config} {thread : Thread} {id : Nat} {k : Kernel} {code : Code}
  {args : List Value}

/-- A thread's settings as it would find them. -/
def settings (p : Program) (thread : Thread) : Config := (p.overlay.thisThread thread).1

theorem thisConfig_ok (thread : Thread) (p : Program) :
    ∃ q, (thisConfig thread).on p = (.ok (p.settings thread), q) ∧ p.Discreet q :=
  ⟨_, rfl, (thisConfig_told thread p).discreet⟩

/-- The code is what the kernel has, or it is new and made under the settings. -/
def Given (s : Config) (k : Kernel) (code : Code) : Prop :=
  k.code? = some code ∨ k.code? = none ∧ code.checksBounds = s.checksBounds

theorem Given.kept (h : Given s k code) : k.code?.or (some code) = some code := by
  rcases h with h | ⟨h, -⟩ <;> rw [h] <;> rfl

theorem Given.made (h : Given s k code) (hn : k.code? = none) :
    code.checksBounds = s.checksBounds := by
  rcases h with h | ⟨-, h⟩
  · rw [hn] at h
    cases h
  · exact h

theorem codeUnder_given (hp : p.Hosted) (h : (codeUnder c k).on p = (.ok code, q)) :
    Given c k code := by
  unfold codeUnder at h
  split at h
  · cases h
    exact .inl ‹_›
  · obtain ⟨r, -, hr⟩ := compileUnder_outcome hp c k
    rw [h] at hr
    cases hl : k.lower c.advancedOptimization with
    | error e => rw [hl] at hr; cases hr
    | ok body => rw [hl] at hr; cases hr; exact .inr ⟨‹_›, rfl⟩

theorem prepare_given (hp : p.Hosted) (h : (prepare thread k args).on p = (.ok (c, code), q)) :
    Given (p.settings thread) k code := by
  obtain ⟨r, hr, hpr⟩ := thisConfig_ok thread p
  rw [prepare] at h
  split at h
  · rw [on_throw_bind] at h
    cases h
  · rw [on_bind_of_ok hr, on_bind] at h
    cases hc : (codeUnder (p.settings thread) k).on r with
    | mk x t =>
      rw [hc] at h
      cases x with
      | error f => cases h
      | ok code' =>
        cases h
        exact codeUnder_given (hp.of_backend hpr.backend) hc

/-- The code of a launch. -/
theorem readied?_given (hp : p.Hosted) (h : p.readied? thread (pure id) args = some code) :
    ∃ k, p.kernels.find? id = some k ∧ Given (p.settings thread) k code := by
  cases hk : p.kernels.find? id with
  | none =>
    rw [readied?_unknown hk] at h
    cases h
  | some k =>
    rw [readied?_known hk] at h
    cases hx : (prepare thread k args).on p with
    | mk r t =>
      rw [hx] at h
      obtain f | ⟨c, code'⟩ := r <;> cases h
      exact ⟨k, rfl, prepare_given hp hx⟩

/-! ## What operations do to code -/

/-- Kernels may have got code that was made under the settings. All code that there was is kept. -/
def CodesUnder (s : Config) (p q : Program) : Prop :=
  ∀ id, q.codeOf? id = p.codeOf? id ∨
    p.codeOf? id = none ∧ ∃ code, q.codeOf? id = some code ∧ code.checksBounds = s.checksBounds

instance : Std.Refl (CodesUnder s) := ⟨fun _ _ => .inl rfl⟩

instance : IsTrans Program (CodesUnder s) where
  trans p q r h h' id := by
    rcases h id with h | ⟨hn, code, hq, hc⟩
    · have h' := h' id
      rwa [h] at h'
    · rcases h' id with h' | ⟨hn', -⟩
      · exact .inr ⟨hn, code, h'.trans hq, hc⟩
      · rw [hq] at hn'
        cases hn'

theorem CodesUnder.of_kernels (h : q.kernels = p.kernels) : CodesUnder s p q := by
  intro id
  rw [codeOf?, codeOf?, h]
  exact .inl rfl

theorem CodesUnder.of_quiet (h : p.Quiet q) : CodesUnder s p q := .of_kernels h.kernels

/-- The kernel keeps the code that it has, or gets some. -/
theorem CodesUnder.insert (hk : p.kernels.find? k.id = some k)
    (hc : k.code? = none → code.checksBounds = s.checksBounds)
    (hq : q.kernels = p.kernels.insert k.id { k with code? := k.code?.or (some code) }) :
    CodesUnder s p q := by
  intro id
  rw [codeOf?_insert (p := p) (k := { k with code? := k.code?.or (some code) }) hq]
  split
  · have hcode : p.codeOf? id = k.code? := by
      subst id
      rw [codeOf?, hk]
      rfl
    rw [hcode]
    cases hn : k.code? with
    | some code' => exact .inl rfl
    | none => exact .inr ⟨rfl, code, rfl, hc hn⟩
  · exact .inl rfl

theorem keepCode_under (hk : p.kernels.find? id = some k) (hid : k.id = id)
    (hc : k.code? = none → code.checksBounds = s.checksBounds) :
    CodesUnder s p ((keepCode id code).on p).2 := by
  subst id
  rw [keepCode, on_bind_of_ok (kernelOf_known hk)]
  exact .insert hk hc rfl

theorem Catalogued.compile_under (h : p.Catalogued) (hp : p.Hosted) (thread : Thread) (id : Nat) :
    CodesUnder (p.settings thread) p ((compile thread id).on p).2 := by
  refine bind_at (.of_quiet (kernelOf_quiet id p)) fun {q k} hq => ?_
  obtain ⟨hk, rfl⟩ := kernelOf_ok hq
  obtain ⟨r, hr, hqr⟩ := thisConfig_ok thread q
  rw [on_bind_of_ok hr]
  refine IsTrans.trans _ _ _ (CodesUnder.of_quiet hqr.toQuiet) ?_
  refine bind_at (.of_quiet (codeUnder_quiet _ k r)) fun {t code} ht => ?_
  have hrt : r.Quiet t := (codeUnder_quiet _ k).ends ht
  have hkernels : t.kernels = q.kernels := hrt.kernels.trans hqr.kernels
  exact keepCode_under (by rw [hkernels, hk]) (h.id hk).1
    (codeUnder_given (hp.of_backend hqr.backend) ht).made

theorem Catalogued.adoptCode_under (h : p.Catalogued) (id : Nat) (s : Config) :
    CodesUnder s p ((adoptCode id s).on p).2 := by
  refine bind_at (.of_quiet (kernelOf_quiet id p)) fun {q k} hq => ?_
  obtain ⟨hk, rfl⟩ := kernelOf_ok hq
  rw [expect, on_answer_bind]
  cases k.lower s.advancedOptimization with
  | error e => exact Std.Refl.refl q
  | ok body => exact keepCode_under hk (h.id hk).1 fun _ => rfl

theorem Catalogued.launch_under (h : p.Catalogued) (hp : p.Hosted) (thread : Thread) (id : Nat)
    (args : List Value) :
    CodesUnder (p.settings thread) p ((launch thread id args).on p).2 := by
  have hl := launched hp thread id args
  have hg := fun code => @readied?_given p thread id code args hp
  generalize p.readied? thread (pure id) args = code?, (launch thread id args).on p = x at hl hg
  cases hl with
  | unready _ hq => exact .of_quiet hq.toQuiet
  | ran hk hc hr =>
    obtain ⟨k', hk', hgiven⟩ := hg _ rfl
    obtain rfl := Option.some.inj (hk.symm.trans hk')
    obtain ⟨rfl, -⟩ := h.id hk
    exact .insert hk hgiven.made (by rw [hgiven.kept]; exact hr.kernels)

theorem Catalogued.accessor_under (h : p.Catalogued) (a : Accessor) (place : NodeId) :
    CodesUnder s p ((accessor a place).on p).2 := by
  have ho := accessor_outcome p a place
  generalize (accessor a place).on p = x at ho ⊢
  cases ho with
  | known _ => exact Std.Refl.refl p
  | notAField _ => exact Std.Refl.refl p
  | @made place hp =>
    intro id
    have hnew : p.codeOf? p.nextKernel = none := by
      cases hf : p.kernels.find? p.nextKernel with
      | none => rw [codeOf?, hf]; rfl
      | some k => exact absurd (h.id hf).2 (Nat.lt_irrefl _)
    rw [codeOf?_insert (p := p) (k := a.kernel place p.nextKernel) rfl]
    split
    · subst id
      rw [show (a.kernel place p.nextKernel).id = p.nextKernel from rfl, hnew]
      exact .inl rfl
    · exact .inl rfl

/-- What is launched for a place is its accessor kernel. -/
theorem Catalogued.accessed_under {α : Type} {run : Nat → Op α} (h : p.Catalogued) (hp : p.Hosted)
    (a : Accessor) (place : NodeId)
    (hrun : ∀ {q : Program} (kernel : Nat), q.Catalogued → q.Hosted →
      CodesUnder (q.settings thread) q ((run kernel).on q).2) :
    CodesUnder (p.settings thread) p ((accessor a place >>= run).on p).2 := by
  obtain ⟨hb, -, ho⟩ := accessor_leaves a place p
  refine bind_at (h.accessor_under a place) fun {q kernel} hq => ?_
  obtain ⟨hhosted, hcalm⟩ := accessor_calm a place p hp
  rw [hq] at ho hhosted hcalm
  have hs : q.settings thread = p.settings thread := by rw [settings, settings, ho]
  rw [← hs]
  exact hrun kernel (h.chain (hcalm [])) hhosted

theorem Catalogued.readField_under (h : p.Catalogued) (hp : p.Hosted) (thread : Thread)
    (place : NodeId) (indices : List Int) :
    CodesUnder (p.settings thread) p ((readField thread place indices).on p).2 := by
  refine h.accessed_under hp .reader place fun {q} kernel hq hhosted => ?_
  refine bind_at (hq.launch_under hhosted thread kernel _) fun {t _} _ => .of_quiet ?_
  exact readResult_quiet kernel t

theorem Catalogued.writeField_under (h : p.Catalogued) (hp : p.Hosted) (thread : Thread)
    (place : NodeId) (indices : List Int) (v : Value) :
    CodesUnder (p.settings thread) p ((writeField thread place indices v).on p).2 :=
  h.accessed_under hp .writer place fun kernel hq hhosted => hq.launch_under hhosted thread kernel _

end Program

/-! ## Commands -/

open Program in
/-- The settings under which the command compiles a kernel, if it does. Those of evaluators, which
touch no field, are left out. -/
def World.settings? (w : World) : Command → Option Config
  | .compile thread _ | .launch thread _ _ | .readField thread _ _ | .writeField thread _ _ _ =>
    some (w.program.settings thread)
  | .adoptCode _ s => some s
  | _ => none

open Program in
theorem World.step_codes {w : World} {c : Command} {s : Config} (hp : w.program.Hosted)
    (h : w.program.Catalogued) (hs : w.settings? c = some s) :
    CodesUnder s w.program (w.step c).program := by
  have quietly {α : Type} {op : Op α} (h : CodesUnder s w.program (op.on w.program).2) :
      CodesUnder s w.program
        ((do let _ ← op; return none : Op (Option Allocation)).on w.program).2 := by
    rw [on_bind_snd fun _ _ => rfl]
    exact h
  rw [step_program]
  cases c with
  | compile thread kernel => cases hs; exact quietly (h.compile_under hp _ _)
  | launch thread kernel args => cases hs; exact quietly (h.launch_under hp _ _ _)
  | readField thread place indices => cases hs; exact quietly (h.readField_under hp _ _ _)
  | writeField thread place indices v => cases hs; exact quietly (h.writeField_under hp _ _ _ _)
  | adoptCode kernel s => cases hs; exact quietly (h.adoptCode_under _ _)
  | _ => cases hs

/-! ## Runs -/

/-- The kernel got its code by one of the commands, made under these settings. -/
def CompiledUnder (w : World) (cs : List Command) (id : Nat) (s : Config) : Prop :=
  ∃ before c after, cs = before ++ c :: after ∧
    (before.foldl World.step w).program.codeOf? id = none ∧
    ((before.foldl World.step w).step c).program.codeOf? id ≠ none ∧
    (before.foldl World.step w).settings? c = some s

/-- The settings under which the code was compiled that a launch of the kernel by the thread runs,
behind the commands: those when it got its code or, as long as it has none, the thread's own. -/
inductive RunsUnder (w : World) (cs : List Command) (thread : Thread) (id : Nat) : Config → Prop
  | compiled {s : Config} : CompiledUnder w cs id s → RunsUnder w cs thread id s
  | uncompiled : (cs.foldl World.step w).program.codeOf? id = none →
    RunsUnder w cs thread id ((cs.foldl World.step w).program.settings thread)

section Runs

variable {ok : World → Command → Prop} {w : World} {cs later : List Command} {id : Nat}
  {s : Config} {thread : Thread} {args : List Value} {code : Code}

theorem CompiledUnder.codeOf? (h : CompiledUnder w later id s) (r : Run ok w cs) :
    ∃ code, (later.foldl World.step w).program.codeOf? id = some code ∧
      code.checksBounds = s.checksBounds := by
  obtain ⟨before, c, after, rfl, hnone, hsome, hs⟩ := h
  have r' := r.foldl before
  obtain ⟨hp, hc⟩ := r'.catalogued
  rcases World.step_codes hp hc hs id with h | ⟨-, code, hcode, hchecks⟩
  · exact absurd (h.trans hnone) hsome
  · have hkept := ((r'.step c trivial).keepsKernels_foldl after).codeOf? hcode
    exact ⟨code, by rw [List.foldl_append]; exact hkept, hchecks⟩

/-- The code that a launch runs checks bounds if those settings say so. -/
theorem RunsUnder.checksBounds (h : RunsUnder w later thread id s) (r : Run ok w cs)
    (hr : (later.foldl World.step w).program.readied? thread (pure id) args = some code) :
    code.checksBounds = s.checksBounds := by
  obtain ⟨k, hk, hg⟩ := Program.readied?_given (r.foldl later).hosted hr
  have hcode : (later.foldl World.step w).program.codeOf? id = k.code? := by
    rw [Program.codeOf?, hk]
    rfl
  cases h with
  | compiled h =>
    obtain ⟨code', hcode', hchecks⟩ := h.codeOf? r
    rw [hcode] at hcode'
    have hkept := hg.kept
    rw [hcode', Option.some_or] at hkept
    cases hkept
    exact hchecks
  | uncompiled h => exact hg.made (hcode.symm.trans h)

end Runs

end FieldCompute
