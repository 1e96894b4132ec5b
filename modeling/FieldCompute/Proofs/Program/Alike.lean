import FieldCompute.Proofs.Abreast
import FieldCompute.Proofs.Program.Launches
import FieldCompute.Proofs.Program.Memory
/-!
# Programs that differ in checks

Two programs are `Alike` for a thread if they differ only in whether other threads check bounds, in
whether the code of kernels does, and in the fault that is pending. Most operations do not look at
any of that, so from programs that are alike they give the same answer and end in programs that are
alike (`Respects`).
-/

namespace FieldCompute

open Routine

/-! ## Without checks -/

/-- The settings with the checks off. -/
def Config.unchecked (c : Config) : Config := { c with debug := false, checkOutOfBound := false }

def Code.unchecked (c : Code) : Code := { c with checksBounds := false }

def Kernel.unchecked (k : Kernel) : Kernel := { k with code? := k.code?.map Code.unchecked }

/-- The same up to what `f` forgets; the very same if `q`. -/
structure UpTo {α : Type} (f : α → α) (q : Prop) (x y : α) : Prop where
  alike : f x = f y
  same : q → x = y

namespace UpTo

variable {α : Type} {f : α → α} {q q' : Prop} {x y : α}

theorem refl (x : α) : UpTo f q x x := ⟨rfl, fun _ => rfl⟩

theorem weaken (h : UpTo f q x y) (hq : q' → q) : UpTo f q' x y := ⟨h.alike, h.same ∘ hq⟩

/-- Two look-ups. -/
theorem cases {x y : Option α} (h : UpTo (Option.map f) q x y) :
    (x = none ∧ y = none) ∨ ∃ a b, x = some a ∧ y = some b ∧ UpTo f q a b := by
  obtain ⟨halike, hsame⟩ := h
  cases x with
  | none => exact .inl ⟨rfl, (Option.map_eq_none_iff.1 halike.symm)⟩
  | some a =>
    obtain ⟨b, rfl, hb⟩ := Option.map_eq_some_iff.1 halike.symm
    exact .inr ⟨a, b, rfl, rfl, hb.symm, fun hq => Option.some.inj (hsame hq)⟩

end UpTo

/-- Two tables with the same keys and the same values up to what `f` forgets; at `own` keys the
values are the very same. -/
def Table.Alike {κ ν : Type} [DecidableEq κ] (f : ν → ν) (own : κ → Prop) (t t' : Table κ ν) :
    Prop := ∀ k, UpTo (Option.map f) (own k) (t.find? k) (t'.find? k)

theorem Table.Alike.insert {κ ν : Type} [DecidableEq κ] {f : ν → ν} {own : κ → Prop}
    {t t' : Table κ ν} (h : t.Alike f own t') {k : κ} {v v' : ν} (hv : UpTo f (own k) v v') :
    (t.insert k v).Alike f own (t'.insert k v') := by
  intro j
  rw [find?_insert, find?_insert]
  split
  · subst j
    exact ⟨congrArg some hv.alike, fun hq => congrArg some (hv.same hq)⟩
  · exact h j

/-- Other threads than `t` may differ in checks. The thread itself has settings of its own. -/
structure Overlay.Alike (t : Thread) (o o' : Overlay) : Prop where
  main : o'.main = o.main
  owned : (o.configOf? t).isSome
  configs : o.configs.Alike Config.unchecked (· = t) o'.configs

/-- The code of kernels may differ in checks, but not where `S` says that the kernels are the
same. -/
structure KernelsAlike (S : Nat → Prop) (ks ks' : Table Nat Kernel) : Prop where
  id {id : Nat} {k : Kernel} : ks.find? id = some k → k.id = id
  table : ks.Alike Kernel.unchecked S ks'

inductive Engine.Alike : Engine → Engine → Prop
  | fault {e : Engine} (fault : Option String) : Alike e { e with fault }

inductive Backend.Alike : Backend → Backend → Prop
  | fault {b : Backend} (fault : Option String) :
    Alike b { b with engine := { b.engine with fault } }

/-- The program with other settings, kernels and fault. -/
def Program.vary (p : Program) (overlay : Overlay) (kernels : Table Nat Kernel)
    (fault : Option String) : Program :=
  { p with overlay, kernels }.withEngine { p.engine with fault }

inductive Program.Alike (t : Thread) (S : Nat → Prop) : Program → Program → Prop
  | vary {p : Program} {o : Overlay} {ks : Table Nat Kernel} (fault : Option String) :
    p.overlay.Alike t o → KernelsAlike S p.kernels ks → Alike t S p (p.vary o ks fault)

/-! ## The engine -/

namespace Engine

variable {α : Type}

theorem onPool_respects (a : Routine Pool DeviceError α) : (onPool a).Respects Alike := by
  rintro e _ ⟨f⟩
  exact ⟨rfl, .fault f⟩

theorem throughPool_respects (a : Routine Pool DeviceError α) : (throughPool a).Respects Alike := by
  rintro e _ ⟨f⟩
  rw [Abreast, Program.throughPool_on, Program.throughPool_on]
  split
  · exact onPool_respects a _ _ (.fault f)
  · exact ⟨rfl, .fault f⟩

theorem materialize_respects (tree : FieldTree) : (materialize tree).Respects Alike := by
  refine (Respects.answer _).bind fun packing => (throughPool_respects _).bind fun allocation => ?_
  refine .modify ?_
  rintro e _ ⟨f⟩
  exact .fault f

theorem destroy_respects (tree : Nat) : (destroy tree).Respects Alike := by
  refine .get_bind ?_
  rintro e _ ⟨f⟩
  cases e.storage.find? tree with
  | none => exact ⟨rfl, .fault f⟩
  | some s => exact .set_bind (throughPool_respects _ _ _ (.fault f))

theorem finalize_respects : finalize.Respects Alike := by
  have detach : (modify ({ · with attached := false }) : Routine Engine Failure Unit).Respects
      Alike := by
    refine .modify ?_
    rintro e _ ⟨f⟩
    exact .fault f
  refine .get_bind ?_
  rintro e _ ⟨f⟩
  refine .set_bind ?_
  dsimp only
  split
  · refine Respects.bind (.forM _ fun s => ?_) (fun _ => detach) _ _ (.fault f)
    exact throughPool_respects _
  · exact detach _ _ (.fault f)

end Engine

namespace Backend

variable {α : Type}

theorem Alike.refusal? {b b' : Backend} (h : b.Alike b') (call : BackendCall)
    (subject? : Option Nat) : b'.refusal? call subject? = b.refusal? call subject? := by
  cases h
  rfl

theorem Alike.engine {b b' : Backend} (h : b.Alike b') : b.engine.Alike b'.engine := by
  obtain ⟨f⟩ := h
  exact .fault f

theorem onEngine_respects {a : Routine Engine Failure α} (h : a.Respects Engine.Alike) :
    (onEngine a).Respects Alike := by
  refine h.zoom Alike.engine ?_
  rintro b _ e _ ⟨f⟩ ⟨f'⟩
  exact .fault f'

theorem guarded_respects (call : BackendCall) (subject? : Option Nat)
    {a : Routine Engine Failure α} (h : a.Respects Engine.Alike) :
    (guarded call subject? a).Respects Alike := by
  refine .get_bind fun {b b'} hb => ?_
  rw [hb.refusal?]
  cases b.refusal? call subject? with
  | some reason => exact ⟨rfl, hb⟩
  | none => exact onEngine_respects h _ _ hb

end Backend

/-! ## Operations that do not look at what differs -/

namespace Program

variable {α : Type} {t : Thread} {S : Nat → Prop} {p p' : Program}

theorem Alike.kernels (h : p.Alike t S p') : KernelsAlike S p.kernels p'.kernels := by
  obtain ⟨_, -, hk⟩ := h
  exact hk

theorem Alike.backend (h : p.Alike t S p') : p.backend.Alike p'.backend := by
  obtain ⟨f, -, -⟩ := h
  exact .fault f

/-- What does not depend on settings, kernels and fault. -/
theorem Alike.same (h : p.Alike t S p') {β : Type} (g : Program → β)
    (hg : ∀ (q : Program) (o : Overlay) (ks : Table Nat Kernel) (f : Option String),
      g (q.vary o ks f) = g q) : g p' = g p := by
  obtain ⟨f, -, -⟩ := h
  exact hg _ _ _ _

/-- A routine that does the same whatever the settings, the kernels and the fault. -/
theorem respects_of_vary {a : Op α} (h : ∀ (p : Program) (o : Overlay) (ks : Table Nat Kernel)
    (f : Option String), a.on (p.vary o ks f) = ((a.on p).1, (a.on p).2.vary o ks f)) :
    a.Respects (Alike t S) := by
  rintro p _ ⟨f, ho, hk⟩
  -- As the program is one of its own variations, the routine changes nothing of all that.
  have hkept : (a.on p).2 = (a.on p).2.vary p.overlay p.kernels p.engine.fault :=
    congrArg Prod.snd (h p p.overlay p.kernels p.engine.fault)
  have hoverlay : (a.on p).2.overlay = p.overlay := by rw [hkept]; rfl
  have hkernels : (a.on p).2.kernels = p.kernels := by rw [hkept]; rfl
  rw [Abreast, h]
  refine ⟨rfl, .vary f ?_ ?_⟩
  · rwa [hoverlay]
  · rwa [hkernels]

theorem onBackend_respects {a : Routine Backend Failure α} (h : a.Respects Backend.Alike) :
    (onBackend a).Respects (Alike t S) := by
  refine h.zoom Alike.backend ?_
  rintro p _ b _ ⟨f, ho, hk⟩ ⟨f'⟩
  exact .vary f' ho hk

theorem onEngine_respects {a : Routine Engine Failure α} (h : a.Respects Engine.Alike) :
    (onEngine a).Respects (Alike t S) := onBackend_respects (Backend.onEngine_respects h)

/-- A call of the pool, whoever makes it. -/
theorem onPool_respects (a : Routine Pool DeviceError α) :
    (onEngine (Engine.onPool a)).Respects (Alike t S) :=
  onEngine_respects (Engine.onPool_respects a)

theorem throughBackend_respects (call : BackendCall) (subject? : Option Nat)
    {a : Routine Engine Failure α} (h : a.Respects Engine.Alike) :
    (onBackend (Backend.guarded call subject? a)).Respects (Alike t S) :=
  onBackend_respects (Backend.guarded_respects call subject? h)

theorem tell_respects (events : List Event) : (tell events).Respects (Alike t S) :=
  respects_of_vary fun _ _ _ _ => rfl

theorem takeResults_respects (slots : ResultSlots) :
    (modify ({ · with slots }) : Op Unit).Respects (Alike t S) :=
  respects_of_vary fun _ _ _ _ => rfl

theorem storeResult_respects (slot : Nat) (w : UInt64) :
    (storeResult slot w).Respects (Alike t S) := by
  refine .get_bind fun {p p'} h => ?_
  rw [h.same (·.slots) fun _ _ _ _ => rfl]
  cases p.slots.store slot w with
  | error e => exact ⟨rfl, h⟩
  | ok slots =>
    obtain ⟨f, ho, hk⟩ := h
    exact ⟨rfl, .vary f ho hk⟩

theorem profilerStart_respects (name : String) : (profilerStart name).Respects (Alike t S) :=
  respects_of_vary fun _ _ _ _ => rfl

theorem profilerStop_respects : profilerStop.Respects (Alike t S) :=
  respects_of_vary fun _ _ _ _ => rfl

theorem clearProfile_respects : clearProfile.Respects (Alike t S) :=
  respects_of_vary fun _ _ _ _ => rfl

theorem takeKernelId_respects : takeKernelId.Respects (Alike t S) :=
  respects_of_vary fun _ _ _ _ => rfl

theorem takeGlobalId_respects : takeGlobalId.Respects (Alike t S) :=
  respects_of_vary fun _ _ _ _ => rfl

theorem synchronize_respects : synchronize.Respects (Alike t S) :=
  throughBackend_respects _ _ (.done _)

theorem function_respects (key : FunctionKey) : (function key).Respects (Alike t S) := by
  refine .get_bind fun {p p'} h => ?_
  rw [h.same (·.functionIndex) fun _ _ _ _ => rfl]
  cases p.functionIndex.find? key.identity with
  | some i => exact ⟨rfl, h⟩
  | none =>
    obtain ⟨f, ho, hk⟩ := h
    exact ⟨rfl, .vary f ho hk⟩

theorem setBody_respects (i : Nat) (b : Block) : (setBody i b).Respects (Alike t S) := by
  refine .get_bind fun {p p'} h => ?_
  rw [h.same (·.functions) fun _ _ _ _ => rfl]
  cases p.functions[i]? with
  | none => exact ⟨rfl, h⟩
  | some function =>
    obtain ⟨f, ho, hk⟩ := h
    exact ⟨rfl, .vary f ho hk⟩

/-! ### Trees -/

theorem addTree_respects (root : Node) (compileOnly : Bool) :
    (addTree root compileOnly).Respects (Alike t S) := by
  refine .get_bind fun {p p'} h => ?_
  rw [h.same (·.trees) fun _ _ _ _ => rfl]
  obtain ⟨tree, trees⟩ := p.trees.add root compileOnly
  obtain ⟨f, ho, hk⟩ := h
  refine .set_bind ?_
  cases compileOnly with
  | true => exact ⟨rfl, .vary f ho hk⟩
  | false =>
    have hm := throughBackend_respects (t := t) (S := S) .materialize tree.id
      (Engine.materialize_respects tree)
    refine (hm.attempt).bind (fun r => ?_) _ _ (.vary f ho hk)
    cases r with
    | ok _ => exact .done _
    | error e => exact (respects_of_vary fun _ _ _ _ => rfl).bind fun _ => .fail e

theorem destroyTree_respects (id : Nat) : (destroyTree id).Respects (Alike t S) := by
  refine .get_bind fun {p p'} h => ?_
  rw [h.same (·.trees) fun _ _ _ _ => rfl]
  obtain ⟨_ | tree, trees⟩ := p.trees.remove id
  · exact ⟨rfl, h⟩
  · obtain ⟨f, ho, hk⟩ := h
    refine .set_bind ?_
    split
    · exact throughBackend_respects _ _ (Engine.destroy_respects id) _ _ (.vary f ho hk)
    · exact ⟨rfl, .vary f ho hk⟩

/-! ### Arrays and textures -/

theorem allocateMemory_respects (size : Nat) (zero : Bool) :
    (allocateMemory size zero).Respects (Alike t S) :=
  onEngine_respects (Engine.throughPool_respects _)

theorem allocateImage_respects (i : Image) : (allocateImage i).Respects (Alike t S) :=
  onPool_respects _

theorem ndarray_respects (id : Nat) : (ndarray id).Respects (Alike t S) := by
  refine .get_bind fun {p p'} h => ?_
  rw [h.same (·.ndarrays) fun _ _ _ _ => rfl]
  cases p.ndarrays.find? id with
  | some a => exact ⟨rfl, h⟩
  | none => exact ⟨rfl, h⟩

theorem createNdarray_respects (dtype : DType) (shape : List Nat) (layout : ArrayLayout)
    (zero : Bool) : (createNdarray dtype shape layout zero).Respects (Alike t S) := by
  unfold createNdarray
  split
  · exact .fail _
  · exact (allocateMemory_respects _ zero).bind fun _ => respects_of_vary fun _ _ _ _ => rfl

theorem deleteNdarray_respects (id : Nat) : (deleteNdarray id).Respects (Alike t S) := by
  refine (ndarray_respects id).bind fun a => ?_
  refine (respects_of_vary fun _ _ _ _ => rfl).bind fun _ => ?_
  exact throughBackend_respects _ _ (Engine.throughPool_respects _)

theorem fillNdarray_respects (id : Nat) (pattern : UInt32) :
    (fillNdarray id pattern).Respects (Alike t S) := by
  refine (ndarray_respects id).bind fun a => .get_bind fun {p p'} h => ?_
  rw [h.same (·.device) fun _ _ _ _ => rfl]
  exact (Respects.answer _).bind (fun _ => respects_of_vary fun _ _ _ _ => rfl) _ _ h

theorem createTexture_respects (i : Image) : (createTexture i).Respects (Alike t S) :=
  (allocateImage_respects i).bind fun _ => respects_of_vary fun _ _ _ _ => rfl

/-! ### The end of a program -/

theorem attemptStep_respects {step : Op Unit} (h : step.Respects (Alike t S)) :
    (attemptStep step).Respects (Alike t S) := by
  refine h.attempt.bind fun r => ?_
  cases r with
  | ok _ => exact .done _
  | error e => exact (tell_respects _).bind fun _ => .done _

theorem teardown_respects (p : Program) {step : Op Unit} (h : step ∈ p.teardown) :
    step.Respects (Alike t S) := by
  simp only [teardown, List.mem_append, List.mem_cons, List.mem_map, List.not_mem_nil,
    or_false] at h
  rcases h with (((rfl | ⟨a, -, rfl⟩) | ⟨texture, -, rfl⟩) | ⟨tree, -, rfl⟩) | rfl | rfl
  · exact synchronize_respects
  · exact throughBackend_respects _ _ (Engine.throughPool_respects _)
  · exact throughBackend_respects _ _ (Engine.onPool_respects _)
  · exact throughBackend_respects _ _ (Engine.destroy_respects _)
  · exact throughBackend_respects _ _ Engine.finalize_respects
  · exact onPool_respects _

theorem finalize_respects : finalize.Respects (Alike t S) := by
  refine .get_bind fun {p p'} h => ?_
  rw [h.same (·.finalized) fun _ _ _ _ => rfl, h.same (·.teardown) fun _ _ _ _ => rfl]
  split
  · exact ⟨rfl, h⟩
  · obtain ⟨f, ho, hk⟩ := h
    refine .set_bind ?_
    refine (Respects.mapM _ fun step hstep => ?_).bind (fun failures => ?_) _ _ (.vary f ho hk)
    · exact attemptStep_respects (teardown_respects p hstep)
    · split
      · exact .done _
      · exact .fail _

theorem drop_respects : drop.Respects (Alike t S) := by
  refine .get_bind fun {p p'} h => ?_
  rw [h.same (·.finalized) fun _ _ _ _ => rfl]
  split
  · refine finalize_respects.attempt.bind (fun r => ?_) _ _ h
    cases r with
    | ok _ => exact .done _
    | error e => exact tell_respects _
  · exact ⟨rfl, h⟩

end Program

end FieldCompute
