import FieldCompute.Proofs.Program.Alike
/-!
# Compiling and launching with and without checks

What the operations that do look at settings, code or fault come to on programs that are alike.
Compiling gives code that differs in its checks at most, and not at all if the thread compiles under
its own settings a kernel that is the same in both. Two launches answer alike (`launch_alike`).
-/

namespace FieldCompute

open Routine

/-! ## Settings -/

namespace Overlay.Alike

variable {t thread : Thread} {o o' : Overlay}

theorem mainConfig (h : o.Alike t o') : o.mainConfig.unchecked = o'.mainConfig.unchecked := by
  rw [Overlay.mainConfig, Overlay.mainConfig, h.main]
  rcases (h.configs o.main).cases with ⟨hx, hy⟩ | ⟨c, c', hx, hy, hc⟩
  · rw [configOf?, configOf?, hx, hy]
  · rw [configOf?, configOf?, hx, hy]
    exact hc.alike

theorem insert (h : o.Alike t o') {c c' : Config} (hc : UpTo Config.unchecked (thread = t) c c') :
    Alike t { o with configs := o.configs.insert thread c }
      { o' with configs := o'.configs.insert thread c' } := by
  refine ⟨h.main, ?_, h.configs.insert hc⟩
  change ((o.configs.insert thread c).find? t).isSome
  rw [Table.find?_insert]
  split
  · rfl
  · exact h.owned

theorem thisThread (h : o.Alike t o') (thread : Thread) :
    UpTo Config.unchecked (thread = t) (o.thisThread thread).1 (o'.thisThread thread).1 ∧
      Alike t (o.thisThread thread).2 (o'.thisThread thread).2 := by
  unfold Overlay.thisThread
  rcases (h.configs thread).cases with ⟨hx, hy⟩ | ⟨c, c', hx, hy, hc⟩
  · simp only [configOf?, hx, hy]
    have hc : UpTo Config.unchecked (thread = t) o.mainConfig o'.mainConfig := by
      refine ⟨h.mainConfig, ?_⟩
      rintro rfl
      have howned := h.owned
      rw [configOf?, hx] at howned
      cases howned
    exact ⟨hc, h.insert hc⟩
  · simp only [configOf?, hx, hy]
    exact ⟨hc, h⟩

theorem update (h : o.Alike t o') {change change' : Config → Config}
    (hc : ∀ c c', UpTo Config.unchecked (thread = t) c c' →
      UpTo Config.unchecked (thread = t) (change c) (change' c')) :
    Alike t (o.update thread change).2 (o'.update thread change').2 := by
  obtain ⟨hconfig, hrest⟩ := h.thisThread thread
  exact hrest.insert (hc _ _ hconfig)

end Overlay.Alike

/-! ## Code -/

section Lowering

variable {k k' : Kernel} {q : Prop}

theorem UpTo.kernel_name (h : UpTo Kernel.unchecked q k k') : k'.name = k.name :=
  (congrArg Kernel.name h.alike).symm

theorem UpTo.kernel_id (h : UpTo Kernel.unchecked q k k') : k'.id = k.id :=
  (congrArg Kernel.id h.alike).symm

theorem UpTo.kernel_lower (h : UpTo Kernel.unchecked q k k') (optimize : Bool) :
    k'.lower optimize = k.lower optimize := (congrArg (Kernel.lower · optimize) h.alike).symm

/-- Keeping code, unless there is some. -/
theorem UpTo.kernel_keep {code code' : Code} (h : UpTo Kernel.unchecked q k k')
    (hc : UpTo Code.unchecked q code code') :
    UpTo Kernel.unchecked q { k with code? := k.code?.or (some code) }
      { k' with code? := k'.code?.or (some code') } := by
  have hkeep (k : Kernel) (code : Code) :
      ({ k with code? := k.code?.or (some code) } : Kernel).unchecked =
        { k.unchecked with code? := k.unchecked.code?.or (some code.unchecked) } := by
    cases hk : k.code? <;> simp [Kernel.unchecked, hk]
  refine ⟨?_, fun hq => by rw [h.same hq, hc.same hq]⟩
  rw [hkeep, hkeep, h.alike, hc.alike]

end Lowering

theorem KernelsAlike.insert {S : Nat → Prop} {ks ks' : Table Nat Kernel}
    (h : KernelsAlike S ks ks') {k k' : Kernel} (hk : UpTo Kernel.unchecked (S k.id) k k') :
    KernelsAlike S (ks.insert k.id k) (ks'.insert k'.id k') where
  id hj := by
    rw [Table.find?_insert] at hj
    split at hj
    · cases hj
      symm
      assumption
    · exact h.id hj
  table := by
    rw [hk.kernel_id]
    exact h.table.insert hk

/-- The answers are the same, or an access outside a field is a failure to one of the runs and none
to the other. -/
inductive LaunchAnswers {α : Type} : Except Failure α → Except Failure α → Prop
  | same (r : Except Failure α) : LaunchAnswers r r
  | passed (x : α) (k : String) (place : NodeId) (indices : List Int) (shape : List Nat) :
    LaunchAnswers (.ok x) (.error (.error (.outOfBounds k place indices shape)))
  | failed (x : α) (k : String) (place : NodeId) (indices : List Int) (shape : List Nat) :
    LaunchAnswers (.error (.error (.outOfBounds k place indices shape))) (.ok x)

/-- The answers are alike, and the same if `q`. -/
structure AlikeAnswers {α : Type} (q : Prop) (r r' : Except Failure α) : Prop where
  alike : LaunchAnswers r r'
  same : q → r = r'

theorem AlikeAnswers.refl {α : Type} {q : Prop} (r : Except Failure α) : AlikeAnswers q r r :=
  ⟨.same r, fun _ => rfl⟩

namespace Engine

variable {code code' : Code} {q : Prop}

theorem answerAfter_outside (code : Code) (position : StmtId) (k : String) (place : NodeId)
    (indices : List Int) (shape : List Nat) :
    answerAfter code (.error ⟨position, .error (.outOfBounds k place indices shape)⟩) =
      if code.checksBounds then .ok ()
      else .error (.error (.outOfBounds k place indices shape)) := by
  rw [answerAfter, faultOf?]
  cases code.checksBounds <;> rfl

/-- Only an access outside a field is reported one way or the other. -/
theorem answerAfter_alike (h : UpTo Code.unchecked q code code') (r : Except Halt Unit) :
    AlikeAnswers q (answerAfter code r) (answerAfter code' r) := by
  refine ⟨?_, fun hq => by rw [h.same hq]⟩
  obtain ⟨position, e | m⟩ | _ := r
  · cases e with
    | outOfBounds k place indices shape =>
      rw [answerAfter_outside, answerAfter_outside]
      cases code.checksBounds <;> cases code'.checksBounds
      · exact .same _
      · exact .failed ..
      · exact .passed ..
      · exact .same _
    | _ => exact .same _
  · exact .same _
  · exact .same _

/-- Running code that differs in its checks leaves the same memory and the same results. -/
theorem run_alike (h : UpTo Code.unchecked q code code') (args : List Value) {e e' : Engine}
    (he : e.Alike e') (slots : ResultSlots) :
    Abreast (fun x y => x.1.Alike y.1 ∧ x.2 = y.2) (AlikeAnswers q) (run code args)
      (run code' args) (e, slots) (e', slots) := by
  obtain ⟨f⟩ := he
  have hlaunch : ({ e with fault := f } : Engine).launchOf code' args = e.launchOf code args := by
    have hkernel : code'.kernel = code.kernel := (congrArg Code.kernel h.alike).symm
    have hbody : code'.body = code.body := (congrArg Code.body h.alike).symm
    rw [launchOf, launchOf, hkernel, hbody]
    rfl
  obtain ⟨r, m, hr⟩ : ∃ r m, (e.launchOf code args).run ⟨e.device, slots⟩ = (r, m) := ⟨_, _, rfl⟩
  have hr' : (launchOf { e with fault := f } code' args).run ⟨e.device, slots⟩ = (r, m) := by
    rw [hlaunch, hr]
  rw [Abreast, run_on code args e slots hr, run_on code' args { e with fault := f } slots hr']
  exact ⟨answerAfter_alike h r, .fault _, rfl⟩

end Engine

namespace Program

variable {α : Type} {t thread : Thread} {S : Nat → Prop} {q : Prop} {p p' : Program}
  {k k' : Kernel} {c c' : Config} {code code' : Code} {id : Nat}

/-! ## Settings and kernels -/

theorem thisConfig_alike (thread : Thread) (h : p.Alike t S p') :
    Abreast (Alike t S) (Answers (UpTo Config.unchecked (thread = t))) (thisConfig thread)
      (thisConfig thread) p p' := by
  obtain ⟨f, ho, hk⟩ := h
  obtain ⟨hc, ho⟩ := ho.thisThread thread
  exact ⟨.ok hc, .vary f ho hk⟩

theorem updateConfig_alike {change change' : Config → Config}
    (hc : ∀ c c', UpTo Config.unchecked (thread = t) c c' →
      UpTo Config.unchecked (thread = t) (change c) (change' c')) (h : p.Alike t S p') :
    Abreast (Alike t S) Eq (updateConfig thread change) (updateConfig thread change') p p' := by
  obtain ⟨f, ho, hk⟩ := h
  exact ⟨rfl, .vary f (ho.update hc) hk⟩

theorem kernelOf_alike (id : Nat) (h : p.Alike t S p') :
    Abreast (Alike t S) (Answers fun k k' => UpTo Kernel.unchecked (S id) k k' ∧ k.id = id)
      (kernelOf id) (kernelOf id) p p' := by
  rw [Abreast, kernelOf_on, kernelOf_on]
  rcases (h.kernels.table id).cases with ⟨hx, hy⟩ | ⟨k, k', hx, hy, hk⟩
  · rw [hx, hy]
    exact ⟨.error _, h⟩
  · rw [hx, hy]
    exact ⟨.ok ⟨hk, h.kernels.id hx⟩, h⟩

theorem keepKernel_alike (hk : UpTo Kernel.unchecked (S k.id) k k') (h : p.Alike t S p') :
    Abreast (Alike t S) Eq (keepKernel k) (keepKernel k') p p' := by
  obtain ⟨f, ho, hks⟩ := h
  exact ⟨rfl, .vary (p := { p with kernels := p.kernels.insert k.id k }) f ho (hks.insert hk)⟩

theorem keepKernel_respects (k : Kernel) : (keepKernel k).Respects (Alike t S) :=
  fun _ _ h => keepKernel_alike (.refl k) h

theorem addKernel_respects (make : Nat → Kernel) : (addKernel make).Respects (Alike t S) := by
  refine takeKernelId_respects.bind fun id => (keepKernel_respects _).bind fun _ => ?_
  exact (respects_of_vary fun _ _ _ _ => rfl).bind fun _ => .done _

theorem accessor_respects (a : Accessor) (id : NodeId) : (accessor a id).Respects (Alike t S) := by
  refine .get_bind fun {p p'} h => ?_
  rw [h.same (·.accessors) fun _ _ _ _ => rfl, h.same (·.place? id) fun _ _ _ _ => rfl]
  cases p.accessors.find? (a, id) with
  | some kernel => exact ⟨rfl, h⟩
  | none =>
    cases p.place? id with
    | none => exact ⟨rfl, h⟩
    | some place =>
      refine (addKernel_respects _).bind (fun kernel => ?_) _ _ h
      exact (respects_of_vary fun _ _ _ _ => rfl).bind fun _ => .done _

theorem keepCode_alike (hc : UpTo Code.unchecked (S id) code code') (h : p.Alike t S p') :
    Abreast (Alike t S) Eq (keepCode id code) (keepCode id code') p p' := by
  refine (kernelOf_alike id h).bind (fun {k k' p p'} hk h => ?_) fun _ => rfl
  obtain ⟨hk, rfl⟩ := hk
  exact keepKernel_alike (hk.kernel_keep hc) h

/-! ## Compiling -/

theorem compileUnder_alike (hc : UpTo Config.unchecked q c c') (hk : UpTo Kernel.unchecked q k k')
    (h : p.Alike t S p') :
    Abreast (Alike t S) (Answers (UpTo Code.unchecked q)) (compileUnder c k) (compileUnder c' k')
      p p' := by
  have hopt : c'.advancedOptimization = c.advancedOptimization :=
    (congrArg Config.advancedOptimization hc.alike).symm
  have hprint : c'.printIr = c.printIr := (congrArg Config.printIr hc.alike).symm
  have hcompile {p p' : Program} (h : p.Alike t S p') (body : Block) :
      Abreast (Alike t S) (Answers (UpTo Code.unchecked q))
        (do expect ((← get).backend.compile c k.name body))
        (do expect ((← get).backend.compile c' k.name body)) p p' := by
    refine .get_bind (.answer ?_ h)
    rw [Backend.compile, Backend.compile, h.backend.refusal?]
    cases p.backend.refusal? .compile none with
    | some reason => exact .error _
    | none => exact .ok ⟨rfl, fun hq => by rw [hc.same hq]⟩
  unfold compileUnder
  rw [hopt, hprint, hk.kernel_lower, hk.kernel_name]
  refine ((Respects.answer _).abreast h).bind (fun {body _ p p'} hb h => ?_) .error
  subst hb
  split
  · exact ((tell_respects _).abreast h).bind (fun _ h => hcompile h body) .error
  · exact hcompile h body

/-- Code that is there differs in its checks at most. -/
theorem codeUnder_alike (hc : UpTo Config.unchecked q c c') (hk : UpTo Kernel.unchecked q k k')
    (h : p.Alike t S p') :
    Abreast (Alike t S) (Answers (UpTo Code.unchecked q)) (codeUnder c k) (codeUnder c' k')
      p p' := by
  have hcode : UpTo (Option.map Code.unchecked) q k.code? k'.code? :=
    ⟨congrArg Kernel.code? hk.alike, fun hq => by rw [hk.same hq]⟩
  unfold codeUnder
  rcases hcode.cases with ⟨hx, hy⟩ | ⟨code, code', hx, hy, hcode⟩
  · rw [hx, hy]
    exact compileUnder_alike hc hk h
  · rw [hx, hy]
    exact ⟨.ok hcode, h⟩

theorem compile_alike (hS : ∀ id, S id → thread = t) (id : Nat) (h : p.Alike t S p') :
    Abreast (Alike t S) Eq (compile thread id) (compile thread id) p p' := by
  refine (kernelOf_alike id h).bind (fun {k k' p p'} hk h => ?_) fun _ => rfl
  refine (thisConfig_alike thread h).bind (fun {c c' p p'} hc h => ?_) fun _ => rfl
  refine (codeUnder_alike (hc.weaken (hS id)) hk.1 h).bind (fun {code code' p p'} hcode h => ?_)
    fun _ => rfl
  exact keepCode_alike hcode h

theorem prepare_alike (hk : UpTo Kernel.unchecked q k k') (hq : q → thread = t) (args : List Value)
    (h : p.Alike t S p') :
    Abreast (Alike t S) (Answers fun x x' => x.1.unchecked = x'.1.unchecked ∧
        UpTo Code.unchecked q x.2 x'.2)
      (prepare thread k args) (prepare thread k' args) p p' := by
  have hargs : k'.args = k.args := (congrArg Kernel.args hk.alike).symm
  unfold prepare
  rw [hargs, hk.kernel_name]
  split
  · exact ⟨.error _, h⟩
  · refine (thisConfig_alike thread h).bind (fun {c c' p p'} hc h => ?_) .error
    refine (codeUnder_alike (hc.weaken hq) hk h).bind (fun {code code' p p'} hcode h => ?_) .error
    exact ⟨.ok ⟨hc.alike, hcode⟩, h⟩

/-! ## Running -/

theorem Alike.withEngine {e e' : Engine} (h : p.Alike t S p') (he : e.Alike e') :
    (p.withEngine e).Alike t S (p'.withEngine e') := by
  obtain ⟨_, ho, hk⟩ := h
  obtain ⟨f⟩ := he
  exact .vary f ho hk

/-- Measuring compares as what is measured. -/
theorem timed_alike {a b : Op α} {Q : Except Failure α → Except Failure α → Prop}
    (hc : c.unchecked = c'.unchecked) (name : String)
    (hab : ∀ {p p' : Program}, p.Alike t S p' → Abreast (Alike t S) Q a b p p')
    (he : ∀ e, Q (.error e) (.error e)) (h : p.Alike t S p') :
    Abreast (Alike t S) Q (timed c name a) (timed c' name b) p p' := by
  have hprofiler : c'.kernelProfiler = c.kernelProfiler := (congrArg Config.kernelProfiler hc).symm
  unfold timed
  rw [hprofiler]
  split
  · refine ((profilerStart_respects name).abreast h).bind (fun {_ _ p p'} _ h => ?_) he
    refine (hab h).attempt.bind (fun {r r' p p'} hr h => ?_) he
    refine (profilerStop_respects.abreast h).bind (fun {_ _ p p'} _ h => ?_) he
    exact .answer hr h
  · exact hab h

theorem runCode_alike (hcode : UpTo Code.unchecked q code code') (args : List Value)
    (h : p.Alike t S p') :
    Abreast (Alike t S) (AlikeAnswers q) (runCode code args) (runCode code' args) p p' := by
  obtain ⟨f, ho, hk⟩ := h
  refine .zoom (Engine.run_alike hcode args (.fault f) p.slots) ?_
  rintro ⟨e, slots⟩ ⟨_, _⟩ ⟨⟨f'⟩, rfl⟩
  exact .vary f' ho hk

theorem runApart_alike (hcode : UpTo Code.unchecked q code code') (args : List Value)
    (h : p.Alike t S p') :
    Abreast (Alike t S) (fun _ _ => True) (runApart code args) (runApart code' args) p p' := by
  obtain ⟨-, he, -⟩ := Engine.run_alike hcode args h.backend.engine .empty
  exact ⟨trivial, h.withEngine he⟩

/-- A launch under settings and with code that differ in checks at most. -/
theorem launch_alike (hS : ∀ id, S id → thread = t) (id : Nat) (args : List Value)
    (h : p.Alike t S p') :
    Abreast (Alike t S) (AlikeAnswers (S id)) (launch thread id args) (launch thread id args)
      p p' := by
  refine (kernelOf_alike id h).bind (fun {k k' p p'} hk h => ?_) fun _ => .refl _
  refine (prepare_alike hk.1 (hS id) args h).bind (fun {x x' p p'} hx h => ?_) fun _ => .refl _
  obtain ⟨⟨c, code⟩, c', code'⟩ := x, x'
  obtain ⟨hc, hcode⟩ := hx
  refine (keepCode_alike hcode h).answers.bind (fun {_ _ p p'} _ h => ?_) fun _ => .refl _
  rw [hk.1.kernel_name]
  exact timed_alike hc _ (runCode_alike hcode args) (fun _ => .refl _) h

/-- Nothing is said of the answers. -/
abbrev Ends (t : Thread) (S : Nat → Prop) (a b : Op α) (p p' : Program) : Prop :=
  Abreast (Alike t S) (fun _ _ => True) a b p p'

theorem checkFault_alike (h : p.Alike t S p') : Ends t S checkFault checkFault p p' := by
  rw [Ends, Abreast, checkFault_on, checkFault_on]
  obtain ⟨f, ho, hk⟩ := h
  exact ⟨trivial, .vary none ho hk⟩

theorem readField_alike (hS : ∀ id, S id → thread = t) (id : NodeId) (indices : List Int)
    (h : p.Alike t S p') :
    Ends t S (readField thread id indices) (readField thread id indices) p p' := by
  refine ((accessor_respects .reader id).abreast h).bind (fun {kernel _ p p'} hk h => ?_)
    fun _ => trivial
  subst hk
  -- The result of one launch may be read and that of the other not.
  refine ⟨trivial, ?_⟩
  rw [on_bind_snd fun _ => readResult_still kernel, on_bind_snd fun _ => readResult_still kernel]
  exact (launch_alike hS kernel _ h).2

theorem writeField_alike (hS : ∀ id, S id → thread = t) (id : NodeId) (indices : List Int)
    (v : Value) (h : p.Alike t S p') :
    Ends t S (writeField thread id indices v) (writeField thread id indices v) p p' := by
  refine ((accessor_respects .writer id).abreast h).bind (fun {kernel _ p p'} hk h => ?_)
    fun _ => trivial
  subst hk
  exact (launch_alike hS kernel _ h).mono fun _ => trivial

theorem evaluator_alike {key : EvaluatorKey} (hS : ∀ id, S id → key.thread = t)
    (h : p.Alike t S p') : Abreast (Alike t S) Eq (evaluator key) (evaluator key) p p' := by
  refine .get_bind ?_
  rw [h.same (·.evaluators) fun _ _ _ _ => rfl, h.same (·.nextEvaluator) fun _ _ _ _ => rfl]
  cases p.evaluators.find? key with
  | some id => exact ⟨rfl, h⟩
  | none =>
    obtain ⟨f, ho, hk⟩ := h
    have hp : Alike t S { p with nextEvaluator := p.nextEvaluator + 1 } _ := .vary f ho hk
    refine .set_bind ((takeKernelId_respects.abreast hp).bind (fun {id _ p p'} hid h => ?_)
      fun _ => rfl)
    subst hid
    refine (thisConfig_alike key.thread h).bind (fun {c c' p p'} hc h => ?_) fun _ => rfl
    have hc : UpTo Config.unchecked (key.thread = t) { c with advancedOptimization := false }
        { c' with advancedOptimization := false } :=
      ⟨congrArg (fun c => { c with advancedOptimization := false }) hc.alike,
        fun hq => by rw [hc.same hq]⟩
    refine (compileUnder_alike hc (.refl _) h).bind (fun {code code' p p'} hcode h => ?_)
      fun _ => rfl
    have hkernel (k : Kernel) : UpTo Kernel.unchecked (key.thread = t)
        { k with code? := some code } { k with code? := some code' } :=
      ⟨congrArg (fun code => ({ k with code? := some code } : Kernel)) hcode.alike,
        fun hq => by rw [hcode.same hq]⟩
    refine (keepKernel_alike ((hkernel _).weaken (hS id)) h).answers.bind
      (fun {_ _ p p'} _ h => ?_) fun _ => rfl
    exact (respects_of_vary fun _ _ _ _ => rfl).bind (fun _ => .done _) _ _ h

theorem evaluate_alike {key : EvaluatorKey} (hS : ∀ id, S id → key.thread = t) (args : List Value)
    (h : p.Alike t S p') : Ends t S (evaluate key args) (evaluate key args) p p' := by
  refine (evaluator_alike hS h).answers.bind (fun {id _ p p'} hid h => ?_) fun _ => trivial
  subst hid
  refine (kernelOf_alike id h).bind (fun {k k' p p'} hk h => ?_) fun _ => trivial
  refine (prepare_alike hk.1 (hS id) args h).bind (fun {x x' p p'} hx h => ?_) fun _ => trivial
  refine ⟨trivial, ?_⟩
  rw [on_bind_snd fun slots => resultOf_still k slots _,
    on_bind_snd fun slots => resultOf_still k' slots _, hk.1.kernel_name]
  exact (timed_alike hx.1 _ (runApart_alike hx.2 args) (fun _ => trivial) h).2

theorem adoptCode_alike (id : Nat) (c : Config) (h : p.Alike t S p') :
    Abreast (Alike t S) Eq (adoptCode id c) (adoptCode id c) p p' := by
  refine (kernelOf_alike id h).bind (fun {k k' p p'} hk h => ?_) fun _ => rfl
  rw [hk.1.kernel_lower, hk.1.kernel_name]
  refine ((Respects.answer _).abreast h).bind (fun {body _ p p'} hb h => ?_) fun _ => rfl
  subst hb
  exact keepCode_alike (.refl _) h

theorem runGuest_alike (k : Kernel) (c : Config) (args : List Value) (slots : ResultSlots)
    (h : p.Alike t S p') : Ends t S (runGuest k c args slots) (runGuest k c args slots) p p' := by
  refine ((Respects.answer _).abreast h).bind (fun {body _ p p'} hb h => ?_) fun _ => trivial
  subst hb
  have hrun := Engine.run_alike (.refl (q := True) ⟨k.name, body, c.checksBounds⟩) args
    h.backend.engine slots
  exact .zoom (hrun.mono fun _ => trivial) fun he => h.withEngine he.1

end Program

end FieldCompute
