import FieldCompute.Proofs.Launch.Lowering
import FieldCompute.Proofs.Program.Chains
/-!
# What a launch comes to

`launch_outcome` splits a launch into its cases: the number of arguments is wrong, the kernel does
not lower, or its code runs, on the program as it is but for the kernel's code and quiet changes. So
a launch is a chain of calm moves and runs of code (`launch_active`), and a calm chain if nothing is
stored (`launch_calm`). `Coarse` relations are those that leave out what compiling changes; along
such a relation the operations go that compile and run kernels, if the run does.
-/

namespace FieldCompute

/-- Moves of a program that computes: calm ones, and runs of code on the fields as they are. -/
inductive Active : World → World → Prop
  | calm {w w' : World} : Calm w w' → Active w w'
  | ran {p : Program} {held : List Allocation} (code : Code) (args : List Value)
      (slots : ResultSlots) :
    Active ⟨p, held⟩
      ⟨p.withDevice ((p.engine.launchOf code args).run ⟨p.device, slots⟩).2.device, held⟩

theorem Active.move {ok : World → Command → Prop} {w w' : World} (h : Active w w') :
    Move ok w w' := by
  cases h with
  | calm hm => exact .calm hm
  | @ran p held code args slots => exact .rewritten _ (Launch.run_rewritten _ ⟨p.device, slots⟩)

namespace Program

open Routine Relation

variable {α : Type} {p p' : Program} {k : Kernel} {code : Code} {args : List Value}

/-- The code that a launch of the kernel runs: what it has, or else what it makes. -/
def Runs (k : Kernel) (code : Code) : Prop :=
  k.code? = some code ∨ k.code? = none ∧ k.Makes code

/-- What getting a kernel ready comes to. -/
inductive Prepared (p : Program) (k : Kernel) (args : List Value) :
    Except Failure (Config × Code) × Program → Prop
  | miscounted : args.length ≠ k.args.length →
    Prepared p k args (.error (.error (.argumentCount k.name k.args.length args.length)), p)
  | defective {q : Program} {e : Error} {optimize : Bool} :
    k.lower optimize = .error e → p.Discreet q → Prepared p k args (.error (.error e), q)
  | ready {q : Program} {c : Config} {code : Code} :
    args.length = k.args.length → Runs k code → p.Discreet q →
    Prepared p k args (.ok (c, code), q)

theorem prepared (hp : p.Hosted) (thread : Thread) (k : Kernel) (args : List Value) :
    Prepared p k args ((prepare thread k args).on p) := by
  rw [prepare]
  split
  · rw [on_throw_bind]
    exact .miscounted ‹_›
  · rename_i hn
    have hargs := not_not.1 hn
    obtain ⟨c, q, hq⟩ : ∃ c q, (thisConfig thread).on p = (.ok c, q) := ⟨_, _, rfl⟩
    have hpq : p.Discreet q := ((thisConfig_told thread).ends hq).discreet
    rw [on_bind_of_ok hq, on_bind, codeUnder]
    cases hk : k.code? with
    | some code => exact .ready hargs (.inl hk) hpq
    | none =>
      obtain ⟨r, hqr, hr⟩ := compileUnder_outcome (hp.of_backend hpq.backend) c k
      have hpr := IsTrans.trans _ _ _ hpq hqr.discreet
      simp only [hr]
      cases hl : k.lower c.advancedOptimization with
      | error e => exact .defective hl hpr
      | ok body => exact .ready hargs (.inr ⟨hk, rfl, _, hl⟩) hpr

/-- Measuring changes nothing but the profile and the events. -/
theorem timed_on (c : Config) (name : String) (a : Op α) (p : Program) :
    ∃ q t, p.Told q ∧ (a.on q).2.Told t ∧ (timed c name a).on p = ((a.on q).1, t) := by
  unfold timed
  split
  · obtain ⟨q, hq⟩ : ∃ q, (profilerStart name).on p = (.ok (), q) := ⟨_, rfl⟩
    obtain ⟨t, ht⟩ : ∃ t, profilerStop.on (a.on q).2 = (.ok (), t) := ⟨_, rfl⟩
    refine ⟨q, t, (profilerStart_told name).ends hq, profilerStop_told.ends ht, ?_⟩
    have hattempt : (a.attempt : Op _).on q = (.ok (a.on q).1, (a.on q).2) := on_attempt a q
    rw [on_bind_of_ok hq, on_bind_of_ok hattempt, on_bind_of_ok ht, on_answer]
  · exact ⟨p, (a.on p).2, Std.Refl.refl _, Std.Refl.refl _, rfl⟩

/-- The program with the code of a kernel kept. -/
def withCode (p : Program) (k : Kernel) (code : Code) : Program :=
  { p with kernels := p.kernels.insert k.id { k with code? := some code } }

/-- What a launch comes to. -/
inductive LaunchOutcome (p : Program) (k : Kernel) (args : List Value) :
    Except Failure Unit × Program → Prop
  | miscounted : args.length ≠ k.args.length →
    LaunchOutcome p k args (.error (.error (.argumentCount k.name k.args.length args.length)), p)
  | defective {q : Program} {e : Error} {optimize : Bool} :
    k.lower optimize = .error e → p.Discreet q → LaunchOutcome p k args (.error (.error e), q)
  | ran {q t : Program} {code : Code} :
    args.length = k.args.length → Runs k code → (p.withCode k code).Discreet q →
    ((runCode code args).on q).2.Discreet t →
    LaunchOutcome p k args (((runCode code args).on q).1, t)

/-- A kernel that cannot be got ready is not launched. -/
theorem launch_unready {id : Nat} {thread : Thread} {q : Program} {f : Failure}
    (hk : p.kernels.find? id = some k) (h : (prepare thread k args).on p = (.error f, q)) :
    (launch thread id args).on p = (.error f, q) := by
  rw [launch, on_bind_of_ok (kernelOf_known hk), on_bind_of_error h]

theorem launch_unknown {id : Nat} (hk : p.kernels.find? id = none) (thread : Thread)
    (args : List Value) :
    (launch thread id args).on p = (.error (.misuse (.unknownKernel id)), p) := by
  rw [launch, on_bind_of_error (kernelOf_unknown hk)]

/-- A kernel that is ready keeps the code that it is launched with. -/
theorem launch_ready {id : Nat} {thread : Thread} {q : Program} {c : Config}
    (hk : p.kernels.find? id = some k) (h : (prepare thread k args).on p = (.ok (c, code), q))
    (hc : Runs k code) (hq : p.Discreet q) :
    ∃ r t, (p.withCode k code).Discreet r ∧ ((runCode code args).on r).2.Discreet t ∧
      (launch thread id args).on p = (((runCode code args).on r).1, t) := by
  -- The kernel that is looked up once more is still the one at hand.
  have hkeep : (keepCode id code).on q = (.ok (), q.withCode k code) := by
    have hor : k.code?.or (some code) = some code := by
      rcases hc with hc | ⟨hc, -⟩ <;> rw [hc] <;> rfl
    rw [keepCode, on_bind_of_ok (kernelOf_known (by rw [hq.kernels, hk])), hor]
    rfl
  have hpq : (p.withCode k code).Discreet (q.withCode k code) := by
    exact { hq with kernels := by rw [withCode, withCode, hq.kernels] }
  obtain ⟨r, t, hqr, hrt, ht⟩ := timed_on c k.name (runCode code args) (q.withCode k code)
  refine ⟨r, t, IsTrans.trans _ _ _ hpq hqr.discreet, hrt.discreet, ?_⟩
  rw [launch, on_bind_of_ok (kernelOf_known hk), on_bind_of_ok h]
  simp only
  rw [on_bind_of_ok hkeep, ht]

theorem launch_outcome (hp : p.Hosted) {id : Nat} (hk : p.kernels.find? id = some k)
    (thread : Thread) (args : List Value) :
    LaunchOutcome p k args ((launch thread id args).on p) := by
  have h := prepared hp thread k args
  generalize hx : (prepare thread k args).on p = x at h
  cases h with
  | miscounted hn =>
    rw [launch_unready hk hx]
    exact .miscounted hn
  | defective hl hq =>
    rw [launch_unready hk hx]
    exact .defective hl hq
  | ready hargs hc hq =>
    obtain ⟨r, t, hr, ht, hon⟩ := launch_ready hk hx hc hq
    rw [hon]
    exact .ran hargs hc hr ht

/-- Running code, as the interpreter runs it. -/
theorem runCode_on (code : Code) (args : List Value) (p : Program) :
    (runCode code args).on p = (((Engine.run code args).on (p.engine, p.slots)).1,
      ({ p with slots := ((Engine.run code args).on (p.engine, p.slots)).2.2 } : Program).withEngine
        ((Engine.run code args).on (p.engine, p.slots)).2.1) := by
  rw [runCode, on_zoom]

/-- Where a launch that came to run code ends: on the same fields, with device and slots as the
interpreter leaves them, with the kernel's code kept and with the fault, if there is one. -/
structure Ran (p : Program) (k : Kernel) (code : Code) (args : List Value)
    (x : Except Failure Unit × Program) : Prop where
  storage : x.2.engine.storage = p.engine.storage
  accessors : x.2.accessors = p.accessors
  kernels : x.2.kernels = p.kernels.insert k.id { k with code? := some code }
  run {r : Except Halt Unit} {m : Machine} :
    (p.engine.launchOf code args).run ⟨p.device, p.slots⟩ = (r, m) →
    x.1 = Engine.answerAfter code r ∧ x.2.device = m.device ∧ x.2.slots = m.slots ∧
      x.2.engine.fault = p.engine.fault.or (Engine.faultAfter? code r)

theorem runCode_ran {q t : Program} (hq : (p.withCode k code).Discreet q)
    (ht : ((runCode code args).on q).2.Discreet t) :
    Ran p k code args (((runCode code args).on q).1, t) := by
  have hengine : q.engine = p.engine := congrArg Backend.engine hq.backend
  have hslots : q.slots = p.slots := hq.slots
  have hkernels : q.kernels = p.kernels.insert k.id { k with code? := some code } := hq.kernels
  have htengine : t.engine = ((runCode code args).on q).2.engine :=
    congrArg Backend.engine ht.backend
  obtain ⟨r, m, hr⟩ : ∃ r m,
      (p.engine.launchOf code args).run ⟨p.device, p.slots⟩ = (r, m) := ⟨_, _, rfl⟩
  rw [runCode_on, hengine, hslots, Engine.run_on code args p.engine p.slots hr] at ht htengine ⊢
  refine ⟨by rw [htengine]; rfl, ht.accessors.trans hq.accessors, ht.kernels.trans hkernels, ?_⟩
  intro r' m' hr'
  obtain ⟨rfl, rfl⟩ := Prod.mk.inj (hr.symm.trans hr')
  refine ⟨rfl, ?_, ht.slots, by rw [htengine]; rfl⟩
  rw [Program.device, htengine]
  rfl

/-! ## Launches as chains -/

theorem active_of_calm {a : Op α} (h : a.Along (Chained Calm)) : a.Along (Chained Active) :=
  h.mono (Chained.mono .calm)

/-- A run leaves the device as the interpreter does, and perhaps a fault. -/
theorem ran (e : Engine) (slots : ResultSlots) (code : Code) (args : List Value) :
    ∃ fault, ((Engine.run code args).on (e, slots)).2.1 =
      { e.withDevice ((e.launchOf code args).run ⟨e.device, slots⟩).2.device with fault } := by
  obtain ⟨r, m, hr⟩ : ∃ r m, (e.launchOf code args).run ⟨e.device, slots⟩ = (r, m) := ⟨_, _, rfl⟩
  rw [Engine.run_on code args e slots hr, hr]
  exact ⟨_, rfl⟩

theorem ran_active (p : Program) (slots : ResultSlots) (code : Code) (args : List Value) :
    Chained Active p (p.withEngine ((Engine.run code args).on (p.engine, slots)).2.1) := by
  obtain ⟨fault, he⟩ := ran p.engine slots code args
  rw [he]
  intro hp
  refine ⟨hp, ?_⟩
  intro held
  refine .tail (.single (.ran code args slots)) ?_
  exact .calm (.fault (p := p.withDevice _) fault)

theorem ran_calm (hs : code.body.Storeless) (p : Program) (slots : ResultSlots)
    (args : List Value) :
    Chained Calm p (p.withEngine ((Engine.run code args).on (p.engine, slots)).2.1) := by
  obtain ⟨fault, he⟩ := ran p.engine slots code args
  rw [he, Launch.run_device (l := p.engine.launchOf code args) hs]
  exact .single rfl fun _ => .fault fault

/-- What becomes of the slots is quiet. -/
theorem runCode_along {M : World → World → Prop} (hM : ∀ {w w'}, Calm w w' → M w w')
    (h : Chained M p (p.withEngine ((Engine.run code args).on (p.engine, p.slots)).2.1)) :
    Chained M p ((runCode code args).on p).2 := by
  refine IsTrans.trans _ _ _ h ((Quiet.chained ?_).mono hM)
  exact .of_lasting rfl (Nat.le_refl _)

theorem runApart_active (code : Code) (args : List Value) :
    (runApart code args).Along (Chained Active) := fun p => ran_active p _ code args

theorem runGuest_active (k : Kernel) (c : Config) (args : List Value) (slots : ResultSlots) :
    (runGuest k c args slots).Along (Chained Active) := by
  refine (active_of_calm (chained_of_quiet (answered_quiet _))).bind fun body => ?_
  exact fun p => ran_active p slots _ args

/-- A launch goes by moves of some kind if the run does. -/
theorem launch_along {M : World → World → Prop} (hM : ∀ {w w'}, Calm w w' → M w w') {id : Nat}
    (hk : p.kernels.find? id = some k) (thread : Thread)
    (h : ∀ code q, Runs k code → Chained M q ((runCode code args).on q).2) :
    Chained M p ((launch thread id args).on p).2 := by
  intro hp
  have hl := launch_outcome hp hk thread args
  generalize (launch thread id args).on p = r at hl ⊢
  cases hl with
  | miscounted _ => exact ⟨hp, fun _ => .refl⟩
  | defective _ hq => exact (hq.chained.mono hM) hp
  | @ran q t code _ hc hq ht =>
    have hkeep : Chained M p (p.withCode k code) := by
      refine Chained.mono hM (.single rfl fun held => ?_)
      rcases hc with hc | ⟨hn, hc⟩
      · have hmove : Calm ⟨p, held⟩ _ := .code id k code hk (by simp [hc])
        rwa [hc, Option.some_or] at hmove
      · have hmove : Calm ⟨p, held⟩ _ := .code id k code hk fun _ => hc
        rwa [hn, Option.none_or] at hmove
    have hrest := IsTrans.trans _ _ _ (hq.chained.mono hM)
      (IsTrans.trans _ _ _ (h code q hc) (ht.chained.mono hM))
    exact IsTrans.trans _ _ _ hkeep hrest hp

theorem launch_active (thread : Thread) (id : Nat) (args : List Value) :
    (launch thread id args).Along (Chained Active) := by
  intro p
  cases hk : p.kernels.find? id with
  | none =>
    rw [launch_unknown hk]
    exact Std.Refl.refl p
  | some k =>
    exact launch_along .calm hk thread fun code q _ =>
      runCode_along .calm (ran_active q q.slots code args)

/-- A launch of code without stores is calm. -/
theorem launch_calm {id : Nat} (hk : p.kernels.find? id = some k) (thread : Thread)
    (args : List Value) (hs : ∀ code, Runs k code → code.body.Storeless) :
    Chained Calm p ((launch thread id args).on p).2 :=
  launch_along (fun h => h) hk thread fun code q hc =>
    runCode_along (fun h => h) (ran_calm (hs code hc) q q.slots args)

theorem timed_along {M : World → World → Prop} (hM : ∀ {w w'}, Calm w w' → M w w') {a : Op α}
    (ha : a.Along (Chained M)) (c : Config) (name : String) :
    (timed c name a).Along (Chained M) := by
  intro p
  obtain ⟨q, t, hq, ht, hon⟩ := timed_on c name a p
  rw [hon]
  have hafter : Chained M p q := hq.quiet.chained.mono hM
  exact IsTrans.trans _ _ _ hafter (IsTrans.trans _ _ _ (ha q) (ht.quiet.chained.mono hM))

theorem resultOf_still (k : Kernel) (slots : ResultSlots) (dtype : DType) (p : Program) :
    ((resultOf k slots dtype).on p).2 = p := by
  rw [resultOf, allowed, on_answer_bind]
  split
  · split <;> rfl
  · rfl

theorem readResult_still (kernel : Nat) (p : Program) : ((readResult kernel).on p).2 = p := by
  rw [readResult, on_bind, kernelOf_on]
  cases p.kernels.find? kernel with
  | none => rfl
  | some k => exact resultOf_still k p.slots _ p

theorem resultOf_quiet (k : Kernel) (slots : ResultSlots) (dtype : DType) :
    (resultOf k slots dtype).Along Quiet := by
  intro p
  rw [resultOf_still]
  exact Std.Refl.refl p

theorem readResult_quiet (kernel : Nat) : (readResult kernel).Along Quiet := by
  intro p
  rw [readResult_still]
  exact Std.Refl.refl p

/-- The value in slot 0 is the result. -/
theorem resultOf_on {slots : ResultSlots} {dtype : DType} {w : UInt64} {v : Value}
    (hw : slots.load 0 = .ok w) (hv : Value.decode? w dtype = some v) (k : Kernel) (p : Program) :
    (resultOf k slots dtype).on p = (.ok v, p) := by
  rw [resultOf, allowed, on_answer_bind, hw]
  simp only [Outcome.mapError_ok, hv]
  rfl

theorem evaluate_active (key : EvaluatorKey) (args : List Value) :
    (evaluate key args).Along (Chained Active) := by
  have h {β : Type} {a : Op β} (ha : a.Along Quiet) : a.Along (Chained Active) :=
    active_of_calm (chained_of_quiet ha)
  refine (active_of_calm (evaluator_calm key)).bind fun id => ?_
  refine (h (kernelOf_quiet id)).bind fun k => ?_
  refine (h (prepare_quiet _ _ _)).bind fun x => ?_
  refine (timed_along .calm (runApart_active _ _) _ _).bind fun slots => ?_
  exact h (resultOf_quiet _ _ _)

theorem readField_active (thread : Thread) (id : NodeId) (indices : List Int) :
    (readField thread id indices).Along (Chained Active) := by
  refine (active_of_calm (accessor_calm .reader id)).bind fun k =>
    (launch_active thread k _).bind fun _ => active_of_calm (chained_of_quiet ?_)
  exact readResult_quiet k

theorem writeField_active (thread : Thread) (id : NodeId) (indices : List Int) (v : Value) :
    (writeField thread id indices v).Along (Chained Active) :=
  (active_of_calm (accessor_calm .writer id)).bind fun k => launch_active thread k _

/-! ## Along coarser relations -/

/-- Quiet work goes along the relation, and so does keeping code. -/
structure Coarse (R : Program → Program → Prop) : Prop where
  quiet {p p' : Program} : p.Quiet p' → R p p'
  keepCode (id : Nat) (code : Code) : (keepCode id code).Along R

namespace Coarse

variable {R : Program → Program → Prop} [IsTrans Program R]

theorem compile (h : Coarse R) (thread : Thread) (id : Nat) : (compile thread id).Along R := by
  refine ((kernelOf_quiet id).mono h.quiet).bind fun k => ?_
  refine ((thisConfig_quiet thread).mono h.quiet).bind fun c => ?_
  exact ((codeUnder_quiet c k).mono h.quiet).bind fun code => h.keepCode id code

theorem adoptCode (h : Coarse R) (id : Nat) (c : Config) : (adoptCode id c).Along R := by
  refine ((kernelOf_quiet id).mono h.quiet).bind fun k => ?_
  exact ((answered_quiet _).mono h.quiet).bind fun body => h.keepCode id _

theorem timed (h : Coarse R) {a : Op α} (ha : a.Along R) (c : Config) (name : String) :
    (timed c name a).Along R := by
  intro p
  obtain ⟨q, t, hq, ht, hon⟩ := timed_on c name a p
  rw [hon]
  exact IsTrans.trans _ _ _ (h.quiet hq.quiet) (IsTrans.trans _ _ _ (ha q) (h.quiet ht.quiet))

/-- A launch does, if running code does. -/
theorem launch (h : Coarse R) (hrun : ∀ code args, (runCode code args).Along R) (thread : Thread)
    (id : Nat) (args : List Value) : (launch thread id args).Along R := by
  refine ((kernelOf_quiet id).mono h.quiet).bind fun k => ?_
  refine ((prepare_quiet thread k args).mono h.quiet).bind fun x => ?_
  exact (h.keepCode id x.2).bind fun _ => h.timed (hrun x.2 args) x.1 k.name

theorem readField (h : Coarse R) (haccess : ∀ a id, (accessor a id).Along R)
    (hrun : ∀ code args, (runCode code args).Along R) (thread : Thread) (id : NodeId)
    (indices : List Int) : (readField thread id indices).Along R := by
  refine (haccess .reader id).bind fun kernel => ?_
  refine (h.launch hrun thread kernel _).bind fun _ => ?_
  exact (readResult_quiet kernel).mono h.quiet

theorem writeField (h : Coarse R) (haccess : ∀ a id, (accessor a id).Along R)
    (hrun : ∀ code args, (runCode code args).Along R) (thread : Thread) (id : NodeId)
    (indices : List Int) (v : Value) : (writeField thread id indices v).Along R :=
  (haccess .writer id).bind fun kernel => h.launch hrun thread kernel _

/-- So does an evaluation, if besides asking for the evaluator does. -/
theorem evaluate (h : Coarse R) (hrun : ∀ code args, (runApart code args).Along R)
    {key : EvaluatorKey} (hkey : R p ((evaluator key).on p).2) (args : List Value) :
    R p ((evaluate key args).on p).2 := by
  refine bind_at hkey fun {q id} _ => ?_
  refine ((kernelOf_quiet id).mono h.quiet).bind (fun k => ?_) q
  refine ((prepare_quiet key.thread k args).mono h.quiet).bind fun x => ?_
  refine (h.timed (hrun x.2 args) x.1 k.name).bind fun slots => ?_
  exact (resultOf_quiet k slots key.ret).mono h.quiet

end Coarse

end Program

end FieldCompute
