import FieldCompute.Proofs.Program.EvaluatorRequests
/-!
# The cache of evaluators

Threads ask a program for evaluators and evaluate operators, on a backend that may refuse any of the
compilations, and finalize the program (`EvaluatorRun`). Between two finalizations an evaluator is
found again exactly by its key, and it was compiled once. A request that gets none leaves the cached
ones as they are and may succeed later. Every attempt uses up a name and a kernel id
(`EvaluatorRun.cache_by_key`).
-/

namespace FieldCompute

open Routine Program

/-- What happened to the evaluators of a program. -/
inductive EvaluatorEvent where
  /-- Somebody asked for an evaluator, for which a kernel was made or not, and got an answer. -/
  | asked (key : EvaluatorKey) (made? : Option Kernel) (answer : Except Failure Nat)
  | finalized

/-- All kernels that were made for evaluators, in whatever they resulted; the latest first. -/
def madeKernels (es : List EvaluatorEvent) : List Kernel :=
  es.filterMap fun
    | .asked _ made? _ => made?
    | .finalized => none

/-- What happened since the program was last finalized. -/
def sinceFinalized (es : List EvaluatorEvent) : List EvaluatorEvent :=
  es.takeWhile fun
    | .asked .. => true
    | .finalized => false

/-- What a program on some backend comes to, with what happened to its evaluators, the latest
first. In between, threads do other things, and the backend changes what it refuses. -/
inductive EvaluatorRun : Program → List EvaluatorEvent → Prop
  | start {thread : Thread} {c : Config} {b : Backend} {p : Program} :
    Program.create thread c b = .ok p → EvaluatorRun p []
  | asked {p : Program} {es : List EvaluatorEvent} (key : EvaluatorKey) : EvaluatorRun p es →
    EvaluatorRun ((evaluator key).on p).2 (.asked key (p.makes? key) ((evaluator key).on p).1 :: es)
  | finalized {p : Program} {es : List EvaluatorEvent} : EvaluatorRun p es →
    EvaluatorRun (finalize.on p).2 (.finalized :: es)
  | aside {p p' : Program} {es : List EvaluatorEvent} : EvaluatorRun p es → p.Aside p' →
    EvaluatorRun p' es

/-- Kernels of evaluators are numbered in the order in which they are made, and every number is
another one until they start anew. -/
structure Program.Numbers (p : Program) (kernels : List Kernel) : Prop where
  counted : p.nextEvaluator = .ofNat kernels.length
  made {k : Kernel} : k ∈ kernels →
    k.id < p.nextKernel ∧ ∃ (key : EvaluatorKey) (number : Nat),
      number < kernels.length ∧ k = key.kernel k.id (.ofNat number)
  ids_distinct : kernels.Pairwise (·.id ≠ ·.id)
  names_distinct : kernels.length ≤ 2 ^ 32 → kernels.Pairwise (·.name ≠ ·.name)

/-- The cache is what the events tell. -/
structure Program.CacheTold (p : Program) (es : List EvaluatorEvent) : Prop
    extends p.Numbers (madeKernels es) where
  entry {key : EvaluatorKey} {id : Nat} : p.evaluators.find? key = some id →
    id < p.nextKernel ∧ .void ∉ key.dtypes ∧ ∃ number code,
      key.kernel id number ∈ madeKernels es ∧ code.body = (key.kernel id number).body ∧
      p.kernels.find? id = some { key.kernel id number with code? := some code }
  key_eq {key key' : EvaluatorKey} {id : Nat} : p.evaluators.find? key = some id →
    p.evaluators.find? key' = some id → key = key'
  current {key : EvaluatorKey} {made? : Option Kernel} {id : Nat} :
    .asked key made? (.ok id) ∈ sinceFinalized es → p.evaluators.find? key = some id

namespace Program.Numbers

variable {p p' : Program} {kernels : List Kernel} {key : EvaluatorKey}

theorem of_counts (h : p.Numbers kernels) (hn : p'.nextEvaluator = p.nextEvaluator)
    (hk : p.nextKernel ≤ p'.nextKernel) : p'.Numbers kernels where
  counted := hn.trans h.counted
  made hm := (h.made hm).imp_left fun hid => Nat.lt_of_lt_of_le hid hk
  ids_distinct := h.ids_distinct
  names_distinct := h.names_distinct

/-- A new kernel has an id of its own. -/
theorem id_apart (h : p.Numbers kernels) {k : Kernel} (hk : k ∈ kernels) :
    p.nextKernel ≠ k.id := Nat.ne_of_gt (h.made hk).1

/-- It has a name of its own as long as the numbers last. -/
theorem name_apart (h : p.Numbers kernels) (hlt : kernels.length < 2 ^ 32) {k : Kernel}
    (hk : k ∈ kernels) : (key.kernel p.nextKernel p.nextEvaluator).name ≠ k.name := by
  obtain ⟨-, key', number, hn, hk⟩ := h.made hk
  intro hname
  rw [hk, h.counted] at hname
  have hnumber := congrArg UInt32.toNat (EvaluatorKey.name_kernel_inj hname)
  rw [UInt32.toNat_ofNat', UInt32.toNat_ofNat', Nat.mod_eq_of_lt hlt,
    Nat.mod_eq_of_lt (Nat.lt_trans hn hlt)] at hnumber
  exact Nat.ne_of_gt hn hnumber

/-- One kernel more, whatever comes of it. -/
theorem numbered (h : p.Numbers kernels) (key : EvaluatorKey) :
    p.numbered.Numbers (key.kernel p.nextKernel p.nextEvaluator :: kernels) where
  counted := by
    change p.nextEvaluator + 1 = _
    rw [h.counted, List.length_cons, UInt32.ofNat_add]
    rfl
  made {k} hk := by
    rw [List.length_cons]
    rcases List.mem_cons.1 hk with rfl | hk
    · refine ⟨Nat.lt_succ_self _, key, _, Nat.lt_succ_self _, ?_⟩
      rw [← h.counted]
      rfl
    · obtain ⟨hid, key', number, hn, hk⟩ := h.made hk
      exact ⟨Nat.lt_succ_of_lt hid, key', number, Nat.lt_succ_of_lt hn, hk⟩
  ids_distinct := List.pairwise_cons.2 ⟨fun _ => h.id_apart, h.ids_distinct⟩
  names_distinct hle := by
    have hlt : kernels.length < 2 ^ 32 := hle
    exact List.pairwise_cons.2 ⟨fun _ => h.name_apart hlt, h.names_distinct (Nat.le_of_lt hlt)⟩

end Program.Numbers

namespace Program.CacheTold

variable {p p' q : Program} {es : List EvaluatorEvent} {key : EvaluatorKey} {args : List Value}

theorem create {thread : Thread} {c : Config} {b : Backend}
    (h : Program.create thread c b = .ok p) : p.CacheTold [] := by
  obtain ⟨hempty, hzero, -⟩ := create_ok h
  refine ⟨⟨hzero, fun h => (by cases h), .nil, fun _ => .nil⟩, ?_, ?_, fun h => (by cases h)⟩ <;>
    simp [hempty]

theorem aside (h : p.CacheTold es) (ha : p.Aside p') : p'.CacheTold es where
  toNumbers := h.of_counts ha.nextEvaluator ha.nextKernel
  entry hf := by
    obtain ⟨hid, hv, number, code, hm, hb, hk⟩ := h.entry (ha.evaluators ▸ hf)
    exact ⟨Nat.lt_of_lt_of_le hid ha.nextKernel, hv, number, code, hm, hb, ha.compiled hk rfl⟩
  key_eq hf hf' := h.key_eq (ha.evaluators ▸ hf) (ha.evaluators ▸ hf')
  current hc := ha.evaluators ▸ h.current hc

theorem finalized (h : p.CacheTold es) : (finalize.on p).2.CacheTold (.finalized :: es) := by
  have hforget : p.emptied.CacheTold (.finalized :: es) :=
    ⟨h.of_counts rfl (Nat.le_refl _), fun hf => (by cases hf), fun hf => (by cases hf),
      fun hc => (by cases hc)⟩
  cases hf : p.finalized with
  | false => exact hforget.aside (finalize_same hf).aside
  | true =>
    rw [finalize_twice hf]
    exact ⟨h.of_counts rfl (Nat.le_refl _), h.entry, h.key_eq, fun hc => (by cases hc)⟩

/-- A kernel that cannot be compiled uses up its number and its id. -/
theorem asked_failed (h : p.CacheTold es) (hq : p.numbered.Same q) (e : Failure) :
    q.CacheTold
      (.asked key (some (key.kernel p.nextKernel p.nextEvaluator)) (.error e) :: es) := by
  refine CacheTold.aside (p := p.numbered) ?_ hq.aside
  refine ⟨h.numbered key, fun hf => ?_, h.key_eq, fun hc => ?_⟩
  · obtain ⟨hid, hv, number, code, hmade, hb, hk⟩ := h.entry hf
    exact ⟨Nat.lt_succ_of_lt hid, hv, number, code, List.mem_cons_of_mem _ hmade, hb, hk⟩
  · rcases List.mem_cons.1 hc with hc | hc
    · cases hc
    · exact h.current hc

/-- A kernel that was compiled is the entry of its key from then on. -/
theorem asked_made (h : p.CacheTold es) (hn : p.evaluators.find? key = none)
    (hv : .void ∉ key.dtypes) (hq : p.numbered.Same q) {code : Code}
    (hb : code.body = (key.kernel p.nextKernel p.nextEvaluator).body) :
    { q with
      kernels := q.kernels.insert p.nextKernel
        { key.kernel p.nextKernel p.nextEvaluator with code? := some code }
      evaluators := q.evaluators.insert key p.nextKernel : Program }.CacheTold
      (.asked key (some (key.kernel p.nextKernel p.nextEvaluator)) (.ok p.nextKernel) :: es) := by
  obtain ⟨he, hk, hnum, hnext⟩ := hq.eqs
  have hne {key' : EvaluatorKey} {id : Nat} (hf : p.evaluators.find? key' = some id) :
      id ≠ p.nextKernel := Nat.ne_of_lt (h.entry hf).1
  rw [he, hk]
  refine ⟨(h.numbered key).of_counts hnum (Nat.le_of_eq hnext.symm), fun hf => ?_,
    fun hf hf' => ?_, fun hc => ?_⟩
  · simp only [Table.find?_insert] at hf ⊢
    rw [hnext]
    split at hf
    · rename_i heq
      cases hf
      subst heq
      exact ⟨Nat.lt_succ_self _, hv, _, code, List.mem_cons_self, hb, if_pos rfl⟩
    · obtain ⟨hid, hv, number, code, hmade, hb, hk⟩ := h.entry hf
      exact ⟨Nat.lt_succ_of_lt hid, hv, number, code, List.mem_cons_of_mem _ hmade, hb,
        (if_neg (hne hf)).trans hk⟩
  · -- The new id is no older one.
    simp only [Table.find?_insert] at hf hf'
    split at hf <;> split at hf'
    · rename_i hk hk'
      exact hk.trans hk'.symm
    · cases hf
      exact absurd rfl (hne hf')
    · cases hf'
      exact absurd rfl (hne hf)
    · exact h.key_eq hf hf'
  · simp only [Table.find?_insert]
    rcases List.mem_cons.1 hc with hc | hc
    · cases hc
      exact if_pos rfl
    · have hf := h.current hc
      refine (if_neg fun heq => ?_).trans hf
      rw [heq, hn] at hf
      cases hf

theorem asked (h : p.CacheTold es) (key : EvaluatorKey) :
    ((evaluator key).on p).2.CacheTold
      (.asked key (p.makes? key) ((evaluator key).on p).1 :: es) := by
  have hr := requested p key
  generalize (evaluator key).on p = x at hr
  cases hr with
  | @known id hid =>
    have hm : p.makes? key = none := by rw [makes?, hid]
    rw [hm]
    refine ⟨h.of_counts rfl (Nat.le_refl _), h.entry, h.key_eq, fun hc => ?_⟩
    rcases List.mem_cons.1 hc with hc | hc
    · cases hc
      exact hid
    · exact h.current hc
  | failed hn _ hq _ =>
    rw [makes?, hn]
    exact h.asked_failed hq _
  | made hn ha hq _ hb =>
    rw [makes?, hn]
    exact h.asked_made hn ha.1 hq hb

/-- The evaluator that a request answers with is one of those that were made, and computes the key's
operator on its types. -/
theorem computed (h : p.CacheTold es) {id : Nat} (hf : p.evaluators.find? key = some id) :
    ∃ k ∈ madeKernels es, ∃ code, k.id = id ∧
      p.kernels.find? id = some { k with code? := some code } ∧
      key.ComputedBy { k with code? := some code } := by
  obtain ⟨-, hv, number, code, hm, hb, hk⟩ := h.entry hf
  exact ⟨_, hm, code, rfl, hk, EvaluatorKey.computedBy_kernel hv hb⟩

/-- An evaluation answers with the value of the operator iff the evaluator can be had. -/
theorem evaluate_answer (h : p.CacheTold es) (hargs : args.length = key.operands.length)
    (v : Value) : ((evaluate key args).on p).1 = .ok v ↔
      (∃ id, ((evaluator key).on p).1 = .ok id) ∧ key.eval? args = some v := by
  have hlen (id : Nat) (number : UInt32) : args.length = (key.kernel id number).args.length := by
    rw [EvaluatorKey.args_kernel, hargs]
  have hr := requested p key
  generalize hev : (evaluator key).on p = x at hr
  cases hr with
  | @known id hid =>
    obtain ⟨-, hv, number, code, -, hb, hk⟩ := h.entry hid
    have hfold := evaluate_from hev (Discreet.undisturbed (Std.Refl.refl p)) hk hb (hlen ..) hv
    simpa using hfold.defined hv v
  | failed _ _ _ _ =>
    rw [evaluate, on_bind_of_error hev]
    simp
  | @made q code _ ha _ hu hb =>
    have hfold := evaluate_from hev ⟨hu.backend, hu.trees, hu.ndarrays, hu.textures, hu.slots,
      hu.listed⟩ (Table.find?_insert_self ..) hb (hlen ..) ha.1
    simpa using hfold.defined ha.1 v

end Program.CacheTold

/-- What a request finds, makes and leaves, in a program with the history `es`. -/
structure Program.CachesByKey (p : Program) (es : List EvaluatorEvent) : Prop where
  /-- Among the requests since the last finalization, the same kernel means the same key. -/
  same_iff {key key' : EvaluatorKey} {made? : Option Kernel} {id id' : Nat} :
    .asked key made? (.ok id) ∈ sinceFinalized es → ((evaluator key').on p).1 = .ok id' →
      (id' = id ↔ key' = key)
  /-- What was once compiled is found again, and nothing is done for it. -/
  found {key : EvaluatorKey} {made? : Option Kernel} {id : Nat} :
    .asked key made? (.ok id) ∈ sinceFinalized es → (evaluator key).on p = (.ok id, p)
  /-- An answer is one of the kernels that were made, compiled, and computes what the key says. -/
  computed {key : EvaluatorKey} {id : Nat} {q : Program} : (evaluator key).on p = (.ok id, q) →
    ∃ k ∈ (p.makes? key).toList ++ madeKernels es, ∃ code, k.id = id ∧
      q.kernels.find? id = some { k with code? := some code } ∧
      key.ComputedBy { k with code? := some code }
  /-- The kernel of an entry stays as it is. -/
  kept {key : EvaluatorKey} {id : Nat} {k : Kernel} (key' : EvaluatorKey) :
    p.evaluators.find? key = some id → p.kernels.find? id = some k →
      ((evaluator key').on p).2.kernels.find? id = some k
  /-- A request fails for the kernel it made, and leaves all entries and kernels as they are. -/
  failed {key : EvaluatorKey} {e : Failure} {q : Program} : (evaluator key).on p = (.error e, q) →
    q.evaluators = p.evaluators ∧ q.kernels = p.kernels ∧
      ∃ k, p.makes? key = some k ∧ CannotCompile k e
  /-- Whether a request succeeds does not depend on failures before it. -/
  succeeds_iff (key : EvaluatorKey) : (∃ id, ((evaluator key).on p).1 = .ok id) ↔
    (∃ id, p.evaluators.find? key = some id) ∨ p.Admits key
  /-- An evaluation leaves the entries that its request leaves, also where the operator has no
  value. -/
  evaluated {key : EvaluatorKey} {args : List Value} : args.length = key.operands.length →
    ((evaluate key args).on p).2.evaluators = ((evaluator key).on p).2.evaluators ∧
      ∀ v, ((evaluate key args).on p).1 = .ok v ↔
        (∃ id, ((evaluator key).on p).1 = .ok id) ∧ key.eval? args = some v
  /-- No two kernels that were ever made share an id, -/
  ids_distinct : (madeKernels es).Pairwise (·.id ≠ ·.id)
  /-- nor a name, as long as there are numbers left for all of them. -/
  names_distinct : (madeKernels es).length ≤ 2 ^ 32 → (madeKernels es).Pairwise (·.name ≠ ·.name)

namespace EvaluatorRun

variable {p : Program} {es : List EvaluatorEvent}

theorem told (r : EvaluatorRun p es) : p.CacheTold es := by
  induction r with
  | start h => exact .create h
  | asked key _ ih => exact ih.asked key
  | finalized _ ih => exact ih.finalized
  | aside _ ha ih => exact ih.aside ha

/-- An evaluation is a request and what follows it; others may come in between the two. -/
theorem evaluated (r : EvaluatorRun p es) (key : EvaluatorKey) (args : List Value) :
    EvaluatorRun ((evaluate key args).on p).2
      (.asked key (p.makes? key) ((evaluator key).on p).1 :: es) :=
  .aside (.asked key r) (evaluate_aside p key args)

/-- In whatever order threads ask for evaluators, evaluate and finalize, and whichever compilations
fail, evaluators are found by their keys. -/
theorem cache_by_key (r : EvaluatorRun p es) : p.CachesByKey es := by
  have ht := r.told
  have hfound {key : EvaluatorKey} {id : Nat} (hf : p.evaluators.find? key = some id) :
      (evaluator key).on p = (.ok id, p) := by
    rw [evaluator, on_get_bind, hf]
    rfl
  constructor
  case same_iff =>
    intro key key' made? id id' hc ha
    have hf := ht.current hc
    have hr := requested p key'
    generalize (evaluator key').on p = x at hr ha
    cases hr with
    | known hf' =>
      cases ha
      constructor
      · rintro rfl
        exact ht.key_eq hf' hf
      · rintro rfl
        exact Option.some.inj (hf'.symm.trans hf)
    | failed _ _ _ _ => cases ha
    | made hn _ _ _ _ =>
      cases ha
      constructor
      · rintro rfl
        exact absurd (ht.entry hf).1 (Nat.lt_irrefl _)
      · rintro rfl
        rw [hn] at hf
        cases hf
  case found =>
    intro key made? id hc
    exact hfound (ht.current hc)
  case computed =>
    intro key id q hq
    have htq := ht.asked key
    rw [hq] at htq
    obtain ⟨k, hk, hcode⟩ := htq.computed (htq.current List.mem_cons_self)
    refine ⟨k, ?_, hcode⟩
    cases hm : p.makes? key with
    | none => rwa [hm] at hk
    | some k' => rwa [hm] at hk
  case kept =>
    intro key id k key' hf hk
    have hr := requested p key'
    generalize (evaluator key').on p = x at hr
    cases hr with
    | known _ => exact hk
    | failed _ _ hq _ => exact hq.eqs.2.1 ▸ hk
    | made _ _ hq _ _ =>
      have hne : id ≠ p.nextKernel := Nat.ne_of_lt (ht.entry hf).1
      simp only [hq.eqs.2.1, Table.find?_insert_of_ne hne]
      exact hk
  case failed =>
    intro key e q hq
    have hr := requested p key
    rw [hq] at hr
    cases hr with
    | failed hn _ hq he =>
      obtain ⟨hev, hk, -, -⟩ := hq.eqs
      exact ⟨hev, hk, _, by rw [makes?, hn], he⟩
  case succeeds_iff =>
    intro key
    have hr := requested p key
    generalize (evaluator key).on p = x at hr
    cases hr with
    | known hf => exact iff_of_true ⟨_, rfl⟩ (.inl ⟨_, hf⟩)
    | failed hn ha _ _ => exact iff_of_false (by simp) (by simp [hn, ha])
    | made _ ha _ _ _ => exact iff_of_true ⟨_, rfl⟩ (.inr ha)
  case evaluated =>
    intro key args hargs
    exact ⟨(evaluate_aside p key args).evaluators, ht.evaluate_answer hargs⟩
  case ids_distinct => exact ht.ids_distinct
  case names_distinct => exact ht.names_distinct

/-- The key fails on a backend that rejects its kernel, and has its evaluator once the backend does
not. Another thread's key has another one. -/
theorem cache_by_key_after_rejection : ∃ p es, EvaluatorRun p es ∧
    (madeKernels es).map (fun k => (k.id, k.name)) =
      [(2, "jit_evaluator_2"), (1, "jit_evaluator_1"), (0, "jit_evaluator_0")] ∧
    (evaluator ⟨0, .binary .add, .scalar .int8, .scalar .int8, .scalar .int8, ""⟩).on p =
      (.ok 1, p) ∧
    (evaluator ⟨1, .binary .add, .scalar .int8, .scalar .int8, .scalar .int8, ""⟩).on p =
      (.ok 2, p) := by
  let key (thread : Thread) : EvaluatorKey :=
    ⟨thread, .binary .add, .scalar .int8, .scalar .int8, .scalar .int8, ""⟩
  let rejecting : Backend := { Backend.host {} with refusals := [⟨.compile, none, "rejected"⟩] }
  let p₀ : Program := { World.fresh.program with
    backend := { World.fresh.program.backend with refusals := rejecting.refusals } }
  let p₁ : Program := { ((evaluator (key 0)).on p₀).2 with backend := Backend.host {} }
  have r₀ : EvaluatorRun p₀ [] := @EvaluatorRun.start 0 {} rejecting p₀ rfl
  have r₁ : EvaluatorRun p₁ _ := (r₀.asked (key 0)).aside ⟨rfl, rfl, Nat.le_refl _, fun h _ => h⟩
  have r := (r₁.asked (key 0)).asked (key 1)
  have hfirst : ((evaluator (key 0)).on p₁).1 = .ok 1 := by decide
  have hother : ((evaluator (key 1)).on ((evaluator (key 0)).on p₁).2).1 = .ok 2 := by
    decide
  rw [hfirst, hother] at r
  exact ⟨_, _, r, by decide, r.cache_by_key.found (.tail _ (.head _)),
    r.cache_by_key.found (.head _)⟩

/-- An evaluation that fails as the operator has no value leaves an entry that was not there. -/
theorem failed_evaluation_cached :
    ((Program.evaluateBinary 0 .idiv (.int 1) (.scalar .int32) (.int 0) (.scalar .int32)
      (.scalar .int32)).on World.fresh.program).1 =
        .error (.error (.evaluation "jit_evaluator_0" "$2 = idiv int32 $0, $1")) ∧
    World.fresh.program.evaluators.size = 0 ∧
    ((Program.evaluateBinary 0 .idiv (.int 1) (.scalar .int32) (.int 0) (.scalar .int32)
      (.scalar .int32)).on World.fresh.program).2.evaluators.size = 1 := by
  decide

end EvaluatorRun
end FieldCompute
