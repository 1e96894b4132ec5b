import FieldCompute.Proofs.Program.Quiet
import FieldCompute.Proofs.Tree.Growth
/-!
# Chains of moves

`Chained M p p'` says that one program becomes the other by moves, whatever allocations are held on
the way. Making and compiling kernels, accessors and evaluators goes by calm moves.
-/

namespace FieldCompute

open Routine Relation

namespace Program

variable {α : Type} {p p' : Program} {M M' : World → World → Prop}

/-- The first program becomes the second one by moves, with the same allocations held. -/
def Chained (M : World → World → Prop) (p p' : Program) : Prop :=
  p.Hosted → p'.Hosted ∧ ∀ held, ReflTransGen M ⟨p, held⟩ ⟨p', held⟩

instance : Std.Refl (Chained M) := ⟨fun _ h => ⟨h, fun _ => .refl⟩⟩

instance : IsTrans Program (Chained M) where
  trans _ _ _ h h' hp :=
    have ⟨hq, c⟩ := h hp
    have ⟨hr, c'⟩ := h' hq
    ⟨hr, fun held => (c held).trans (c' held)⟩

theorem Chained.mono (h : ∀ {w w'}, M w w' → M' w w') (c : Chained M p p') : Chained M' p p' :=
  fun hp => ⟨(c hp).1, fun held => ((c hp).2 held).lift id fun _ _ => h⟩

/-- One move. -/
theorem Chained.single (hb : p'.backend.refusals = p.backend.refusals)
    (h : ∀ held, M ⟨p, held⟩ ⟨p', held⟩) : Chained M p p' := by
  intro hp
  refine ⟨hb.trans hp, ?_⟩
  intro held
  exact .single (h held)

theorem Quiet.chained (h : p.Quiet p') : Chained Calm p p' :=
  .single (congrArg Backend.refusals h.backend) fun _ => .quiet h

theorem Discreet.chained (h : p.Discreet p') : Chained Calm p p' := h.toQuiet.chained

theorem chained_of_quiet {a : Op α} (h : a.Along Quiet) : a.Along (Chained Calm) :=
  h.mono Quiet.chained

theorem Chained.of_calm {ok : World → Command → Prop} (h : Chained Calm p p') :
    Chained (Move ok) p p' := h.mono .calm

theorem along_of_calm {ok : World → Command → Prop} {a : Op α} (h : a.Along (Chained Calm)) :
    a.Along (Chained (Move ok)) := h.mono Chained.of_calm

/-! ## Kernels -/

theorem kernelOf_ok {id : Nat} {k : Kernel} (h : (kernelOf id).on p = (.ok k, p')) :
    p.kernels.find? id = some k ∧ p' = p := by
  rw [kernelOf_on] at h
  split at h <;> cases h
  exact ⟨‹_›, rfl⟩

theorem keepCode_chained {id : Nat} {k : Kernel} {code : Code} (hk : p.kernels.find? id = some k)
    (hc : k.code? = none → k.Makes code) : Chained Calm p ((keepCode id code).on p).2 := by
  rw [keepCode, on_bind_of_ok (kernelOf_known hk)]
  exact .single rfl fun _ => .code id k code hk hc

/-- The code of a kernel that is at hand is kept after quiet work. -/
theorem keepCode_after {id : Nat} {k : Kernel} {code : Code} (hk : p.kernels.find? id = some k)
    (hq : p.Quiet p') (hc : k.code? = some code ∨ k.Makes code) :
    Chained Calm p' ((keepCode id code).on p').2 := by
  refine keepCode_chained (k := k) (by rw [hq.kernels]; exact hk) ?_
  intro hn
  rcases hc with hc | hc
  · rw [hn] at hc; cases hc
  · exact hc

theorem compile_calm (thread : Thread) (id : Nat) : (compile thread id).Along (Chained Calm) := by
  intro p hp
  refine bind_at (chained_of_quiet (kernelOf_quiet id) p) (fun {q k} hk => ?_) hp
  obtain ⟨hk, rfl⟩ := kernelOf_ok hk
  refine bind_at (chained_of_quiet (thisConfig_quiet thread) q) fun {r c} hr => ?_
  have hqr : q.Quiet r := by simpa [hr] using thisConfig_quiet thread q
  refine bind_at (chained_of_quiet (codeUnder_quiet c k) r) fun {t code} ht => ?_
  have hrt : r.Quiet t := by simpa [ht] using codeUnder_quiet c k r
  have hr : r.Hosted := Hosted.of_backend hp hqr.backend
  exact keepCode_after hk (IsTrans.trans _ _ _ hqr hrt) (codeUnder_makes hr ht)

theorem adoptCode_calm (id : Nat) (c : Config) : (adoptCode id c).Along (Chained Calm) := by
  intro p
  refine bind_at (chained_of_quiet (kernelOf_quiet id) p) fun {q k} hk => ?_
  obtain ⟨hk, rfl⟩ := kernelOf_ok hk
  rw [expect, on_answer_bind]
  cases hl : k.lower c.advancedOptimization with
  | error e => exact Std.Refl.refl q
  | ok body => exact keepCode_chained hk fun _ => ⟨rfl, _, hl⟩

/-- The program with a new kernel in its list. -/
def withKernel (p : Program) (k : Kernel) : Program :=
  { p with
    nextKernel := p.nextKernel + 1, kernels := p.kernels.insert k.id k
    listed := p.listed ++ [p.nextKernel] }

theorem addKernel_on (make : Nat → Kernel) (p : Program) :
    (addKernel make).on p = (.ok p.nextKernel, p.withKernel (make p.nextKernel)) := rfl

theorem withKernel_chained {k : Kernel} (hid : k.id = p.nextKernel) (hc : k.code? = none) :
    Chained Calm p (p.withKernel k) := by
  have hq : p.Quiet
      { p with nextKernel := p.nextKernel + 1, listed := p.listed ++ [p.nextKernel] } :=
    .of_lasting rfl (Nat.le_succ _)
  exact .single rfl fun _ => .kernel k hid (by simp [hc]) hq (Nat.lt_succ_self _)

theorem createKernel_calm (name : String) (mode : AutodiffMode) (steps : List DraftStep) :
    (createKernel name mode steps).Along (Chained Calm) := by
  intro p
  rw [createKernel, addKernel_on]
  exact withKernel_chained rfl rfl

theorem place?_id {id : NodeId} {place : Place} (h : p.place? id = some place) : place.id = id := by
  simp only [place?, Option.bind_eq_some_iff] at h
  obtain ⟨n, ⟨t, -, hn⟩, hp⟩ := h
  have hid : n.id = id := by simpa using List.find?_some hn
  exact (Node.id_of_place? hp).trans hid

/-- What asking for an accessor comes to: it is known, or there is no such place, or it is made. -/
inductive AccessorOutcome (p : Program) (a : Accessor) (id : NodeId) :
    Except Failure Nat × Program → Prop
  | known {kernel : Nat} : p.accessors.find? (a, id) = some kernel →
    AccessorOutcome p a id (.ok kernel, p)
  | notAField : p.place? id = none → AccessorOutcome p a id (.error (.error (.notAField id)), p)
  | made {place : Place} : p.place? id = some place → p.accessors.find? (a, id) = none →
    AccessorOutcome p a id (.ok p.nextKernel,
      { p.withKernel (a.kernel place p.nextKernel) with
        accessors := p.accessors.insert (a, id) p.nextKernel })

theorem accessor_outcome (p : Program) (a : Accessor) (id : NodeId) :
    AccessorOutcome p a id ((accessor a id).on p) := by
  rw [accessor, on_get_bind]
  split
  · exact .known ‹_›
  · split
    · exact .notAField ‹_›
    · rw [on_bind, addKernel_on]
      exact .made ‹_› ‹_›

theorem accessor_calm (a : Accessor) (id : NodeId) : (accessor a id).Along (Chained Calm) := by
  intro p
  have h := accessor_outcome p a id
  generalize (accessor a id).on p = r at h ⊢
  cases h with
  | known _ => exact Std.Refl.refl p
  | notAField _ => exact Std.Refl.refl p
  | @made place hp =>
    obtain rfl := place?_id hp
    have h := withKernel_chained (p := p) (k := a.kernel place p.nextKernel) rfl rfl
    refine IsTrans.trans _ _ _ h (.single rfl fun held => ?_)
    exact .accessor a place p.nextKernel hp (Table.find?_insert_self ..)

/-- What asking for an evaluator comes to: it is known, or cannot be compiled, or is kept. -/
inductive EvaluatorOutcome (p : Program) (key : EvaluatorKey) : Except Failure Nat × Program → Prop
  | known {id : Nat} : p.evaluators.find? key = some id → EvaluatorOutcome p key (.ok id, p)
  | failed {q : Program} {e : Error} :
    p.Discreet q →
    (key.kernel p.nextKernel p.nextEvaluator).lower false = .error e →
    EvaluatorOutcome p key (.error (.error e), q)
  | kept {q : Program} {code : Code} :
    p.Discreet q → p.nextKernel < q.nextKernel →
    (key.kernel p.nextKernel p.nextEvaluator).lower false = .ok code.body →
    code.kernel = (key.kernel p.nextKernel p.nextEvaluator).name →
    EvaluatorOutcome p key (.ok p.nextKernel,
      { q with
        kernels := p.kernels.insert p.nextKernel
          { key.kernel p.nextKernel p.nextEvaluator with code? := some code }
        evaluators := p.evaluators.insert key p.nextKernel })

/-- The program when the number and the id of a new evaluator are taken. -/
def numbered (p : Program) : Program :=
  { p with nextEvaluator := p.nextEvaluator + 1, nextKernel := p.nextKernel + 1 }

theorem numbered_discreet (p : Program) : p.Discreet p.numbered :=
  ⟨.of_lasting rfl (Nat.le_succ _), rfl, rfl⟩

/-- The program with the evaluator kept that was made on `p`. -/
def withEvaluator (p q : Program) (key : EvaluatorKey) (code : Code) : Program :=
  { q with
    kernels := q.kernels.insert p.nextKernel
      { key.kernel p.nextKernel p.nextEvaluator with code? := some code }
    evaluators := q.evaluators.insert key p.nextKernel }

/-- Making an evaluator uses up a number and an id in any case. -/
theorem evaluator_on {key : EvaluatorKey} (hn : p.evaluators.find? key = none) :
    ∃ q checks, p.numbered.Told q ∧ (evaluator key).on p =
      match (key.kernel p.nextKernel p.nextEvaluator).lower false with
      | .error e => (.error (.error e), q)
      | .ok body =>
        match p.backend.refusal? .compile none with
        | some reason =>
          (.error (.error (.compilation (key.kernel p.nextKernel p.nextEvaluator).name reason)), q)
        | none => (.ok p.nextKernel, p.withEvaluator q key
            ⟨(key.kernel p.nextKernel p.nextEvaluator).name, body, checks⟩) := by
  obtain ⟨c, r, hr⟩ : ∃ c r, (thisConfig key.thread).on p.numbered = (.ok c, r) := ⟨_, _, rfl⟩
  have hpr : p.numbered.Told r := (thisConfig_told key.thread).ends hr
  -- The compilation is asked for without optimization, whatever the thread's settings say.
  obtain ⟨q, hrq, hq⟩ := compileUnder_on { c with advancedOptimization := false }
    (key.kernel p.nextKernel p.nextEvaluator) r
  have hback : r.backend = p.backend := hpr.quiet.backend
  have hid : takeKernelId.on { p with nextEvaluator := p.nextEvaluator + 1 } =
    (.ok p.nextKernel, p.numbered) := rfl
  refine ⟨q, c.checksBounds, IsTrans.trans _ _ _ hpr hrq, ?_⟩
  rw [evaluator, on_get_bind, hn]
  simp only [on_set_bind]
  rw [on_bind_of_ok hid, on_bind_of_ok hr]
  rw [hback] at hq
  cases hl : (key.kernel p.nextKernel p.nextEvaluator).lower false with
  | error e =>
    rw [hl] at hq
    rw [on_bind_of_error hq]
  | ok body =>
    rw [hl] at hq
    cases hb : p.backend.refusal? .compile none with
    | some reason =>
      rw [hb] at hq
      rw [on_bind_of_error hq]
    | none =>
      rw [hb] at hq
      rw [on_bind_of_ok hq]
      rfl

theorem evaluator_outcome (hp : p.Hosted) (key : EvaluatorKey) :
    EvaluatorOutcome p key ((evaluator key).on p) := by
  cases he : p.evaluators.find? key with
  | some id =>
    rw [evaluator, on_get_bind, he]
    exact .known he
  | none =>
    obtain ⟨q, checks, hq, hon⟩ := evaluator_on he
    have hpq : p.Discreet q := IsTrans.trans _ _ _ p.numbered_discreet hq.discreet
    have hlt : p.nextKernel < q.nextKernel :=
      Nat.lt_of_lt_of_le (Nat.lt_succ_self _) hq.quiet.nextKernel
    rw [hon, hp.refusal?]
    cases hl : (key.kernel p.nextKernel p.nextEvaluator).lower false with
    | error e => exact .failed hpq hl
    | ok body =>
      have hkept := @EvaluatorOutcome.kept _ _ _ ⟨_, body, checks⟩ hpq hlt hl rfl
      rw [← hpq.kernels, ← hpq.evaluators] at hkept
      exact hkept

theorem evaluator_calm (key : EvaluatorKey) : (evaluator key).Along (Chained Calm) := by
  intro p hp
  have h := evaluator_outcome hp key
  generalize (evaluator key).on p = r at h ⊢
  cases h with
  | known _ => exact ⟨hp, fun _ => .refl⟩
  | failed hq _ => exact hq.chained hp
  | @kept q code hq hlt hl hn =>
    refine ⟨hp.of_backend hq.backend, ?_⟩
    intro held
    let k : Kernel := { key.kernel p.nextKernel p.nextEvaluator with code? := some code }
    have hk : Calm ⟨p, held⟩ ⟨{ q with kernels := p.kernels.insert k.id k }, held⟩ :=
      .kernel k rfl (fun c hc => by cases hc; exact ⟨hn, false, hl⟩) hq.toQuiet hlt
    -- The kernel stands in the table before its key does.
    refine .tail (.single hk) ?_
    rw [← hq.evaluators]
    exact .evaluator key p.nextKernel p.nextEvaluator code (Table.find?_insert_self ..) hl

end Program

end FieldCompute
