import FieldCompute.Proofs.Program.Trees
/-!
# The end of a program

The teardown gives back what the program held, step by step, whatever becomes of the single steps
(`teardown_gives`). So finalizing is one move, after which no tree and no array has memory.
-/

namespace FieldCompute

open Routine Relation

namespace Program

variable {α : Type} {p p' : Program} {ok : World → Command → Prop} {P Q R : Engine → Prop}

/-- The program is finalized and has no trees and arrays in its lists. -/
structure Vacant (p : Program) : Prop where
  hosted : p.Hosted
  finalized : p.finalized = true
  trees : p.trees = .empty
  ndarrays : p.ndarrays = .empty

theorem Vacant.withEngine (h : p.Vacant) (e : Engine) : (p.withEngine e).Vacant := { h with }

/-- On a vacant program with an engine that is as `P` says, the routine gives back the held
allocations `given`, and leaves an engine that is as `Q` says. -/
def Gives (P Q : Engine → Prop) (a : Op α) (given : List Allocation) : Prop :=
  ∀ p : Program, p.Vacant → P p.engine →
    ((a.on p).2.Vacant ∧ Q (a.on p).2.engine) ∧
      ∀ held, ReflTransGen Ending ⟨p, given ++ held⟩ ⟨(a.on p).2, held⟩

theorem attemptStep_on (step : Op Unit) (p : Program) :
    (attemptStep step).on p =
      match step.on p with
      | (.ok _, q) => (.ok none, q)
      | (.error e, q) =>
        (.ok (some e), { q with events := q.events ++ [.teardownStepFailed e.message] }) := by
  rw [attemptStep, on_bind, on_attempt]
  obtain ⟨r | r, q⟩ := step.on p <;> rfl

theorem attemptStep_gives {step : Op Unit} {given : List Allocation} (h : Gives P Q step given) :
    Gives P Q (attemptStep step) given := by
  intro p hv hp
  obtain ⟨⟨hq, hQ⟩, hc⟩ := h p hv hp
  rw [attemptStep_on]
  cases hs : step.on p with
  | mk r q =>
    rw [hs] at hq hQ hc
    cases r with
    | ok _ => exact ⟨⟨hq, hQ⟩, hc⟩
    | error e =>
      refine ⟨⟨{ hq with }, hQ⟩, ?_⟩
      intro held
      refine .tail (hc held) (.inl (.quiet ?_))
      exact tell_quiet [.teardownStepFailed e.message] q

/-- The steps give back the allocations, one step after the other. -/
inductive GivesAll : (Engine → Prop) → (Engine → Prop) → List (Op Unit) → List Allocation → Prop
  | nil {P : Engine → Prop} : GivesAll P P [] []
  | cons {P Q R : Engine → Prop} {step : Op Unit} {steps : List (Op Unit)}
      {given rest : List Allocation} :
    Gives P Q step given → GivesAll Q R steps rest → GivesAll P R (step :: steps) (given ++ rest)

theorem GivesAll.append {steps steps' : List (Op Unit)} {given given' : List Allocation}
    (h : GivesAll P Q steps given) (h' : GivesAll Q R steps' given') :
    GivesAll P R (steps ++ steps') (given ++ given') := by
  induction h with
  | nil => exact h'
  | cons hstep _ ih =>
    rw [List.append_assoc]
    exact .cons hstep (ih h')

theorem GivesAll.map {ι : Type} (l : List ι) {step : ι → Op Unit} {given : ι → List Allocation}
    (h : ∀ i, Gives P P (step i) (given i)) : GivesAll P P (l.map step) (l.flatMap given) := by
  induction l with
  | nil => exact .nil
  | cons i l ih => exact .cons (h i) ih

theorem runAll_gives {steps : List (Op Unit)} {given : List Allocation}
    (h : GivesAll P Q steps given) : Gives P Q (runAll steps) given := by
  have hall : Gives P Q (steps.mapM attemptStep) given := by
    induction h with
    | nil => exact fun p hv hp => ⟨⟨hv, hp⟩, fun _ => .refl⟩
    | @cons P Q R step steps given rest hstep _ ih =>
      intro p hv hp
      obtain ⟨⟨hq, hQ⟩, hc⟩ := attemptStep_gives hstep p hv hp
      rw [List.mapM_cons, on_bind]
      -- An attempt always answers, so the other steps are taken whatever becomes of this one.
      have hok : ∃ r q, (attemptStep step).on p = (.ok r, q) := by
        rw [attemptStep_on]
        obtain ⟨r | r, q⟩ := step.on p <;> exact ⟨_, _, rfl⟩
      obtain ⟨r, q, hr⟩ := hok
      rw [hr] at hq hQ hc ⊢
      obtain ⟨hq', hc'⟩ := ih q hq hQ
      simp only
      rw [on_bind_snd fun _ _ => rfl]
      refine ⟨hq', ?_⟩
      intro held
      rw [List.append_assoc]
      exact (hc _).trans (hc' held)
  intro p
  rw [runAll, on_bind_snd fun x t => by split <;> rfl]
  exact hall p

/-! ## The steps -/

/-- The engine may use its pool. -/
def Pooled (e : Engine) : Prop := e.attached = true

/-- No tree has storage. -/
def Bare (e : Engine) : Prop := e.storage = .empty

theorem onBackend_guarded_gives {a : Routine Engine Failure Unit} {given : List Allocation}
    {call : BackendCall} {subject? : Option Nat} (h : Gives P Q (onEngine a) given) :
    Gives P Q (onBackend (Backend.guarded call subject? a)) given := by
  intro p hv hp
  rw [guarded_on hv.hosted]
  exact h p hv hp

theorem synchronize_gives : Gives P P synchronize [] := by
  apply onBackend_guarded_gives
  intro p hv hp
  exact ⟨⟨hv, hp⟩, fun _ => .refl⟩

/-- Whatever becomes of a release, the engine keeps its pool and its storage. -/
theorem releaseNdarray_engine {e : Engine} (h : e.attached = true) (a : Allocation) :
    ∃ pool, ((Engine.releaseNdarray a).on e).2 = { e with pool } := by
  rcases release_cases h a with ⟨pool, -, hon⟩ | ⟨d, -, hon⟩
  · exact ⟨pool, by rw [hon]⟩
  · exact ⟨e.pool, by rw [hon]⟩

theorem releaseNdarray_gives (a : Allocation) :
    Gives Pooled Pooled (onBackend (Backend.releaseNdarray a)) [a] := by
  apply onBackend_guarded_gives
  intro p hv hp
  obtain ⟨pool, hpool⟩ := releaseNdarray_engine hp a
  have hleft : Pooled ((Engine.releaseNdarray a).on p.engine).2 := by
    rw [hpool]
    exact hp
  exact ⟨⟨hv.withEngine _, hleft⟩, fun held => .single (.inl (release_calm hp a held))⟩

theorem releaseTexture_gives (a : Allocation) :
    Gives Pooled Pooled (onBackend (Backend.releaseTexture a)) [a] := by
  apply onBackend_guarded_gives
  intro p hv hp
  have hleft : Pooled ((Engine.releaseTexture a).on p.engine).2 := by
    rw [Engine.releaseTexture, onPool_on]
    exact hp
  exact ⟨⟨hv.withEngine _, hleft⟩, fun held => .single (.inl (releaseTexture_calm p a held))⟩

theorem destroy_gives (id : Nat) : Gives Pooled Pooled (onBackend (Backend.destroy id)) [] := by
  apply onBackend_guarded_gives
  intro p hv hp
  rw [onEngine_on, destroy_on]
  cases hs : p.engine.storage.find? id with
  | none => exact ⟨⟨hv, hp⟩, fun _ => .refl⟩
  | some s =>
    have hp' : Pooled (p.withStorage (p.engine.storage.erase id)).engine := hp
    obtain ⟨pool, hpool⟩ := releaseNdarray_engine hp' s.allocation
    have hleft : Pooled ((Engine.releaseNdarray s.allocation).on
        (p.withStorage (p.engine.storage.erase id)).engine).2 := by
      rw [hpool]
      exact hp
    refine ⟨⟨hv.withEngine _, hleft⟩, ?_⟩
    intro held
    refine .tail (.single (.inr (.storageGone id s hv.finalized hs))) (.inl ?_)
    exact release_calm (p := p.withStorage (p.engine.storage.erase id)) hp s.allocation held

/-- Releases all of the storage, up to the first that is refused. -/
theorem releaseAll_calm (l : List Storage) (h : p.engine.attached = true) (held : List Allocation) :
    ((l.forM fun s => Engine.releaseNdarray s.allocation).on p.engine).2.storage =
      p.engine.storage ∧
    ReflTransGen Ending ⟨p, l.map (·.allocation) ++ held⟩
      ⟨p.withEngine ((l.forM fun s => Engine.releaseNdarray s.allocation).on p.engine).2, held⟩ := by
  induction l generalizing p with
  | nil => exact ⟨rfl, .refl⟩
  | cons s l ih =>
    have hmem : s.allocation ∈ (s :: l).map (·.allocation) ++ held := by simp
    have hfor : (s :: l).forM (fun s => Engine.releaseNdarray s.allocation) =
      (Engine.releaseNdarray s.allocation >>= fun _ =>
        l.forM fun s => Engine.releaseNdarray s.allocation) := rfl
    rw [hfor]
    rcases release_cases h s.allocation with ⟨pool, hr, hon⟩ | ⟨d, hr, hon⟩
    · rw [on_bind_of_ok hon]
      obtain ⟨hst, hc⟩ := ih (p := p.withPool pool) h
      refine ⟨hst, .head (b := ⟨p.withPool pool, l.map (·.allocation) ++ held⟩) (.inl ?_) hc⟩
      simpa using Calm.pool (p := p) pool (.released hmem hr)
    · rw [on_bind_of_error hon]
      refine ⟨rfl, .single (.inl (.lost s.allocation hmem (.inl ⟨d, hr⟩) ?_))⟩
      exact List.sublist_append_right ..

theorem engineFinalize_on {e : Engine} (h : e.attached = true) :
    Engine.finalize.on e =
      match (e.storage.values.forM fun s => Engine.releaseNdarray s.allocation).on
        { e with storage := .empty } with
      | (.ok _, e) => (.ok (), { e with attached := false })
      | (.error f, e) => (.error f, e) := by
  have hrelease : (fun s : Storage => Engine.throughPool (Pool.release s.allocation)) =
    fun s => Engine.releaseNdarray s.allocation := rfl
  rw [Engine.finalize, on_get_bind, on_set_bind, if_pos h, hrelease, on_bind]
  generalize (e.storage.values.forM fun s => Engine.releaseNdarray s.allocation).on _ = x
  obtain ⟨r | r, e'⟩ := x <;> rfl

theorem engineFinalize_gives : Gives Pooled Bare (onBackend Backend.finalize) [] := by
  apply onBackend_guarded_gives
  intro p hv hp
  have hgone (held : List Allocation) : Ending ⟨p, held⟩ _ := .inr (.allStorageGone hv.finalized)
  have hall := releaseAll_calm (p := p.withStorage .empty) p.engine.storage.values hp
  have hengine : (p.withStorage .empty).engine = { p.engine with storage := .empty } := rfl
  rw [hengine] at hall
  rw [onEngine_on, engineFinalize_on hp]
  generalize (p.engine.storage.values.forM fun s => Engine.releaseNdarray s.allocation).on
    { p.engine with storage := .empty } = x at hall ⊢
  obtain ⟨r | r, e⟩ := x
  · exact ⟨⟨hv.withEngine e, (hall []).1⟩, fun held => .head (hgone held) (hall held).2⟩
  · have hdetach (held : List Allocation) : Ending ⟨p.withEngine e, held⟩ _ :=
      .inr (.detached hv.finalized (hall []).1)
    refine ⟨⟨hv.withEngine _, (hall []).1⟩, ?_⟩
    intro held
    exact .tail (.head (hgone held) (hall held).2) (hdetach held)

theorem terminate_gives : Gives Bare Bare (onEngine (Engine.onPool Pool.terminate)) [] := by
  intro p hv hp
  rw [onPool_through]
  exact ⟨⟨hv.withEngine _, hp⟩, fun held => .single (.inr (.poolTerminated hv.finalized))⟩

/-! ## Finalizing -/

theorem teardown_gives (p : Program) :
    Gives Pooled Bare (runAll p.teardown)
      (p.ndarrays.values.map (·.allocation) ++ p.textures.map (·.allocation)) := by
  have hfront : GivesAll Pooled Pooled [synchronize] [] := .cons synchronize_gives .nil
  have harrays := GivesAll.map p.ndarrays.values fun a => releaseNdarray_gives a.allocation
  have htextures := GivesAll.map p.textures fun t => releaseTexture_gives t.allocation
  have htrees := GivesAll.map (p.trees.live.filter (!·.compileOnly)) fun t => destroy_gives t.id
  have hback : GivesAll Pooled Bare
      [onBackend Backend.finalize, onEngine (Engine.onPool Pool.terminate)] [] :=
    .cons engineFinalize_gives (.cons terminate_gives .nil)
  have hsteps : GivesAll Pooled Bare p.teardown _ :=
    (((hfront.append harrays).append htextures).append htrees).append hback
  have hone {ι : Type} (l : List ι) (f : ι → Allocation) :
      (l.flatMap fun i => [f i]) = l.map f := by
    induction l <;> simp_all
  have hnone {ι : Type} (l : List ι) : (l.flatMap fun _ => ([] : List Allocation)) = [] := by
    induction l <;> simp_all
  simpa only [hone, hnone, List.nil_append, List.append_nil] using runAll_gives hsteps

theorem finalize_on (hf : p.finalized = false) :
    finalize.on p = (runAll p.teardown).on p.emptied := by
  rw [finalize, on_get_bind, hf]
  rfl

/-- A program that is finalized stays as it is. -/
theorem finalize_twice (hf : p.finalized = true) :
    finalize.on p = (.error (.misuse .finalizedTwice), p) := by
  rw [finalize, on_get_bind, hf]
  rfl

/-- A program that has not left its pool is finalized in one move. -/
theorem finalize_chained (hm : p.Moored) : Chained (Move ok) p (finalize.on p).2 := by
  intro hp
  rw [finalize, on_get_bind]
  split
  · exact ⟨hp, fun _ => .refl⟩
  · rename_i hf
    have hattached : Pooled p.emptied.engine := by
      by_contra hn
      exact hf (hm (Bool.eq_false_iff.2 hn)).1
    rw [on_set_bind]
    obtain ⟨⟨hv, hbare⟩, hc⟩ := teardown_gives p p.emptied ⟨hp, rfl, rfl, rfl⟩ hattached
    refine ⟨hv.hosted, ?_⟩
    intro held
    refine .single (.finished (.head (.inr .emptied) (hc held)) ?_)
    exact ⟨hv.finalized, hv.trees, hbare, hv.ndarrays⟩

theorem drop_chained (hm : p.Moored) : Chained (Move ok) p (drop.on p).2 := by
  rw [drop, on_get_bind]
  split
  · have hfinalize : Chained (Move ok) p ((finalize.attempt : Op _).on p).2 := finalize_chained hm
    refine bind_at hfinalize fun {q r} _ => ?_
    split
    · exact Std.Refl.refl q
    · exact along_of_calm (chained_of_quiet (tell_quiet _)) q
  · exact Std.Refl.refl p

end Program

end FieldCompute
