import FieldCompute.Proofs.Program.Memory
/-!
# Trees come and go

What registering and removing a tree come to. A tree that gets no storage is taken out again, so it
leaves the pool changed at most (`addTree_outcome`).
-/

namespace FieldCompute

open Routine Relation

namespace Program

variable {p p' : Program} {ok : World → Command → Prop}

/-- What registering a tree comes to. -/
inductive AddTreeOutcome (p : Program) (root : Node) : Bool → Except Failure Nat × Program → Prop
  | layout : AddTreeOutcome p root true
      (.ok (p.trees.add root true).1.id, { p with trees := (p.trees.add root true).2 })
  | kept {s : Storage} {pool : Pool} :
    p.engine.attached = true → Packing.ofTree? root = some s.packing →
    (Pool.allocate s.packing.size true).on p.pool = (.ok s.allocation, pool) →
    AddTreeOutcome p root false (.ok (p.trees.add root false).1.id,
      ({ p with trees := (p.trees.add root false).2 }.withPool pool).withStorage
        (p.engine.storage.insert (p.trees.add root false).1.id s))
  | rejected {e : Failure} {pool : Pool} :
    pool = p.pool ∨ (∃ size e, (Pool.allocate size true).on p.pool = (.error e, pool)) →
    AddTreeOutcome p root false (.error e,
      { p with
        trees := ((p.trees.add root false).2.remove (p.trees.add root false).1.id).2 }.withPool pool)

/-- What giving a tree storage comes to. -/
inductive Materialized (e : Engine) (t : FieldTree) : Except Failure Unit × Engine → Prop
  | kept {s : Storage} {pool : Pool} :
    e.attached = true → Packing.ofTree? t.root = some s.packing →
    (Pool.allocate s.packing.size true).on e.pool = (.ok s.allocation, pool) →
    Materialized e t (.ok (), { e with pool, storage := e.storage.insert t.id s })
  /-- The tree does not fit, or there is no pool to ask. -/
  | idle {f : Failure} : (e.attached = true → Packing.ofTree? t.root = none) →
    Materialized e t (.error f, e)
  | refused {f : Failure} {packing : Packing} {d : DeviceError} {pool : Pool} :
    e.attached = true → Packing.ofTree? t.root = some packing →
    (Pool.allocate packing.size true).on e.pool = (.error d, pool) →
    Materialized e t (.error f, { e with pool })

theorem materialized (e : Engine) (t : FieldTree) :
    Materialized e t ((Engine.materialize t).on e) := by
  rw [Engine.materialize, on_answer_bind, FieldTree.packing]
  cases hpack : Packing.ofTree? t.root with
  | none => exact .idle fun _ => hpack
  | some packing =>
    simp only [Outcome.pure_eq, Outcome.mapError_ok]
    rw [on_bind, throughPool_on]
    by_cases ha : e.attached = true
    · rw [if_pos ha, onPool_on]
      cases hr : (Pool.allocate packing.size true).on e.pool with
      | mk r pool =>
        cases r with
        | error d => exact .refused ha hpack hr
        | ok a => exact .kept (s := ⟨a, packing⟩) ha hpack hr
    · rw [if_neg ha]
      exact .idle fun ha' => absurd ha' ha

/-- The program with one more tree. -/
def registered (p : Program) (root : Node) (compileOnly : Bool) : Program :=
  { p with trees := (p.trees.add root compileOnly).2 }

/-- The program after a tree was registered and taken out again. -/
def rejected (p : Program) (root : Node) (compileOnly : Bool) : Program :=
  { p with trees :=
      ((p.trees.add root compileOnly).2.remove (p.trees.add root compileOnly).1.id).2 }

/-- The program without the tree that is live under an id and without its accessors. -/
def forgetting (p : Program) (id : Nat) (t : FieldTree) : Program :=
  { p with trees := (p.trees.remove id).2, accessors := p.accessorsWithout t }

/-- A tree is registered, and taken out again unless the backend gives it storage or it needs
none. -/
theorem addTree_on (root : Node) (compileOnly : Bool) (p : Program) :
    (addTree root compileOnly).on p =
      if compileOnly then (.ok (p.trees.add root compileOnly).1.id, p.registered root compileOnly)
      else
        match p.backend.refusal? .materialize (p.trees.add root compileOnly).1.id with
        | some reason => (.error (.error (.runtime reason)), p.rejected root compileOnly)
        | none =>
          match (Engine.materialize (p.trees.add root compileOnly).1).on p.engine with
          | (.ok _, e) =>
            (.ok (p.trees.add root compileOnly).1.id, (p.registered root compileOnly).withEngine e)
          | (.error f, e) => (.error f, (p.rejected root compileOnly).withEngine e) := by
  rw [addTree, on_get_bind]
  cases compileOnly with
  | true => rfl
  | false =>
    simp only [on_set_bind, Bool.not_false, if_true, Bool.false_eq_true, if_false]
    rw [on_bind, on_attempt, Backend.materialize]
    cases hr : p.backend.refusal? .materialize (p.trees.add root false).1.id with
    | some reason =>
      rw [guarded_refused (by exact hr)]
      rfl
    | none =>
      have hengine : ({ p with trees := (p.trees.add root false).2 } : Program).engine = p.engine :=
        rfl
      rw [guarded_accepted (by exact hr), onEngine_on, hengine]
      generalize (Engine.materialize (p.trees.add root false).1).on p.engine = x
      obtain ⟨f | _, e⟩ := x <;> rfl

theorem addTree_outcome (hp : p.Hosted) (root : Node) (compileOnly : Bool) :
    AddTreeOutcome p root compileOnly ((addTree root compileOnly).on p) := by
  rw [addTree_on]
  cases compileOnly with
  | true => exact .layout
  | false =>
    have h := materialized p.engine (p.trees.add root false).1
    simp only [Bool.false_eq_true, if_false, hp.refusal?]
    generalize (Engine.materialize (p.trees.add root false).1).on p.engine = r at h ⊢
    cases h with
    | kept ha hpack hr => exact .kept ha hpack hr
    | idle _ => exact .rejected (.inl rfl)
    | refused _ _ hr => exact .rejected (.inr ⟨_, _, hr⟩)

/-- A tree that is rejected leaves the pool changed at most. -/
theorem rejected_calm (root : Node) {pool : Pool} (held : List Allocation)
    (hpool : pool = p.pool ∨ ∃ size e, (Pool.allocate size true).on p.pool = (.error e, pool)) :
    ReflTransGen Calm ⟨p, held⟩ ⟨{ p with
      trees := ((p.trees.add root false).2.remove (p.trees.add root false).1.id).2 }.withPool pool,
      held⟩ := by
  have hrejected : Calm ⟨p.withPool pool, held⟩ _ := .treeRejected root
  refine .head (b := ⟨p.withPool pool, held⟩) ?_ (.single hrejected)
  rcases hpool with rfl | ⟨size, e, hr⟩
  · exact .quiet (Std.Refl.refl p)
  · exact .pool pool (.refused hr)

theorem addTree_chained (root : Node) (compileOnly : Bool) :
    (addTree root compileOnly).Along (Chained (Move ok)) := by
  intro p hp
  have h := addTree_outcome hp root compileOnly
  generalize (addTree root compileOnly).on p = r at h ⊢
  cases h with
  | layout => exact Chained.single rfl (fun _ => .calm (.layout root)) hp
  | @kept s pool ha hpack hr =>
    exact Chained.single rfl (fun _ => .tree root s pool ha hpack hr) hp
  | @rejected e pool hpool =>
    refine ⟨hp, ?_⟩
    intro held
    exact (rejected_calm root held hpool).lift id fun _ _ => .calm

theorem destroy_on (id : Nat) (e : Engine) :
    (Engine.destroy id).on e =
      match e.storage.find? id with
      | none => (.ok (), e)
      | some s => (Engine.releaseNdarray s.allocation).on { e with storage := e.storage.erase id } := by
  rw [Engine.destroy, on_get_bind]
  cases e.storage.find? id <;> rfl

/-- A tree that has storage has it from the pool. -/
theorem Moored.attached (hm : p.Moored) {id : Nat} {s : Storage}
    (hs : p.engine.storage.find? id = some s) : p.engine.attached = true := by
  by_contra hn
  obtain ⟨-, hnone, -⟩ := hm (by simpa using hn)
  rw [hnone] at hs
  cases hs

/-- A live tree goes with its accessors, and the backend is told if the tree may have storage. -/
theorem destroyTree_on (id : Nat) (p : Program) :
    (destroyTree id).on p =
      match p.trees.get? id with
      | none => (.error (.misuse (.treeNotLive id)), p)
      | some t =>
        if t.compileOnly then (.ok (), p.forgetting id t)
        else
          match p.backend.refusal? .destroy id with
          | some reason => (.error (.error (.runtime reason)), p.forgetting id t)
          | none =>
            (((Engine.destroy id).on p.engine).1,
              (p.forgetting id t).withEngine ((Engine.destroy id).on p.engine).2) := by
  rw [destroyTree, on_get_bind]
  cases ht : p.trees.get? id with
  | none => simp only [Registry.remove, ht, on_throw]
  | some t =>
    have hr : p.trees.remove id = (some t, (p.trees.remove id).2) := by
      rw [Registry.remove, ht]
    rw [hr]
    simp only [on_set_bind]
    rw [← accessorsWithout]
    cases hc : t.compileOnly with
    | true => rfl
    | false =>
      simp only [Bool.not_false, if_true, Bool.false_eq_true, if_false, Backend.destroy]
      cases hrefusal : p.backend.refusal? .destroy id with
      | some reason =>
        rw [guarded_refused (by exact hrefusal)]
        rfl
      | none =>
        rw [guarded_accepted (by exact hrefusal), onEngine_on]
        rfl

theorem destroyTree_calm (hm : p.Moored) (id : Nat) :
    Chained Calm p ((destroyTree id).on p).2 := by
  intro hp
  rw [destroyTree_on]
  cases ht : p.trees.get? id with
  | none => exact ⟨hp, fun _ => .refl⟩
  | some t =>
    have hgone (held : List Allocation) : Calm ⟨p, held⟩ _ := .treeGone id t ht
    cases hc : t.compileOnly with
    | true =>
      simp only [withoutTree, storageOf, hc, if_true, List.nil_append] at hgone ⊢
      exact ⟨hp, fun held => .single (hgone held)⟩
    | false =>
      simp only [withoutTree, storageOf, hc, Bool.false_eq_true, if_false] at hgone
      simp only [hc, Bool.false_eq_true, if_false, hp.refusal?]
      rw [destroy_on]
      cases hs : p.engine.storage.find? id with
      | none =>
        simp only [hs, Table.erase_eq_self hs] at hgone
        exact ⟨hp, fun held => .single (hgone held)⟩
      | some s =>
        -- First the tree lets go of its storage, then that goes back to the pool.
        simp only [hs] at hgone
        refine ⟨hp, ?_⟩
        intro held
        refine .tail (.single (hgone held)) ?_
        exact release_calm (p := (p.forgetting id t).withStorage (p.engine.storage.erase id))
          (hm.attached hs) s.allocation held

end Program

end FieldCompute
