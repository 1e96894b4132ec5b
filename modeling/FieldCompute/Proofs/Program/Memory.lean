import FieldCompute.Proofs.Program.Chains
/-!
# Arrays, textures and memory

What the operations on memory come to, as moves of the pool and of what is held. An allocation goes
back to the pool in one move, or is lost where the pool refuses it (`release_calm`).
-/

namespace FieldCompute

open Routine Relation

namespace Program

variable {α : Type} {p p' : Program} {ok : World → Command → Prop}

theorem onPool_on (a : Routine Pool DeviceError α) (e : Engine) :
    (Engine.onPool a).on e =
      ((a.on e.pool).1.mapError Failure.device, { e with pool := (a.on e.pool).2 }) := by
  rw [Engine.onPool, on_zoom, on_mapError]

/-- Past the program, straight to its pool. -/
theorem onPool_through (a : Routine Pool DeviceError α) (p : Program) :
    (onEngine (Engine.onPool a)).on p =
      ((a.on p.pool).1.mapError Failure.device, p.withPool (a.on p.pool).2) := by
  rw [onEngine_on, onPool_on]
  rfl

theorem throughPool_on (a : Routine Pool DeviceError α) (e : Engine) :
    (Engine.throughPool a).on e =
      if e.attached then (Engine.onPool a).on e
      else (.error (.error (.runtime "runtime is not materialized")), e) := by
  rw [Engine.throughPool, on_get_bind]
  cases e.attached <;> rfl

/-- A release that fails changes nothing. -/
theorem release_error {a : Allocation} {e : DeviceError} {pool pool' : Pool}
    (h : (Pool.release a).on pool = (.error e, pool')) : pool' = pool := by
  rw [Pool.release, on_get_bind] at h
  split at h
  · cases h
  · rw [Pool.onDevice_on] at h
    split at h <;> cases h
    rfl

theorem Hosted.withEngine (h : p.Hosted) (e : Engine) : (p.withEngine e).Hosted := h

/-- Where there is a pool, an allocation goes back to it, or the pool refuses it and nothing
happens. -/
theorem release_cases {e : Engine} (h : e.attached = true) (a : Allocation) :
    (∃ pool, (Pool.release a).on e.pool = (.ok (), pool) ∧
      (Engine.releaseNdarray a).on e = (.ok (), { e with pool })) ∨
    ∃ d, ((Pool.release a).on e.pool).1 = .error d ∧
      (Engine.releaseNdarray a).on e = (.error (.device d), e) := by
  rw [Engine.releaseNdarray, throughPool_on, if_pos h, onPool_on]
  cases hr : (Pool.release a).on e.pool with
  | mk r pool =>
    cases r with
    | error d => rw [release_error hr]; exact .inr ⟨d, rfl, rfl⟩
    | ok _ => exact .inl ⟨pool, rfl, rfl⟩

/-- One move gives an allocation back, or loses it where the pool refuses it. -/
theorem release_calm (h : p.engine.attached = true) (a : Allocation) (held : List Allocation) :
    Calm ⟨p, a :: held⟩ ⟨p.withEngine ((Engine.releaseNdarray a).on p.engine).2, held⟩ := by
  have ha : a ∈ a :: held := List.mem_cons_self
  rcases release_cases h a with ⟨pool, hr, hon⟩ | ⟨d, hr, hon⟩
  · have hm : p.engine.pool.Move (a :: held) pool held := by
      simpa using Pool.Move.released ha hr
    rw [hon]
    exact .pool pool hm
  · rw [hon]
    exact .lost a ha (.inl ⟨d, hr⟩) (List.sublist_cons_self ..)

theorem releaseTexture_calm (p : Program) (a : Allocation) (held : List Allocation) :
    Calm ⟨p, a :: held⟩ ⟨p.withEngine ((Engine.releaseTexture a).on p.engine).2, held⟩ := by
  have ha : a ∈ a :: held := List.mem_cons_self
  have hon := onPool_on (Pool.onDevice (·.deallocate a)) p.engine
  cases hr : (Pool.onDevice (·.deallocate a)).on p.engine.pool with
  | mk r pool =>
    rw [hr] at hon
    rw [Engine.releaseTexture, hon]
    cases r with
    | error e =>
      rw [Pool.onDevice_on] at hr
      split at hr <;> cases hr
      rename_i d hd
      exact .lost a ha (.inr ⟨_, hd⟩) (List.sublist_cons_self ..)
    | ok _ =>
      have hm : p.engine.pool.Move (a :: held) pool held := by simpa using Pool.Move.freed ha hr
      exact .pool pool hm

theorem checkFault_on (p : Program) :
    checkFault.on p =
      (match p.engine.fault with
        | none => .ok ()
        | some fault => .error (.error (.runtime fault)),
      p.withEngine { p.engine with fault := none }) := by
  have h : Engine.checkFault.on p.engine =
      (match p.engine.fault with
        | none => .ok ()
        | some fault => .error (.error (.runtime fault)), { p.engine with fault := none }) := by
    rw [Engine.checkFault, on_get_bind, on_set_bind]
    cases p.engine.fault <;> rfl
  rw [checkFault, onEngine_on, h]

theorem checkFault_calm : checkFault.Along (Chained Calm) := by
  intro p
  rw [checkFault_on]
  exact .single rfl fun _ => .fault none

theorem synchronize_calm : synchronize.Along (Chained Calm) := by
  intro p hp
  rw [synchronize, Backend.synchronize, guarded_on hp]
  exact ⟨hp, fun _ => .refl⟩

/-- What asking the pool for memory comes to, through the program. -/
theorem allocateMemory_on (size : Nat) (zero : Bool) (p : Program) :
    (allocateMemory size zero).on p =
      if p.engine.attached then
        (((Pool.allocate size zero).on p.pool).1.mapError Failure.device,
          p.withPool ((Pool.allocate size zero).on p.pool).2)
      else (.error (.error (.runtime "runtime is not materialized")), p) := by
  rw [allocateMemory, onEngine_on, Engine.allocateNdarray, throughPool_on]
  split
  · rw [onPool_on]; rfl
  · rfl

theorem allocateImage_on (i : Image) (p : Program) :
    (allocateImage i).on p =
      (((Pool.fromDevice (·.allocateImage i)).on p.pool).1.mapError Failure.device,
        p.withPool ((Pool.fromDevice (·.allocateImage i)).on p.pool).2) := by
  rw [allocateImage, Engine.allocateTexture, onPool_through]

theorem Chained.pool {pool : Pool} (h : ∀ held, p.pool.Move held pool held) :
    Chained Calm p (p.withPool pool) := .single rfl fun held => .pool pool (h held)

/-- The program with one more array. -/
def withNdarray (p : Program) (a : Ndarray) : Program :=
  { p with ndarrays := p.ndarrays.insert a.id a, nextNdarray := a.id + 1 }

/-- An array gets its memory from the pool. -/
theorem createNdarray_on {dtype : DType} {shape : List Nat} {size : Nat}
    (hs : dtype.arrayBytes? shape = some size) (layout : ArrayLayout) (zero : Bool) (p : Program) :
    (createNdarray dtype shape layout zero).on p =
      if p.engine.attached then
        match (Pool.allocate size zero).on p.pool with
        | (.ok a, pool) => (.ok p.nextNdarray,
            (p.withNdarray ⟨p.nextNdarray, dtype, shape, layout, a⟩).withPool pool)
        | (.error e, pool) => (.error (.device e), p.withPool pool)
      else (.error (.error (.runtime "runtime is not materialized")), p) := by
  simp only [createNdarray, hs]
  rw [on_bind, allocateMemory_on]
  cases p.engine.attached with
  | true =>
    simp only [if_true]
    obtain ⟨e | a, pool⟩ := (Pool.allocate size zero).on p.pool <;> rfl
  | false => rfl

theorem createNdarray_calm (dtype : DType) (shape : List Nat) (layout : ArrayLayout) (zero : Bool) :
    (createNdarray dtype shape layout zero).Along (Chained Calm) := by
  intro p
  cases hs : dtype.arrayBytes? shape with
  | none =>
    simp only [createNdarray, hs, on_throw]
    exact Std.Refl.refl p
  | some size =>
    rw [createNdarray_on hs]
    by_cases ha : p.engine.attached = true
    · rw [if_pos ha]
      cases hr : (Pool.allocate size zero).on p.pool with
      | mk r pool =>
        cases r with
        | error e => exact .pool fun _ => .refused hr
        | ok a =>
          refine .single rfl fun held => ?_
          exact .ndarray ⟨p.nextNdarray, dtype, shape, layout, a⟩ size zero pool rfl ha hs hr
    · rw [if_neg ha]
      exact Std.Refl.refl p

theorem createTexture_calm (i : Image) : (createTexture i).Along (Chained Calm) := by
  intro p
  rw [createTexture, on_bind, allocateImage_on]
  cases hr : (Pool.fromDevice (·.allocateImage i)).on p.pool with
  | mk r pool =>
    cases r with
    | error e => rw [Pool.fromDevice_error hr]; exact Std.Refl.refl p
    | ok a => exact .single rfl fun _ => .texture ⟨i, a⟩ pool hr

theorem ndarray_on (id : Nat) (p : Program) :
    (ndarray id).on p = match p.ndarrays.find? id with
      | some a => (.ok a, p)
      | none => (.error (.error (.ndarrayNotFound id)), p) := by
  rw [ndarray, on_get_bind]
  cases p.ndarrays.find? id <;> rfl

theorem ndarray_quiet (id : Nat) : (ndarray id).Along Quiet := by
  intro p
  rw [ndarray_on]
  split <;> exact Std.Refl.refl p

theorem deleteNdarray_on (hp : p.Hosted) (id : Nat) :
    (deleteNdarray id).on p =
      match p.ndarrays.find? id with
      | none => (.error (.error (.ndarrayNotFound id)), p)
      | some a => (((Engine.releaseNdarray a.allocation).on p.engine).1,
          ({ p with ndarrays := p.ndarrays.erase id } : Program).withEngine
            ((Engine.releaseNdarray a.allocation).on p.engine).2) := by
  rw [deleteNdarray, on_bind, ndarray_on]
  cases p.ndarrays.find? id with
  | none => rfl
  | some a =>
    have hp' : ({ p with ndarrays := p.ndarrays.erase id } : Program).Hosted := hp
    simp only [on_modify_bind, Backend.releaseNdarray]
    rw [guarded_on hp', onEngine_on]
    rfl

theorem deleteNdarray_calm (hm : p.Moored) (id : Nat) :
    Chained Calm p ((deleteNdarray id).on p).2 := by
  intro hp
  rw [deleteNdarray_on hp]
  cases ha : p.ndarrays.find? id with
  | none => exact ⟨hp, fun _ => .refl⟩
  | some a =>
    have hattached : p.engine.attached = true := by
      by_contra hn
      obtain ⟨-, -, hnone⟩ := hm (by simpa using hn)
      rw [hnone] at ha
      cases ha
    refine ⟨hp.withEngine _, ?_⟩
    intro held
    refine .tail (.single (.ndarrayGone id a ha)) ?_
    exact release_calm (p := { p with ndarrays := p.ndarrays.erase id }) hattached a.allocation held

theorem fillNdarray_chained (id : Nat) (pattern : UInt32) :
    (fillNdarray id pattern).Along (Chained (Move ok)) := by
  intro p
  rw [fillNdarray, on_bind, ndarray_on]
  cases p.ndarrays.find? id with
  | none => exact Std.Refl.refl p
  | some a =>
    simp only [on_get_bind, on_answer_bind]
    cases hd : p.device.fill a.allocation pattern with
    | error e => exact Std.Refl.refl p
    | ok d => exact .single rfl fun _ => .rewritten d (.fill hd)

end Program

end FieldCompute
