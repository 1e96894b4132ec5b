import FieldCompute.Proofs.Device.FreeLists
import FieldCompute.Proofs.Program.Ownership
/-!
# All is given back

Where the pool has out just what trees, arrays, textures and callers have (`Program.Solvent`), no
step of the teardown is refused (`Program.teardown_settles`): every step gives back something that
is out. What is left of the memory in the end is what callers hold.
-/

namespace FieldCompute

open Routine Device

namespace Program

/-- On every program that is as `P` says the routine succeeds, changes the engine alone, and leaves
the program as `Q` says. -/
def Settles (P : Program → Prop) (a : Op Unit) (Q : Program → Prop) : Prop :=
  ∀ p, P p → ∃ e, a.on p = (.ok (), p.withEngine e) ∧ Q (p.withEngine e)

/-- So do the routines, one after the other. -/
inductive SettlesAll : (Program → Prop) → List (Op Unit) → (Program → Prop) → Prop
  | nil {P : Program → Prop} : SettlesAll P [] P
  | cons {P Q R : Program → Prop} {step : Op Unit} {steps : List (Op Unit)} :
    Settles P step Q → SettlesAll Q steps R → SettlesAll P (step :: steps) R

namespace SettlesAll

variable {P Q R : Program → Prop} {steps steps' : List (Op Unit)}

theorem append (h : SettlesAll P steps Q) (h' : SettlesAll Q steps' R) :
    SettlesAll P (steps ++ steps') R := by
  induction h with
  | nil => exact h'
  | cons hstep _ ih => exact .cons hstep (ih h')

/-- Steps that each give back an allocation give back all of them. -/
theorem map_give {ι : Type} {S : List Allocation → Program → Prop} {step : ι → Op Unit}
    {given : ι → Allocation} (h : ∀ i out, Settles (S (given i :: out)) (step i) (S out))
    (l : List ι) (out : List Allocation) :
    SettlesAll (S (l.map given ++ out)) (l.map step) (S out) := by
  induction l with
  | nil => exact .nil
  | cons i l ih => exact .cons (h i _) ih

theorem map_keep {ι : Type} {step : ι → Op Unit} (h : ∀ i, Settles P (step i) P) (l : List ι) :
    SettlesAll P (l.map step) P := by
  induction l with
  | nil => exact .nil
  | cons i l ih => exact .cons (h i) ih

/-- Where every step succeeds there is no failure to report. -/
theorem attempts (h : SettlesAll P steps Q) {p : Program} (hp : P p) :
    ∃ e, (steps.mapM attemptStep).on p = (.ok (steps.map fun _ => none), p.withEngine e) ∧
      Q (p.withEngine e) := by
  induction h generalizing p with
  | nil => exact ⟨p.engine, rfl, hp⟩
  | cons hstep _ ih =>
    obtain ⟨e, hon, hq⟩ := hstep p hp
    obtain ⟨e', hon', hq'⟩ := ih hq
    refine ⟨e', ?_, hq'⟩
    rw [List.mapM_cons, on_bind, attemptStep_on, hon]
    simp only
    rw [on_bind_of_ok hon']
    rfl

theorem runAll (h : SettlesAll P steps Q) : Settles P (runAll steps) Q := by
  intro p hp
  obtain ⟨e, hon, hq⟩ := h.attempts hp
  have hnone : (steps.map fun _ => (none : Option Failure)).findSome? id = none := by
    simp
  refine ⟨e, ?_, hq⟩
  rw [Program.runAll, on_bind_of_ok hon, hnone]
  rfl

end SettlesAll

/-! ## The steps -/

/-- The engine has its pool, and what is out of it is what trees have and `out`. -/
structure Solvent (out : List Allocation) (p : Program) : Prop where
  hosted : p.Hosted
  attached : p.engine.attached = true
  keys : p.engine.storage.keys.Nodup
  ledger : p.pool.Ledger (p.engine.storage.values.map (·.allocation) ++ out)

/-- No tree has storage, and `out` is out. -/
structure Unfielded (out : List Allocation) (p : Program) : Prop where
  storage : p.engine.storage = .empty
  ledger : p.pool.Ledger out

/-- Also the pool is terminated and keeps nothing. -/
structure Spent (out : List Allocation) (p : Program) : Prop where
  storage : p.engine.storage = .empty
  ledger : p.pool.Ledger out
  terminated : p.pool.terminated = true
  free : p.pool.free = .empty
  cached : p.pool.stats.cached = 0

variable {p : Program} {e : Engine} {a : Allocation} {out : List Allocation}

/-- The engine gives back what is out of its pool. -/
theorem releaseNdarray_on (ha : e.attached = true) (h : e.pool.Ledger (a :: out)) :
    ∃ pool, (Engine.releaseNdarray a).on e = (.ok (), { e with pool }) ∧ pool.Ledger out := by
  obtain ⟨pool, hr, hb⟩ := h.release
  refine ⟨pool, ?_, hb.ledger⟩
  rw [Engine.releaseNdarray, throughPool_on, if_pos ha, onPool_on, hr]
  rfl

theorem releaseAll_on (l : List Storage) (ha : e.attached = true)
    (h : e.pool.Ledger (l.map (·.allocation) ++ out)) :
    ∃ pool, (l.forM fun s => Engine.releaseNdarray s.allocation).on e = (.ok (), { e with pool }) ∧
      pool.Ledger out := by
  induction l generalizing e with
  | nil => exact ⟨e.pool, rfl, h⟩
  | cons s l ih =>
    obtain ⟨pool, hon, hl⟩ := releaseNdarray_on ha h
    obtain ⟨pool', hon', hl'⟩ := ih (e := { e with pool }) ha hl
    refine ⟨pool', ?_, hl'⟩
    change (Engine.releaseNdarray s.allocation >>= fun _ =>
      l.forM fun s => Engine.releaseNdarray s.allocation).on e = _
    rw [on_bind_of_ok hon, hon']

/-- A call of the backend that the engine answers. -/
theorem Solvent.settles {Q : Program → Prop} {call : BackendCall} {subject? : Option Nat}
    {f : Routine Engine Failure Unit}
    (h : ∀ p, Solvent out p → ∃ e, f.on p.engine = (.ok (), e) ∧ Q (p.withEngine e)) :
    Settles (Solvent out) (onBackend (Backend.guarded call subject? f)) Q := by
  intro p hp
  obtain ⟨e, hon, hq⟩ := h p hp
  refine ⟨e, ?_, hq⟩
  rw [guarded_on hp.hosted, onEngine_on, hon]

theorem synchronize_settles (out : List Allocation) :
    Settles (Solvent out) synchronize (Solvent out) := by
  apply Solvent.settles
  intro p hp
  exact ⟨p.engine, rfl, hp⟩

theorem releaseNdarray_settles (a : Allocation) (out : List Allocation) :
    Settles (Solvent (a :: out)) (onBackend (Backend.releaseNdarray a)) (Solvent out) := by
  apply Solvent.settles
  intro p hp
  obtain ⟨pool, hon, hl⟩ := releaseNdarray_on hp.attached (hp.ledger.perm List.perm_middle.symm)
  exact ⟨_, hon, hp.hosted, hp.attached, hp.keys, hl⟩

/-- A texture goes back to the device, past the pool. -/
theorem releaseTexture_settles (a : Allocation) (out : List Allocation) :
    Settles (Solvent (a :: out)) (onBackend (Backend.releaseTexture a)) (Solvent out) := by
  apply Solvent.settles
  intro p hp
  have hl := hp.ledger.perm List.perm_middle.symm
  obtain ⟨d, hd, hold, -⟩ := hl.holds.deallocate
  refine ⟨p.engine.withDevice d, ?_, hp.hosted, hp.attached, hp.keys, hl.withDevice hold⟩
  have hd : p.engine.pool.device.deallocate a = .ok d := hd
  rw [Engine.releaseTexture, onPool_on, Pool.onDevice_on, hd]
  rfl

theorem destroy_settles (id : Nat) (out : List Allocation) :
    Settles (Solvent out) (onBackend (Backend.destroy id)) (Solvent out) := by
  apply Solvent.settles
  intro p hp
  rw [destroy_on]
  cases hs : p.engine.storage.find? id with
  | none => exact ⟨p.engine, rfl, hp⟩
  | some s =>
    have hperm := ((Table.values_erase_perm hp.keys hs).map (·.allocation)).append_right out
    obtain ⟨pool, hon, hl⟩ := releaseNdarray_on
      (e := { p.engine with storage := p.engine.storage.erase id }) hp.attached
      (hp.ledger.perm hperm.symm)
    exact ⟨_, hon, hp.hosted, hp.attached, Table.nodup_keys_erase hp.keys, hl⟩

theorem engineFinalize_settles (out : List Allocation) :
    Settles (Solvent out) (onBackend Backend.finalize) (Unfielded out) := by
  apply Solvent.settles
  intro p hp
  obtain ⟨pool, hon, hl⟩ := releaseAll_on (e := { p.engine with storage := .empty })
    p.engine.storage.values hp.attached hp.ledger
  refine ⟨{ p.engine with storage := .empty, pool, attached := false }, ?_, rfl, hl⟩
  rw [engineFinalize_on hp.attached, hon]

theorem terminate_settles (out : List Allocation) :
    Settles (Unfielded out) (onEngine (Engine.onPool Pool.terminate)) (Spent out) := by
  intro p hp
  obtain ⟨pool, hon, hb, ht⟩ := hp.ledger.terminate
  have hsnd := Pool.terminate_snd p.pool
  rw [hon] at hsnd
  refine ⟨{ p.engine with pool }, ?_, hp.storage, hb.ledger, ht, congrArg Pool.free hsnd,
    congrArg (·.stats.cached) hsnd⟩
  rw [onPool_through, hon]
  rfl

/-! ## Finalizing -/

/-- Every step of the teardown succeeds, and what is left out is what callers hold. -/
theorem teardown_settles (p : Program) (held : List Allocation) :
    SettlesAll
      (Solvent (p.ndarrays.values.map (·.allocation) ++ (p.textures.map (·.allocation) ++ held)))
      p.teardown (Spent held) := by
  have hfront (out : List Allocation) : SettlesAll (Solvent out) [synchronize] (Solvent out) :=
    .cons (synchronize_settles out) .nil
  have harrays := SettlesAll.map_give
    (fun (a : Ndarray) => releaseNdarray_settles a.allocation) p.ndarrays.values
  have htextures := SettlesAll.map_give
    (fun (t : Texture) => releaseTexture_settles t.allocation) p.textures
  have htrees := SettlesAll.map_keep (fun t : FieldTree => destroy_settles t.id held)
    (p.trees.live.filter (!·.compileOnly))
  have hback : SettlesAll (Solvent held)
      [onBackend Backend.finalize, onEngine (Engine.onPool Pool.terminate)] (Spent held) :=
    .cons (engineFinalize_settles held) (.cons (terminate_settles held) .nil)
  exact ((((hfront _).append (harrays _)).append (htextures _)).append htrees).append hback

end Program

namespace Run

open Program

variable {w : World} {cs : List Command}

/-- A program that is not finalized has its memory accounted for. -/
theorem solvent (r : Run World.Honest w cs) (hf : w.program.finalized = false) :
    Solvent (w.program.ndarrays.values.map (·.allocation) ++
      (w.program.textures.map (·.allocation) ++ w.held)) w.program.emptied := by
  have h := r.accounted fun _ _ => id
  have hattached : w.program.engine.attached = true := by
    by_contra hn
    have hclosed := (r.moored (Bool.eq_false_iff.2 hn)).1
    rw [hf] at hclosed
    cases hclosed
  refine ⟨r.hosted, hattached, h.storage, ?_⟩
  have hledger := h.ledger
  rw [owned, List.append_assoc, List.append_assoc] at hledger
  exact hledger

/-- Finalizing succeeds and gives back everything: on the device is what callers hold and nothing
else, the pool is terminated and keeps nothing, and no table of the program has anything. -/
theorem finalize_returns_everything (r : Run World.Honest w cs)
    (hf : w.program.finalized = false) :
    ∃ p, finalize.on w.program = (.ok (), p) ∧
      (p.device.memory.entries.map fun e => (⟨e.1, e.2.size⟩ : Allocation)).Perm w.held ∧
      p.pool.terminated = true ∧ p.pool.cachedAllocations = [] ∧ p.pool.stats.cached = 0 ∧
      p.finalized = true ∧ p.engine.storage = .empty ∧ p.trees = .empty ∧ p.accessors = .empty ∧
      p.ndarrays = .empty ∧ p.textures = [] ∧ p.listed = [] ∧ p.functionIndex = .empty ∧
      p.evaluators = .empty := by
  obtain ⟨e, hon, hs⟩ := (teardown_settles w.program w.held).runAll _ (r.solvent hf)
  have hkept : (w.program.emptied.withEngine e).pool.cachedAllocations = [] := by
    rw [Pool.cachedAllocations, hs.free]
    rfl
  have hholds := hs.ledger.holds
  rw [hkept, List.append_nil] at hholds
  refine ⟨_, (finalize_on hf).trans hon, hholds.entries_perm, hs.terminated, hkept, hs.cached, rfl,
    hs.storage, rfl, rfl, rfl, rfl, rfl, rfl, rfl⟩

/-- A tree, one that is only compiled, an array, a texture and, after an array has been deleted, the
pool have something, and so has a caller. -/
theorem finalize_returns_everything_but_held : ∃ w cs p, Run World.Honest w cs ∧
    w.program.finalized = false ∧ w.program.trees.live.length = 2 ∧
    w.allocations.map (·.id) = [0, 1, 2, 3, 4] ∧
    finalize.on w.program = (.ok (), p) ∧ p.device.memory.keys.Perm [3] := by
  have tree : Run World.Honest _ _ := Run.fresh.step
    (.addTree (.mk 0 .root [] [.mk 1 (.place "x" .int32) [] []]) false) trivial
  have layout := tree.step
    (.addTree (.mk 2 .root [] [.mk 3 (.place "y" .int8) [] []]) true) trivial
  have array := layout.step (.createNdarray (.scalar .int32) [3] .aos true) trivial
  have texture := array.step (.createTexture ⟨.scalar .float32, 4, [2, 2]⟩) trivial
  have raw := texture.step (.allocateMemory 16 false) trivial
  have cached := (raw.step (.createNdarray (.scalar .int8) [5] .aos true) trivial).step
    (.deleteNdarray 1) trivial
  obtain ⟨p, hon, hperm, -⟩ := cached.finalize_returns_everything (by decide +kernel)
  refine ⟨_, _, p, cached, by decide +kernel, by decide +kernel, by decide +kernel, hon, ?_⟩
  have hheld := hperm.map (·.id)
  rw [List.map_map] at hheld
  refine hheld.trans (.of_eq ?_)
  decide +kernel

end Run

end FieldCompute
