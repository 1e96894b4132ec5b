import FieldCompute.Proofs.Device.Admission
import FieldCompute.Proofs.Program.Ownership
/-!
# What a program is given

The limit of the device counts what trees, arrays, textures and callers have, and also what the pool
keeps. Trees and arrays get their memory from the pool, which gives back what it keeps before it
refuses, so only what is in use counts for them. A texture comes from the device itself, and for it
what the pool keeps counts as well (`Run.admission_of_requests`).
-/

namespace FieldCompute

open Routine Program Device Relation

namespace World

/-- The bytes of trees, arrays, textures and callers. -/
def inUse (w : World) : Nat := ((w.program.owned ++ w.held).map (·.size)).sum

/-- The bytes on the free lists of the pool. -/
def cached (w : World) : Nat := (w.program.pool.cachedAllocations.map (·.size)).sum

/-- Under the limit of the device there is room for that many bytes beside those that are used. -/
def Admits (w : World) (used size : Nat) : Prop := ∀ l ∈ w.program.device.limit, used + size ≤ l

/-- The engine may use its pool, and the pool is not terminated. -/
def InService (w : World) : Prop :=
  w.program.engine.attached = true ∧ w.program.pool.terminated = false

/-- The device keeps to its limit, and as long as the program is not finalized its pool goes on. -/
structure Served (w w' : World) : Prop where
  device : w.program.device.Bounded w'.program.device
  service : w'.program.finalized = false →
    w.program.finalized = false ∧ w'.program.pool.terminated = w.program.pool.terminated

namespace Served

variable {w w' w'' : World}

theorem of_pool (h : w.program.pool.Serving w'.program.pool)
    (hf : w'.program.finalized = w.program.finalized) : w.Served w' :=
  ⟨h.device, fun hopen => ⟨hf ▸ hopen, h.terminated⟩⟩

theorem of_finalized (h : w.program.device.Bounded w'.program.device)
    (hf : w'.program.finalized = true) : w.Served w' := by
  refine ⟨h, fun hopen => ?_⟩
  rw [hf] at hopen
  cases hopen

theorem refl (w : World) : w.Served w := .of_pool (Std.Refl.refl _) rfl

theorem trans (h : w.Served w') (h' : w'.Served w'') : w.Served w'' := by
  refine ⟨h.device.trans h'.device, fun hopen => ?_⟩
  obtain ⟨hopen', ht'⟩ := h'.service hopen
  obtain ⟨hopen'', ht⟩ := h.service hopen'
  exact ⟨hopen'', ht'.trans ht⟩

end Served

end World

/-! ## Moves -/

namespace Pool

theorem Move.serving {p p' : Pool} {held held' : List Allocation} (hm : Move p held p' held') :
    p.Serving p' := by
  cases hm with
  | @allocated _ _ size zero a ha => exact (allocate_serving size zero).ends ha
  | @refused _ _ size zero e ha => exact (allocate_serving size zero).ends ha
  | imaged ha => exact (fromDevice_serving .allocateImage).ends ha
  | @released _ _ a _ hr => exact (release_serving a).ends hr
  | freed _ hr => exact (onDevice_serving .deallocate).ends hr

end Pool

namespace World

variable {ok : World → Command → Prop} {w w' : World} {c : Command}

theorem Served.calm (hm : Calm w w') : w.Served w' := by
  cases hm with
  | @quiet p p' held hq =>
    have hpool : p'.pool = p.pool := congrArg (·.engine.pool) hq.backend
    exact .of_pool (by rw [hpool]; exact Std.Refl.refl _) hq.finalized
  | @kernel p p' held k hid hc hq hn =>
    have hpool : p'.pool = p.pool := congrArg (·.engine.pool) hq.backend
    refine .of_pool ?_ hq.finalized
    change p.pool.Serving p'.pool
    rw [hpool]
    exact Std.Refl.refl _
  | pool pool hm => exact .of_pool hm.serving rfl
  | @ndarray p held a size zero pool hid hatt hb ha =>
    exact .of_pool ((Pool.allocate_serving size zero).ends ha) rfl
  | texture t pool ha =>
    exact .of_pool ((Pool.fromDevice_serving .allocateImage).ends ha) rfl
  | _ => exact .of_pool (Std.Refl.refl _) rfl

theorem Served.closing (hm : Closing w w') : w.Served w' := by
  cases hm with
  | emptied => exact .of_finalized (.refl _) rfl
  | storageGone id s hf hs => exact .of_finalized (.refl _) hf
  | allStorageGone hf => exact .of_finalized (.refl _) hf
  | detached hf hs => exact .of_finalized (.refl _) hf
  | poolTerminated hf => exact .of_finalized (Pool.terminate_bounded _) hf

/-- A raw command leaves the pool in service, unless it terminates it. -/
theorem Served.raw (hr : c.IsRaw) (hc : c ≠ .poolTerminate) : w.Served (w.step c) := by
  have through {pool : Pool} (h : (w.step c).program = w.program.withPool pool)
      (hs : w.program.pool.Serving pool) : w.Served (w.step c) :=
    .of_pool (by rw [h]; exact hs) (by rw [h]; rfl)
  cases c with
  | deviceAllocate size =>
    exact through (step_onPool_handing rfl) (Pool.fromDevice_serving .allocate _)
  | deviceImage i =>
    exact through (step_onPool_handing rfl) (Pool.fromDevice_serving .allocateImage _)
  | deviceFree a => exact through (step_onPool rfl) (Pool.onDevice_serving .deallocate _)
  | deviceWrite p bytes =>
    exact through (step_onPool rfl) (Pool.onDevice_serving (fun h => .rewritten (.write h)) _)
  | deviceFill a pattern =>
    exact through (step_onPool rfl) (Pool.onDevice_serving (fun h => .rewritten (.fill h)) _)
  | poolAllocate size zero =>
    exact through (step_onPool_handing rfl) (Pool.allocate_serving size zero _)
  | poolRelease a => exact through (step_onPool rfl) (Pool.release_serving a _)
  | poolTerminate => exact absurd rfl hc
  | _ => exact hr.elim

theorem Served.move (hm : Move ok w w') :
    w.Served w' ∨ ok w .poolTerminate ∧ w' = w.step .poolTerminate := by
  cases hm with
  | calm hm => exact .inl (.calm hm)
  | finished hm _ =>
    exact .inl (ending_keeps (fun hm h => h.trans (.calm hm)) (fun hm h => h.trans (.closing hm)) hm
      (.refl _))
  | @tree p held root s pool hatt hpack ha =>
    exact .inl (.of_pool ((Pool.allocate_serving s.packing.size true).ends ha) rfl)
  | rewritten d hd => exact .inl (.of_pool ⟨rfl, .rewritten hd⟩ rfl)
  | raw c hr hc =>
    by_cases hterminate : c = .poolTerminate
    · subst hterminate
      exact .inr ⟨hc, rfl⟩
    · exact .inl (.raw hr hterminate)

end World

/-! ## Requests -/

namespace Program

variable {p : Program} {size : Nat}

/-- For an array there has to be memory in the pool. -/
theorem createNdarray_ok_iff {dtype : DType} {shape : List Nat}
    (hs : dtype.arrayBytes? shape = some size) (layout : ArrayLayout) (zero : Bool) :
    (∃ id, ((createNdarray dtype shape layout zero).on p).1 = .ok id) ↔
      p.engine.attached = true ∧ ∃ a, ((Pool.allocate size zero).on p.pool).1 = .ok a := by
  rw [createNdarray_on hs]
  by_cases ha : p.engine.attached = true
  · rw [if_pos ha]
    obtain ⟨e | a, pool⟩ := (Pool.allocate size zero).on p.pool
    · simp
    · exact ⟨fun _ => ⟨ha, a, rfl⟩, fun _ => ⟨_, rfl⟩⟩
  · rw [if_neg ha]
    simp [ha]

theorem materialize_ok_iff {e : Engine} {t : FieldTree} {packing : Packing}
    (hpack : t.packing = .ok packing) : ((Engine.materialize t).on e).1 = .ok () ↔
      e.attached = true ∧ ∃ a, ((Pool.allocate packing.size true).on e.pool).1 = .ok a := by
  rw [Engine.materialize, hpack, Outcome.mapError_ok, on_answer_bind]
  simp only
  rw [on_bind, throughPool_on]
  by_cases ha : e.attached = true
  · rw [if_pos ha, onPool_on]
    obtain ⟨d | a, pool⟩ := (Pool.allocate packing.size true).on e.pool
    · simp [Except.mapError]
    · exact ⟨fun _ => ⟨ha, a, rfl⟩, fun _ => rfl⟩
  · rw [if_neg ha]
    simp [ha]

/-- For the storage of a tree there has to be memory in the pool. -/
theorem addTree_ok_iff (hp : p.Hosted) {root : Node} {packing : Packing}
    (hpack : Packing.ofTree? root = some packing) :
    (∃ id, ((addTree root false).on p).1 = .ok id) ↔
      p.engine.attached = true ∧ ∃ a, ((Pool.allocate packing.size true).on p.pool).1 = .ok a := by
  have hpacking : (p.trees.add root false).1.packing = .ok packing := by
    rw [FieldTree.packing, Registry.add_fst]
    simp only [hpack]
    rfl
  have hengine : p.engine.pool = p.pool := rfl
  rw [← hengine, ← materialize_ok_iff hpacking, addTree_on]
  simp only [Bool.false_eq_true, if_false, hp.refusal?]
  obtain ⟨e | _, e⟩ := (Engine.materialize (p.trees.add root false).1).on p.engine
  · simp
  · exact ⟨fun _ => rfl, fun _ => ⟨_, rfl⟩⟩

/-- For a texture there has to be memory on the device. -/
theorem createTexture_ok_iff {i : Image} (hs : i.bytes? = some size) :
    (∃ id, ((createTexture i).on p).1 = .ok id) ↔
      (∀ l ∈ p.device.limit, p.device.allocated + size ≤ l) ∧ size ≤ p.device.reservable := by
  have hdevice : p.device = p.pool.device := rfl
  rw [← exists_allocate_iff, createTexture, on_bind, allocateImage_on, Pool.fromDevice_on,
    Device.allocateImage, hs, hdevice]
  simp only
  cases p.pool.device.allocate size with
  | error e => simp [Except.mapError]
  | ok x => exact ⟨fun _ => ⟨x, rfl⟩, fun _ => ⟨_, rfl⟩⟩

end Program

namespace World.Accounted

variable {w : World} {size : Nat}

/-- The bytes in use on the device. -/
theorem allocated (h : w.Accounted) : w.program.device.allocated = w.inUse + w.cached := by
  have hsum := h.ledger.holds.allocated
  rwa [List.map_append, List.sum_append] at hsum

/-- For a request to the pool only what is in use counts. -/
theorem pool_admits (h : w.Accounted) (ho : w.program.device.Orderly) (zero : Bool)
    (hr : w.Admits w.inUse size → size ≤ w.program.device.reservable) :
    (w.program.engine.attached = true ∧
        ∃ a, ((Pool.allocate size zero).on w.program.pool).1 = .ok a) ↔
      w.InService ∧ w.Admits w.inUse size := by
  rw [h.ledger.admits ho zero hr, ← and_assoc]
  rfl

/-- For a texture what the pool keeps counts as well. -/
theorem texture_admits (h : w.Accounted) {i : Image} (hs : i.bytes? = some size)
    (hr : w.Admits w.inUse size → size ≤ w.program.device.reservable) :
    (∃ id, ((createTexture i).on w.program).1 = .ok id) ↔ w.Admits (w.inUse + w.cached) size := by
  rw [createTexture_ok_iff hs, h.allocated]
  refine ⟨And.left, fun hadmits => ⟨hadmits, hr fun l hl => ?_⟩⟩
  have := hadmits l hl
  omega

end World.Accounted

namespace Run

variable {ok : World → Command → Prop} {w : World} {cs : List Command}

/-- The device keeps to its limit whatever is done. -/
theorem orderly (r : Run ok w cs) : w.program.device.Orderly := by
  refine (r.invariant (I := fun w => w.program.device.Orderly) (fun hp => ?_) fun hm h => ?_).2.2
  · cases hp
    exact orderly_create _ _
  · rcases World.Served.move hm with hs | ⟨-, rfl⟩
    · exact hs.device.orderly h
    · rw [World.step_onPool rfl]
      exact (Pool.terminate_bounded _).orderly h

/-- Until it is finalized a program has its pool, if nobody terminates that. -/
theorem inService (r : Run ok w cs) (ht : .poolTerminate ∉ cs) (hf : w.program.finalized = false) :
    w.InService := by
  have hopen : ¬w.program.finalized = true := by simp [hf]
  refine ⟨by_contra fun hn => hopen (r.moored (by simpa using hn)).1, ?_⟩
  have r' := r.and_all (P := (· ≠ .poolTerminate)) fun c hc heq => ht (heq ▸ hc)
  refine (r'.invariant (I := fun w => w.program.finalized = false → w.program.pool.terminated = false)
    (fun hp => ?_) fun hm h => ?_).2.2 hf
  · cases hp
    exact fun _ => rfl
  · rcases World.Served.move hm with hs | ⟨hok, -⟩
    · intro hopen'
      obtain ⟨hbefore, hpool⟩ := hs.service hopen'
      exact hpool.trans (h hbefore)
    · exact absurd rfl hok.2

/-- An array or a tree gets its memory exactly where the limit has room for it beside what trees,
arrays, textures and callers have, as long as there is a pool: that is until the program is
finalized, if nobody terminates the pool. A texture needs room beside what the pool keeps, too. -/
theorem admission_of_requests (r : Run World.Honest w cs) (size : Nat)
    (hr : w.Admits w.inUse size → size ≤ w.program.device.reservable) :
    (w.program.finalized = false → .poolTerminate ∉ cs → w.InService) ∧
    (∀ dtype shape layout zero, dtype.arrayBytes? shape = some size →
      ((∃ id, ((createNdarray dtype shape layout zero).on w.program).1 = .ok id) ↔
        w.InService ∧ w.Admits w.inUse size)) ∧
    (∀ root packing, Packing.ofTree? root = some packing → packing.size = size →
      ((∃ id, ((addTree root false).on w.program).1 = .ok id) ↔
        w.InService ∧ w.Admits w.inUse size)) ∧
    ∀ i, i.bytes? = some size →
      ((∃ id, ((createTexture i).on w.program).1 = .ok id) ↔
        w.Admits (w.inUse + w.cached) size) := by
  have h := r.accounted fun _ _ => id
  have ho := r.orderly
  refine ⟨fun hf ht => r.inService ht hf, fun dtype shape layout zero hs => ?_,
    fun root packing hpack hs => ?_, fun i hs => h.texture_admits hs hr⟩
  · rw [createNdarray_ok_iff hs, h.pool_admits ho zero hr]
  · rw [addTree_ok_iff r.hosted hpack, hs, h.pool_admits ho true hr]

/-- The world of a fresh program that may use 1 MiB. -/
def oneMebibyte : World :=
  let c : Config := { deviceMemoryMb := 1 }
  let engine : Engine := { Engine.create c with attached := true }
  { World.fresh with
    program := { World.fresh.program with
      overlay := .create 0 c, backend := { Backend.host c with engine } } }

/-- An array took all of it and was deleted, so the pool keeps 1 MiB. -/
def oneMebibyteKept : World :=
  (oneMebibyte.step (.createNdarray (.scalar .uint8) [2 ^ 20] .aos true)).step (.deleteNdarray 0)

theorem run_oneMebibyteKept : Run World.Honest oneMebibyteKept
    [.createNdarray (.scalar .uint8) [2 ^ 20] .aos true, .deleteNdarray 0] := by
  have hfresh : Run World.Honest oneMebibyte [] := .start (c := { deviceMemoryMb := 1 }) rfl
  exact (hfresh.step (.createNdarray (.scalar .uint8) [2 ^ 20] .aos true) trivial).step
    (.deleteNdarray 0) trivial

/-- For another array of half the size the pool gives back what it keeps. -/
theorem admission_of_requests_drained : ∃ id,
    ((createNdarray (.scalar .uint8) [2 ^ 19] .aos true).on oneMebibyteKept.program).1 = .ok id := by
  have hroom : oneMebibyteKept.Admits oneMebibyteKept.inUse (2 ^ 19) := by
    intro l hl
    cases hl
    decide
  have h := run_oneMebibyteKept.admission_of_requests (2 ^ 19) fun _ => by decide
  have hservice := h.1 (by decide) (by simp)
  exact (h.2.1 (.scalar .uint8) [2 ^ 19] .aos true (by decide)).2 ⟨hservice, hroom⟩

/-- A texture of 1 MiB is refused where nothing is in use, as the pool keeps the memory. -/
theorem kept_memory_refuses_texture :
    Run World.Honest oneMebibyteKept
      [.createNdarray (.scalar .uint8) [2 ^ 20] .aos true, .deleteNdarray 0] ∧
    oneMebibyteKept.InService ∧
    Image.bytes? ⟨.scalar .uint8, 1, [2 ^ 20]⟩ = some (2 ^ 20) ∧
    oneMebibyteKept.Admits oneMebibyteKept.inUse (2 ^ 20) ∧
    ¬∃ id, ((createTexture ⟨.scalar .uint8, 1, [2 ^ 20]⟩).on oneMebibyteKept.program).1 = .ok id := by
  have r := run_oneMebibyteKept
  have hbytes : Image.bytes? ⟨.scalar .uint8, 1, [2 ^ 20]⟩ = some (2 ^ 20) := by decide
  refine ⟨r, r.inService (by simp) (by decide), hbytes, fun l hl => ?_, ?_⟩
  · cases hl
    decide
  · rw [(r.accounted fun _ _ => id).texture_admits hbytes fun _ => by decide]
    intro hadmits
    exact absurd (hadmits (2 ^ 20) (by decide)) (by decide +kernel)

end Run

end FieldCompute
