import FieldCompute.Proofs.Program.Admission
import FieldCompute.Proofs.Program.Finalizing
/-!
# Demands on the memory

What arrays and trees a program has, and how many bytes each takes, decides together with the limit
of the device what becomes of every request for arrays and trees (`Program.Stands.meets`). What the
pool keeps and which allocations serve the requests does not matter. A limit that is no smaller
therefore lets through whatever the smaller one does (`Program.larger_limit_serves`). The settings
give the limit in MiB, though, and of a large number of these the highest bits are lost.
-/

namespace FieldCompute

open Routine

/-- A request for an array or a tree, or that one may go. -/
inductive MemoryRequest where
  | createNdarray (dtype : DType) (shape : List Nat) (layout : ArrayLayout) (zero : Bool)
  | deleteNdarray (ndarray : Nat)
  | addTree (root : Node) (compileOnly : Bool)
  | destroyTree (tree : Nat)

namespace MemoryRequest

def command : MemoryRequest → Command
  | createNdarray dtype shape layout zero => .createNdarray dtype shape layout zero
  | deleteNdarray ndarray => .deleteNdarray ndarray
  | addTree root compileOnly => .addTree root compileOnly
  | destroyTree tree => .destroyTree tree

/-- The request, which answers the id of what it makes. -/
def op : MemoryRequest → Op (Option Nat)
  | createNdarray dtype shape layout zero => some <$> Program.createNdarray dtype shape layout zero
  | deleteNdarray ndarray => (fun _ => none) <$> Program.deleteNdarray ndarray
  | addTree root compileOnly => some <$> Program.addTree root compileOnly
  | destroyTree tree => (fun _ => none) <$> Program.destroyTree tree

/-- How much memory the request needs, if that is a number. -/
def size? : MemoryRequest → Option Nat
  | createNdarray dtype shape _ _ => dtype.arrayBytes? shape
  | addTree root false => (Packing.ofTree? root).map (·.size)
  | _ => some 0

/-- A host that reserves so many bytes at once can reserve the memory. -/
def Reservable (reservable : Nat) (r : MemoryRequest) : Prop := ∀ size ∈ r.size?, size ≤ reservable

instance (reservable : Nat) (r : MemoryRequest) : Decidable (r.Reservable reservable) :=
  inferInstanceAs (Decidable (∀ size ∈ r.size?, size ≤ reservable))

end MemoryRequest

/-! ## Without a pool -/

/-- The trees, the bytes that each tree and each array takes, and the id of the next array. -/
structure Demand where
  trees : Registry
  storage : Table Nat Nat
  ndarrays : Table Nat Nat
  nextNdarray : Nat

namespace Demand

/-- The bytes that are in use. -/
def bytes (d : Demand) : Nat := d.storage.values.sum + d.ndarrays.values.sum

/-- There is room for more bytes under the limit. -/
def admits (limit : Option Nat) (d : Demand) (size : Nat) : Bool :=
  limit.all fun l => d.bytes + size ≤ l

/-- What a request answers and makes of the demand; nothing if it is refused. -/
def meet (limit : Option Nat) (d : Demand) : MemoryRequest → Option (Option Nat × Demand)
  | .createNdarray dtype shape _ _ => do
    let size ← dtype.arrayBytes? shape
    if d.admits limit size then
      return (some d.nextNdarray,
        { d with ndarrays := d.ndarrays.insert d.nextNdarray size, nextNdarray := d.nextNdarray + 1 })
    else none
  | .deleteNdarray ndarray =>
    if d.ndarrays.contains ndarray then
      return (none, { d with ndarrays := d.ndarrays.erase ndarray })
    else none
  | .addTree root true => return (some d.trees.next, { d with trees := (d.trees.add root true).2 })
  | .addTree root false => do
    let packing ← Packing.ofTree? root
    if d.admits limit packing.size then
      return (some d.trees.next,
        { d with
          trees := (d.trees.add root false).2
          storage := d.storage.insert d.trees.next packing.size })
    else none
  | .destroyTree tree => do
    let t ← d.trees.get? tree
    return (none,
      { d with
        trees := (d.trees.remove tree).2
        storage := if t.compileOnly then d.storage else d.storage.erase tree })

/-- A limit that is no smaller admits no less. -/
theorem meet_mono {l l' : Nat} (hl : l ≤ l') {d : Demand} {r : MemoryRequest}
    {x : Option Nat × Demand} (h : d.meet (some l) r = some x) : d.meet (some l') r = some x := by
  have hadmits {size : Nat} (ha : d.admits (some l) size = true) :
      d.admits (some l') size = true := by
    simp only [admits, Option.all_some, decide_eq_true_eq] at ha ⊢
    omega
  cases r with
  | createNdarray dtype shape layout zero =>
    rw [meet, Option.bind_eq_bind, Option.bind_eq_some_iff] at h ⊢
    obtain ⟨size, hs, h⟩ := h
    refine ⟨size, hs, ?_⟩
    split at h
    · rwa [if_pos (hadmits ‹_›)]
    · cases h
  | deleteNdarray ndarray => exact h
  | addTree root compileOnly =>
    cases compileOnly with
    | true => exact h
    | false =>
      rw [meet, Option.bind_eq_bind, Option.bind_eq_some_iff] at h ⊢
      obtain ⟨packing, hpack, h⟩ := h
      refine ⟨packing, hpack, ?_⟩
      split at h
      · rwa [if_pos (hadmits ‹_›)]
      · cases h
  | destroyTree tree => exact h

end Demand

/-! ## With a pool -/

namespace Program

variable {p q : Program} {limit : Option Nat} {reservable : Nat} {r : MemoryRequest} {size : Nat}

/-- What the program has. -/
def demand (p : Program) : Demand where
  trees := p.trees
  storage := p.engine.storage.mapValues (·.allocation.size)
  ndarrays := p.ndarrays.mapValues (·.allocation.size)
  nextNdarray := p.nextNdarray

/-- The program has only trees and arrays, and a pool on a device of this limit and this host. -/
structure Stands (limit : Option Nat) (reservable : Nat) (p : Program) : Prop where
  run : ∃ cs, Run World.Honest ⟨p, []⟩ cs ∧ .poolTerminate ∉ cs
  running : p.finalized = false
  textures : p.textures = []
  limit : p.device.limit = limit
  reservable : p.device.reservable = reservable

namespace Stands

theorem hosted (h : Stands limit reservable p) : p.Hosted := by
  obtain ⟨cs, r, -⟩ := h.run
  exact r.hosted

theorem accounted (h : Stands limit reservable p) : World.Accounted ⟨p, []⟩ := by
  obtain ⟨cs, r, -⟩ := h.run
  exact r.accounted fun _ _ => id

theorem inService (h : Stands limit reservable p) : World.InService ⟨p, []⟩ := by
  obtain ⟨cs, r, ht⟩ := h.run
  exact r.inService ht h.running

theorem ledger (h : Stands limit reservable p) : p.pool.Ledger p.owned := by
  have hledger := h.accounted.ledger
  rwa [List.append_nil] at hledger

theorem bytes (h : Stands limit reservable p) : World.inUse ⟨p, []⟩ = p.demand.bytes := by
  simp only [World.inUse, owned, h.textures, Demand.bytes, demand, Table.values_mapValues,
    List.map_append, List.sum_append, List.map_map, List.append_nil, List.map_nil]
  rfl

/-- Memory that the host can reserve is given where the limit has room for it. -/
theorem admits (h : Stands limit reservable p) (zero : Bool) (hr : size ≤ reservable) :
    (∃ a, ((Pool.allocate size zero).on p.pool).1 = .ok a) ↔ p.demand.admits limit size = true := by
  obtain ⟨cs, r, -⟩ := h.run
  have hservice := h.inService
  have hroom : p.demand.admits limit size = true ↔
      World.Admits ⟨p, []⟩ (World.inUse ⟨p, []⟩) size := by
    rw [Demand.admits, ← h.limit, World.Admits, h.bytes, Option.all_eq_true]
    simp
  have hiff := h.accounted.pool_admits r.orderly zero fun _ => h.reservable.symm ▸ hr
  rw [hroom]
  exact ⟨fun ha => (hiff.1 ⟨hservice.1, ha⟩).2, fun ha => (hiff.2 ⟨hservice, ha⟩).2⟩

theorem step (h : Stands limit reservable p) (hf : (r.op.on p).2.finalized = p.finalized)
    (ht : (r.op.on p).2.textures = p.textures)
    (hs : p.pool.Serving (r.op.on p).2.pool) : Stands limit reservable (r.op.on p).2 := by
  obtain ⟨cs, run, hpool⟩ := h.run
  have hstep : World.step ⟨p, []⟩ r.command = ⟨(r.op.on p).2, []⟩ := by
    cases r <;> (rw [MemoryRequest.op, on_map]; exact World.step_of_quietly rfl rfl)
  have hnext := run.step r.command (by cases r <;> trivial)
  rw [hstep] at hnext
  refine ⟨⟨_, hnext, ?_⟩, hf.trans h.running, ht.trans h.textures, hs.device.limit.trans h.limit,
    hs.device.reservable.trans h.reservable⟩
  rw [List.mem_append]
  rintro (hm | hm)
  · exact hpool hm
  · cases r <;> cases List.mem_singleton.1 hm

end Stands

/-- What a request comes to, told by what the program has. -/
inductive Met (limit : Option Nat) (p : Program) (r : MemoryRequest) :
    Except Failure (Option Nat) × Program → Prop
  | granted {a : Option Nat} {q : Program} (hm : p.demand.meet limit r = some (a, q.demand))
      (hf : q.finalized = p.finalized) (ht : q.textures = p.textures)
      (hs : p.pool.Serving q.pool) : Met limit p r (.ok a, q)
  | refused {e : Failure} {q : Program} (hm : p.demand.meet limit r = none) :
    Met limit p r (.error e, q)

theorem createNdarray_met (h : Stands limit reservable p) (dtype : DType) (shape : List Nat)
    (layout : ArrayLayout) (zero : Bool)
    (hr : (MemoryRequest.createNdarray dtype shape layout zero).Reservable reservable) :
    Met limit p (.createNdarray dtype shape layout zero)
      ((MemoryRequest.createNdarray dtype shape layout zero).op.on p) := by
  rw [MemoryRequest.op, on_map]
  cases hsize : dtype.arrayBytes? shape with
  | none =>
    simp only [createNdarray, hsize, on_throw]
    exact .refused (by rw [Demand.meet, hsize]; rfl)
  | some size =>
    have hadmits := h.admits zero (hr size hsize)
    have hsupplied := h.ledger.allocate size zero
    have hserving := Pool.allocate_serving size zero p.pool
    rw [createNdarray_on hsize, if_pos h.inService.1]
    generalize (Pool.allocate size zero).on p.pool = x at hadmits hsupplied hserving ⊢
    obtain ⟨e | a, pool⟩ := x
    · refine .refused ?_
      have hfull : p.demand.admits limit size = false := by simpa using hadmits
      rw [Demand.meet, hsize, Option.bind_eq_bind, Option.bind_some, hfull]
      rfl
    · have hroom : p.demand.admits limit size = true := hadmits.1 ⟨a, rfl⟩
      cases hsupplied with
      | granted _ hs _ =>
        refine .granted ?_ rfl rfl hserving
        rw [Demand.meet, hsize, Option.bind_eq_bind, Option.bind_some, if_pos hroom, ← hs, demand,
          demand]
        simp only [withPool, withNdarray, withEngine, Table.insert_mapValues]
        rfl

/-- What is out of the pool can go back to it. -/
theorem Stands.release (h : Stands limit reservable p) {a : Allocation} {out : List Allocation}
    (hout : p.owned.Perm ([a] ++ out)) (storage : Table Nat Storage) :
    ∃ pool, (Engine.releaseNdarray a).on { p.engine with storage } =
      (.ok (), { p.engine with storage, pool }) ∧ p.pool.Serving pool := by
  obtain ⟨pool, hr, -⟩ := (h.ledger.perm hout.symm).release
  refine ⟨pool, ?_, (Pool.release_serving a).ends hr⟩
  have hr : (Pool.release a).on p.engine.pool = (.ok (), pool) := hr
  rw [Engine.releaseNdarray, throughPool_on, if_pos h.inService.1, onPool_on, hr]
  rfl

theorem deleteNdarray_met (h : Stands limit reservable p) (id : Nat) :
    Met limit p (.deleteNdarray id) ((MemoryRequest.deleteNdarray id).op.on p) := by
  rw [MemoryRequest.op, on_map, deleteNdarray_on h.hosted]
  have hcontains : p.demand.ndarrays.contains id = (p.ndarrays.find? id).isSome := by
    rw [demand, Table.contains_mapValues, Table.contains_eq_isSome]
  cases ha : p.ndarrays.find? id with
  | none => exact .refused (by rw [Demand.meet, hcontains, ha]; rfl)
  | some a =>
    obtain ⟨pool, hon, hserving⟩ :=
      h.release (owned_ndarrayGone h.accounted.ndarrays ha) p.engine.storage
    simp only [hon]
    refine .granted ?_ rfl rfl hserving
    rw [Demand.meet, hcontains, ha]
    simp only [Option.isSome_some, if_true, demand, withEngine, Table.erase_mapValues]
    rfl

theorem addTree_met (h : Stands limit reservable p) (root : Node) (compileOnly : Bool)
    (hr : (MemoryRequest.addTree root compileOnly).Reservable reservable) :
    Met limit p (.addTree root compileOnly)
      ((MemoryRequest.addTree root compileOnly).op.on p) := by
  rw [MemoryRequest.op, on_map, addTree_on, Registry.add_fst]
  cases compileOnly with
  | true => exact .granted rfl rfl rfl (Std.Refl.refl p.pool)
  | false =>
    have hgiven := materialized p.engine ⟨p.trees.next, root, false⟩
    simp only [Bool.false_eq_true, if_false, h.hosted.refusal?]
    generalize (Engine.materialize ⟨p.trees.next, root, false⟩).on p.engine = x at hgiven ⊢
    cases hgiven with
    | idle hnone =>
      have hpack : Packing.ofTree? root = none := hnone h.inService.1
      exact .refused (by rw [Demand.meet, hpack]; rfl)
    | @refused f packing d pool _ hpack hd =>
      have hpack : Packing.ofTree? root = some packing := hpack
      have hadmits := h.admits true (hr packing.size (by rw [MemoryRequest.size?, hpack]; rfl))
      have hd : (Pool.allocate packing.size true).on p.pool = (.error d, pool) := hd
      have hfull : p.demand.admits limit packing.size = false := by
        rw [hd] at hadmits
        simpa using hadmits
      refine .refused ?_
      rw [Demand.meet, hpack, Option.bind_eq_bind, Option.bind_some, hfull]
      rfl
    | @kept s pool _ hpack ha =>
      have hpack : Packing.ofTree? root = some s.packing := hpack
      have hadmits := h.admits true (hr s.packing.size (by rw [MemoryRequest.size?, hpack]; rfl))
      have ha : (Pool.allocate s.packing.size true).on p.pool = (.ok s.allocation, pool) := ha
      have hsupplied := h.ledger.allocate s.packing.size true
      have hroom : p.demand.admits limit s.packing.size = true := hadmits.1 ⟨_, by rw [ha]⟩
      rw [ha] at hsupplied
      cases hsupplied with
      | granted _ hs _ =>
        refine .granted ?_ rfl rfl ((Pool.allocate_serving s.packing.size true).ends ha)
        rw [Demand.meet, hpack, Option.bind_eq_bind, Option.bind_some, if_pos hroom, ← hs]
        simp only [demand, registered, withEngine, engine, Table.insert_mapValues]
        rfl

theorem destroyTree_met (h : Stands limit reservable p) (id : Nat) :
    Met limit p (.destroyTree id) ((MemoryRequest.destroyTree id).op.on p) := by
  rw [MemoryRequest.op, on_map, destroyTree_on]
  cases ht : p.trees.get? id with
  | none => exact .refused (by rw [Demand.meet, demand, ht]; rfl)
  | some t =>
    have hmeet : p.demand.meet limit (.destroyTree id) = some (none, { p.demand with
        trees := (p.trees.remove id).2
        storage := if t.compileOnly then p.demand.storage else p.demand.storage.erase id }) := by
      rw [Demand.meet, demand, ht]
      rfl
    cases hc : t.compileOnly with
    | true =>
      rw [hc] at hmeet
      simp only [hc, if_true]
      exact .granted hmeet rfl rfl (Std.Refl.refl p.pool)
    | false =>
      rw [hc] at hmeet
      simp only [hc, Bool.false_eq_true, if_false, h.hosted.refusal?, destroy_on] at hmeet ⊢
      rw [demand] at hmeet
      simp only [← Table.erase_mapValues] at hmeet
      cases hs : p.engine.storage.find? id with
      | none =>
        rw [Table.erase_eq_self hs] at hmeet
        exact .granted hmeet rfl rfl (Std.Refl.refl p.pool)
      | some s =>
        obtain ⟨pool, hon, hserving⟩ :=
          h.release (owned_storageGone h.accounted.storage hs) (p.engine.storage.erase id)
        simp only [hon]
        exact .granted hmeet rfl rfl hserving

/-- What becomes of a request depends on nothing but the demand and the limit. -/
theorem Stands.meets (h : Stands limit reservable p) (hr : r.Reservable reservable) :
    Met limit p r (r.op.on p) := by
  cases r with
  | createNdarray dtype shape layout zero => exact createNdarray_met h dtype shape layout zero hr
  | deleteNdarray ndarray => exact deleteNdarray_met h ndarray
  | addTree root compileOnly => exact addTree_met h root compileOnly hr
  | destroyTree tree => exact destroyTree_met h tree

/-! ## Two limits -/

/-- What requests answer, one after the other. -/
def replies (p : Program) : List MemoryRequest → List (Except Failure (Option Nat))
  | [] => []
  | r :: rs => (r.op.on p).1 :: replies (r.op.on p).2 rs

/-- A program with the same demand and a limit that is no smaller does as well. -/
theorem Stands.replies_eq {l l' : Nat} (hl : l ≤ l') (h : Stands (some l) reservable p)
    (h' : Stands (some l') reservable q) (hd : q.demand = p.demand) {rs : List MemoryRequest}
    (hr : ∀ r ∈ rs, r.Reservable reservable) (hok : ∀ a ∈ p.replies rs, a.isOk = true) :
    q.replies rs = p.replies rs := by
  induction rs generalizing p q with
  | nil => rfl
  | cons r rs ih =>
    rw [replies, List.forall_mem_cons] at hok
    rw [List.forall_mem_cons] at hr
    have hmet := h.meets hr.1
    have hmet' := h'.meets hr.1
    have hstep := h.step (r := r)
    have hstep' := h'.step (r := r)
    rw [replies, replies]
    generalize r.op.on p = x at hok hmet hstep ⊢
    generalize r.op.on q = x' at hmet' hstep' ⊢
    cases hmet with
    | refused => cases hok.1
    | granted hm hf ht hs =>
      have hm' := Demand.meet_mono hl hm
      rw [← hd] at hm'
      cases hmet' with
      | refused hnone => rw [hnone] at hm'; cases hm'
      | granted hm'' hf' ht' hs' =>
        obtain ⟨rfl, hd'⟩ := Prod.mk.inj (Option.some.inj (hm''.symm.trans hm'))
        rw [ih (hstep hf ht hs) (hstep' hf' ht' hs') hd' hr.2 hok.2]

theorem stands_create {thread : Thread} {c : Config}
    (h : create thread c (.host c reservable) = .ok p) :
    Stands c.memoryLimit? reservable p ∧ p.demand = ⟨.empty, .empty, .empty, 0⟩ := by
  have hrun : Run World.Honest ⟨p, []⟩ [] := .start h
  cases h
  exact ⟨⟨⟨[], hrun, List.not_mem_nil⟩, rfl, rfl, rfl, rfl⟩, rfl⟩

/-- The limit in bytes has lost what a 64-bit number cannot hold. -/
theorem memoryLimit?_eq (c : Config) {m : Nat} (h : m ≠ 0) :
    ({ c with deviceMemoryMb := m } : Config).memoryLimit? = some (m % 2 ^ 44 * 2 ^ 20) := by
  have hsplit : 2 ^ 64 = 2 ^ 44 * 2 ^ 20 := by decide
  rw [Config.memoryLimit?, if_neg h, hsplit, Nat.mul_mod_mul_right]

/-- Of two programs on one host whose settings differ in the memory limit only, one whose limit is no
smaller serves all requests for arrays and trees that the other one serves, with the same ids. What
counts is the limit without the bits that are lost, from `2 ^ 44` MiB on. So up to there, a larger
setting never admits less. -/
theorem larger_limit_serves (thread : Thread) (c : Config) {m m' : Nat} (h : m ≠ 0) (h' : m' ≠ 0)
    (hle : m % 2 ^ 44 ≤ m' % 2 ^ 44) {p p' : Program}
    (hp : create thread { c with deviceMemoryMb := m }
      (.host { c with deviceMemoryMb := m } reservable) = .ok p)
    (hp' : create thread { c with deviceMemoryMb := m' }
      (.host { c with deviceMemoryMb := m' } reservable) = .ok p')
    {requests : List MemoryRequest} (hr : ∀ r ∈ requests, r.Reservable reservable)
    (hok : ∀ a ∈ p.replies requests, a.isOk = true) :
    p'.replies requests = p.replies requests := by
  obtain ⟨hs, hd⟩ := stands_create hp
  obtain ⟨hs', hd'⟩ := stands_create hp'
  rw [memoryLimit?_eq c h] at hs
  rw [memoryLimit?_eq c h'] at hs'
  exact hs.replies_eq (Nat.mul_le_mul_right _ hle) hs' (hd'.trans hd.symm) hr hok

/-- One and two MiB. An array that goes makes room for another one, and a tree comes and goes. -/
theorem larger_limit_serves_two : ∃ p p' : Program,
    create 0 { deviceMemoryMb := 1 } (.host { deviceMemoryMb := 1 }) = .ok p ∧
    create 0 { deviceMemoryMb := 2 } (.host { deviceMemoryMb := 2 }) = .ok p' ∧
    let requests : List MemoryRequest :=
      [.createNdarray (.scalar .uint8) [64] .aos false, .deleteNdarray 0,
        .addTree (.mk 0 .root [] [.mk 1 (.place "x" .int32) [] []]) false, .destroyTree 0,
        .createNdarray (.scalar .int32) [16] .aos true]
    (∀ r ∈ requests, r.Reservable Device.defaultReservable) ∧
      (∀ a ∈ p.replies requests, a.isOk = true) ∧
      p'.replies requests = p.replies requests := by
  refine ⟨_, _, rfl, rfl, ?_⟩
  intro requests
  have hr : ∀ r ∈ requests, r.Reservable Device.defaultReservable := by decide
  refine ⟨hr, ?hok, larger_limit_serves 0 {} (by decide) (by decide) (by decide) rfl rfl hr ?hok⟩
  decide

/-- With `2 ^ 44` MiB there is no room for 16 bytes. -/
theorem lost_limit_refuses : ∃ p p' : Program,
    1 ≤ 2 ^ 44 ∧
    create 0 { deviceMemoryMb := 1 } (.host { deviceMemoryMb := 1 }) = .ok p ∧
    create 0 { deviceMemoryMb := 2 ^ 44 } (.host { deviceMemoryMb := 2 ^ 44 }) = .ok p' ∧
    let requests : List MemoryRequest := [.createNdarray (.scalar .int32) [4] .aos true]
    (p.replies requests).map Except.isOk = [true] ∧
      (p'.replies requests).map Except.isOk = [false] := by
  refine ⟨_, _, by decide, rfl, rfl, ?_⟩
  intro requests
  refine ⟨?_, ?_⟩
  all_goals decide

end Program

end FieldCompute
