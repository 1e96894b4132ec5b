import FieldCompute.Proofs.Launch.Footprint
import FieldCompute.Proofs.Program.Catalogue
import FieldCompute.Proofs.Program.FieldStorage
/-!
# What a launch can reach

Whatever comes of it, a launch changes no memory but bytes of elements of places that the kernel
stores to, and no slot but those that the kernel returns results in (`Run.launch_footprint`). The
elements of other places are apart from those bytes, and so is all memory that is not storage of a
tree, since every allocation has one owner.
-/

namespace FieldCompute

open Routine Program Device

namespace Program

variable {p : Program} {k : Kernel} {code : Code} {args : List Value} {places : List NodeId}
  {id i : Nat}

/-- The byte at position `i` of the allocation belongs to an element of one of the places. -/
def Covers (p : Program) (places : List NodeId) (id i : Nat) : Prop :=
  ∃ s f indices x, p.Element s f indices x ∧ f.place.id ∈ places ∧ s.allocation.id = id ∧
    x ≤ i ∧ i < x + f.place.scalar.bytes

theorem Covers.mono {more : List NodeId} (h : p.Covers places id i) (hsub : places ⊆ more) :
    p.Covers more id i := by
  obtain ⟨s, f, indices, x, e, hplace, hin⟩ := h
  exact ⟨s, f, indices, x, e, hsub hplace, hin⟩

/-- What is located are elements. -/
theorem Linked.covers (hl : p.Linked) (h : (p.engine.launchOf code args).Locates places id i) :
    p.Covers places id i := by
  obtain ⟨place, indices, scalar, q, hplace, hlocate, rfl, hfrom, hto⟩ := h
  obtain ⟨s, f, x, e, rfl, rfl, rfl⟩ := Element.of_locate hl hlocate
  exact ⟨s, f, indices, x, e, hplace, rfl, hfrom, hto⟩

/-- However it ends, a run of code changes bytes of elements of the places that it stores to. -/
theorem Linked.run_covers (hl : p.Linked) (code : Code) (args : List Value) (slots : ResultSlots)
    (hne : ((p.engine.launchOf code args).run ⟨p.device, slots⟩).2.device.byte? id i ≠
      p.device.byte? id i) :
    p.Covers code.body.targets id i :=
  hl.covers ((Launch.run_confined _ ⟨p.device, slots⟩).byte hne)

/-- What a launch does not come near. -/
theorem LaunchOutcome.untouched {x : Except Failure Unit × Program} (h : LaunchOutcome p k args x) :
    x.2.trees = p.trees ∧ x.2.ndarrays = p.ndarrays ∧ x.2.textures = p.textures := by
  cases h with
  | miscounted _ => exact ⟨rfl, rfl, rfl⟩
  | defective _ hq => exact ⟨hq.trees, hq.ndarrays, hq.textures⟩
  | ran _ _ hq ht =>
    rw [runCode_on] at ht
    exact ⟨ht.trees.trans hq.trees, ht.ndarrays.trans hq.ndarrays, ht.textures.trans hq.textures⟩

end Program

/-! ## What differs after a launch -/

/-- All allocations but the storage of trees. -/
def World.besides (w : World) : List Allocation :=
  w.program.ndarrays.values.map (·.allocation) ++
    (w.program.textures.map (·.allocation) ++ (w.held ++ w.program.pool.cachedAllocations))

theorem World.allocations_eq (w : World) :
    w.allocations = w.program.engine.storage.values.map (·.allocation) ++ w.besides := by
  simp only [allocations, owned, besides, List.append_assoc]

/-- The program `q` differs from that of the world in no memory and no result slot but what the
kernel names: bytes of elements of the places that it stores to, and its result slots. -/
structure World.Spares (w : World) (k : Kernel) (q : Program) : Prop where
  byte {id i : Nat} : q.device.byte? id i ≠ w.program.device.byte? id i →
    w.program.Covers k.body.targets id i
  slot {slot : Nat} : q.slots.load slot ≠ w.program.slots.load slot → slot ∈ k.body.slots
  /-- The other fields read as before. -/
  field {s : Storage} {f : FieldSlot} {indices : List Int} {x : Nat} :
    w.program.Element s f indices x → f.place.id ∉ k.body.targets →
    q.device.read ⟨s.allocation, x⟩ f.place.scalar.bytes =
      w.program.device.read ⟨s.allocation, x⟩ f.place.scalar.bytes
  besides : Keeps w.besides w.program.device q.device
  rewritten : w.program.device.Rewritten q.device
  storage : q.engine.storage = w.program.engine.storage
  trees : q.trees = w.program.trees
  ndarrays : q.ndarrays = w.program.ndarrays
  textures : q.textures = w.program.textures

namespace World.Accounted

variable {w : World} {k : Kernel} {code : Code} {args : List Value} {places : List NodeId}
  {d : Device}

/-- No byte outside the storage of trees belongs to an element. -/
theorem not_covers (h : w.Accounted) {a : Allocation} (ha : a ∈ w.besides) (i : Nat) :
    ¬w.program.Covers places a.id i := by
  rintro ⟨s, f, indices, x, e, -, hid, -⟩
  obtain ⟨tree, hs⟩ := e.storage
  have hdistinct : (w.allocations.map (·.id)).Nodup := h.ledger.holds.distinct
  rw [w.allocations_eq, List.map_append] at hdistinct
  obtain ⟨-, -, hdisjoint⟩ := List.nodup_append'.1 hdistinct
  have hstored : s.allocation ∈ w.program.engine.storage.values.map (·.allocation) :=
    List.mem_map.2 ⟨s, Table.mem_values_of_find? hs, rfl⟩
  refine hdisjoint (List.mem_map.2 ⟨_, hstored, hid⟩) ?_
  exact List.mem_map.2 ⟨a, ha, rfl⟩

/-- If bytes of elements are all that differs, the rest of the memory is as before. -/
theorem besides (h : w.Accounted) (hr : w.program.device.Rewritten d)
    (hb : ∀ {id i}, d.byte? id i ≠ w.program.device.byte? id i → w.program.Covers places id i) :
    Keeps w.besides w.program.device d := by
  intro a ha
  refine hr.find?_eq fun i => ?_
  by_contra hne
  exact h.not_covers ha i (hb hne)

/-- So are the elements of other places. -/
theorem field (h : w.Accounted) (hr : w.program.device.Rewritten d)
    (hb : ∀ {id i}, d.byte? id i ≠ w.program.device.byte? id i → w.program.Covers places id i)
    {s : Storage} {f : FieldSlot} {indices : List Int} {x : Nat}
    (e : w.program.Element s f indices x) (hf : f.place.id ∉ places) :
    d.read ⟨s.allocation, x⟩ f.place.scalar.bytes =
      w.program.device.read ⟨s.allocation, x⟩ f.place.scalar.bytes := by
  refine hr.read_eq fun i hfrom hto => ?_
  by_contra hne
  obtain ⟨s', f', indices', x', e', hf', hid, hfrom', hto'⟩ := hb hne
  have hplaces : f.place.id = f'.place.id → indices ≠ indices' :=
    fun hsame => absurd (hsame ▸ hf') hf
  have hapart := e.apart h e' hplaces hid.symm
  simp only at hfrom hto
  omega

theorem spares_launch (h : w.Accounted) (hl : w.program.Linked) (hc : w.program.Catalogued)
    {id : Nat} (hk : w.program.kernels.find? id = some k) {x : Except Failure Unit × Program}
    (hx : LaunchOutcome w.program k args x) : w.Spares k x.2 := by
  obtain ⟨htrees, hndarrays, htextures⟩ := hx.untouched
  obtain ⟨hr, hs, hbyte, hslot⟩ : w.program.device.Rewritten x.2.device ∧
      x.2.engine.storage = w.program.engine.storage ∧
      (∀ {id i}, x.2.device.byte? id i ≠ w.program.device.byte? id i →
        w.program.Covers k.body.targets id i) ∧
      ∀ {slot}, x.2.slots.load slot ≠ w.program.slots.load slot → slot ∈ k.body.slots := by
    cases hx with
    | miscounted _ => exact ⟨.refl _, rfl, fun h => absurd rfl h, fun h => absurd rfl h⟩
    | @defective q _ _ _ hq =>
      have he : q.engine = w.program.engine := congrArg Backend.engine hq.backend
      have hd : q.device = w.program.device := congrArg Engine.device he
      simp only [hd, he, hq.slots]
      exact ⟨.refl _, trivial, fun h => absurd rfl h, fun h => absurd rfl h⟩
    | @ran q t code _ hruns hq ht =>
      have hran := runCode_ran hq ht
      obtain ⟨-, hd, hslots, -⟩ := hran.run rfl
      obtain ⟨-, optimize, hlower⟩ := hc.makes hk hruns
      have hconfined := Launch.run_confined (w.program.engine.launchOf code args)
        ⟨w.program.device, w.program.slots⟩
      rw [hd, hslots]
      refine ⟨Launch.run_rewritten _ ⟨w.program.device, w.program.slots⟩, hran.storage, ?_, ?_⟩
      · intro id i hne
        exact (hl.run_covers code args _ hne).mono (Kernel.targets_of_lower hlower)
      · intro slot hne
        exact Kernel.slots_of_lower hlower (hconfined.slot hne)
  exact ⟨hbyte, hslot, fun e hf => h.field hr hbyte e hf, h.besides hr hbyte, hr, hs, htrees,
    hndarrays, htextures⟩

end World.Accounted

/-- In every state that a run of honest callers comes to, launching a kernel of the program, with
whatever arguments and whatever comes of it, changes no bytes but those of elements of places that
the kernel stores to, and no slots but those that it returns results in. The other fields, arrays,
textures, what callers hold and what the pool keeps are as before. -/
theorem Run.launch_footprint {w : World} {cs : List Command} (r : Run World.Honest w cs) {id : Nat}
    {k : Kernel} (hk : w.program.kernels.find? id = some k) (thread : Thread) (args : List Value) :
    w.Spares k ((launch thread id args).on w.program).2 := by
  obtain ⟨hhosted, hcatalogued⟩ := r.catalogued
  have hx := launch_outcome hhosted hk thread args
  exact (r.accounted fun _ _ hc => hc).spares_launch r.linked hcatalogued hk hx

/-- Two numbers and one more in a tree. -/
def twoFields : Node :=
  .mk 0 .root [] [.mk 1 (.dense [2]) [2] [.mk 2 (.place "x" .int8) [2] []],
    .mk 3 (.place "y" .int32) [] []]

/-- A program with these fields, an array and a kernel that returns a number, writes it to the second
element of `x` and then past the end of `x`, before it would come to `y`. -/
def stoppedMidway : World :=
  ((World.fresh.step (.addTree twoFields false)).step
    (.createNdarray (.scalar .int32) [3] .aos true)).step
      (.createKernel "stopped" .off [.arg (.scalar .int8), .emit (.const (.int 1) (.scalar .int32)),
        .emit (.const (.int 2) (.scalar .int32)), .ret 0, .emit (.store 2 [1] 0),
        .emit (.store 2 [2] 0), .emit (.store 3 [] 0)])

/-- The launch fails after it has changed an element and a slot, and nothing else has changed. -/
theorem Run.launch_footprint_stopped : ∃ cs k, Run World.Honest stoppedMidway cs ∧
    stoppedMidway.program.kernels.find? 0 = some k ∧
    let x := (launch 0 0 [.int 7]).on stoppedMidway.program
    x.1 = .error (.error (.outOfBounds "stopped" 2 [2] [2])) ∧
    (stoppedMidway.program.device.byte? 0 1, x.2.device.byte? 0 1) = (some 0, some 7) ∧
    x.2.slots.load 0 = .ok 7 ∧ stoppedMidway.Spares k x.2 := by
  have tree : Run World.Honest _ _ := .once (c := .addTree twoFields false) trivial
  have array := tree.step (.createNdarray (.scalar .int32) [3] .aos true) trivial
  have r : Run World.Honest stoppedMidway _ := array.step (.createKernel ..) trivial
  obtain ⟨k, hk⟩ : ∃ k, stoppedMidway.program.kernels.find? 0 = some k := ⟨_, rfl⟩
  exact ⟨_, k, r, hk, by decide +kernel, by decide +kernel, by decide +kernel,
    r.launch_footprint hk 0 [.int 7]⟩

end FieldCompute
