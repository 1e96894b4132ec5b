import FieldCompute.Proofs.Device.Contents
import FieldCompute.Proofs.Launch.Lowering
import FieldCompute.Proofs.Launch.Steps
/-!
# What a run can reach

A run, finished or not, changes no more than its body names: bytes of elements that it locates for
the places of its stores, and the slots of its results (`run_confined`). Lowering a body adds no
names (`Kernel.targets_of_lower`, `Kernel.slots_of_lower`).
-/

namespace FieldCompute

/-! ## What a body names -/

/-- The place that the statement stores to. -/
def Stmt.target? : Stmt → Option NodeId
  | store place _ _ => some place
  | _ => none

/-- The slot that the statement returns a result in. -/
def Stmt.slot? : Stmt → Option Nat
  | ret slot _ => some slot
  | _ => none

namespace Block

/-- The places that the body stores to. -/
def targets (b : Block) : List NodeId := b.filterMap Stmt.target?

/-- The slots that the body returns results in. -/
def slots (b : Block) : List Nat := b.filterMap Stmt.slot?

end Block

namespace Kernel

variable {k : Kernel} {optimize : Bool} {body : Block} {α : Type}

/-- Lowering adds nothing that does not depend on operands. -/
theorem filterMap_of_lower (h : k.lower optimize = .ok body) {f : Stmt → Option α}
    (hf : ∀ s renumber, f (s.mapOperands renumber) = f s) :
    body.filterMap f ⊆ k.body.filterMap f := by
  intro x hx
  obtain ⟨s, hs, hfs⟩ := List.mem_filterMap.1 hx
  obtain ⟨t, ht, renumber, rfl⟩ := mem_of_lower h hs
  exact List.mem_filterMap.2 ⟨t, ht, hf t renumber ▸ hfs⟩

theorem targets_of_lower (h : k.lower optimize = .ok body) : body.targets ⊆ k.body.targets :=
  filterMap_of_lower h fun s _ => by cases s <;> rfl

theorem slots_of_lower (h : k.lower optimize = .ok body) : body.slots ⊆ k.body.slots :=
  filterMap_of_lower h fun s _ => by cases s <;> rfl

end Kernel

/-! ## Runs -/

theorem ResultSlots.load_store_of_ne {s s' : ResultSlots} {slot other : Nat} {w : UInt64}
    (h : s.store slot w = .ok s') (hne : other ≠ slot) : s'.load other = s.load other := by
  rw [store] at h
  split at h <;> cases h
  rw [load, load, Vector.getElem?_set_ne _ (Ne.symm hne)]

namespace Launch

variable {l : Launch} {m n o : Machine}

/-- A byte of an element that the launch locates for one of the places. -/
def Locates (l : Launch) (places : List NodeId) (id i : Nat) : Prop :=
  ∃ place indices scalar p, place ∈ places ∧ l.locate place indices = .ok (scalar, p) ∧
    p.allocation.id = id ∧ p.offset ≤ i ∧ i < p.offset + scalar.bytes

/-- The machines differ in nothing but what the body of the launch names. -/
structure Confined (l : Launch) (m n : Machine) : Prop where
  byte {id i : Nat} :
    n.device.byte? id i ≠ m.device.byte? id i → l.Locates l.body.targets id i
  slot {slot : Nat} : n.slots.load slot ≠ m.slots.load slot → slot ∈ l.body.slots

theorem Confined.refl (l : Launch) (m : Machine) : l.Confined m m :=
  ⟨fun h => absurd rfl h, fun h => absurd rfl h⟩

theorem Confined.trans (h : l.Confined m n) (h' : l.Confined n o) : l.Confined m o where
  byte {id i} hne := by
    by_cases hn : n.device.byte? id i = m.device.byte? id i
    · exact h'.byte (hn ▸ hne)
    · exact h.byte hn
  slot {slot} hne := by
    by_cases hn : n.slots.load slot = m.slots.load slot
    · exact h'.slot (hn ▸ hne)
    · exact h.slot hn

/-- A statement reaches what it names. -/
theorem Effect.confined {s : Stmt} (hs : s ∈ l.body) (h : l.Effect m s n) : l.Confined m n := by
  cases h with
  | none => exact .refl l m
  | @written place is value indices scalar p v device hstore hl hw =>
    have hplace : place ∈ l.body.targets := List.mem_filterMap.2 ⟨s, hs, hstore ▸ rfl⟩
    refine ⟨fun {id i} hne => ?_, fun hne => absurd rfl hne⟩
    by_contra hout
    refine hne (Device.byte?_write hw fun hid => ?_)
    rw [Value.length_toBytes]
    by_contra hin
    exact hout ⟨place, indices, scalar, p, hplace, hl, hid.symm, by omega, by omega⟩
  | @returned slot value w slots hret hw =>
    refine ⟨fun hne => absurd rfl hne, fun {other} hne => ?_⟩
    obtain rfl : other = slot := by
      by_contra hother
      exact hne (ResultSlots.load_store_of_ne hw hother)
    exact List.mem_filterMap.2 ⟨s, hs, hret ▸ rfl⟩

/-- A run reaches what its body names, wherever it ends. -/
theorem run_confined (l : Launch) (m : Machine) : l.Confined m (l.run m).2 :=
  run_along (.refl l) .trans (fun _ hs _ _ => Effect.confined hs) m

end Launch

end FieldCompute
