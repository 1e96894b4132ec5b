import FieldCompute.Proofs.Device.PoolRuns
/-!
# The books of a pool

What a pool gave and what it got back, read off the calls of its client. What was given and not
given back since is held (`PoolBook.balance`), so where nothing is held in the end each allocation
went back exactly as often as it was given.
-/

namespace FieldCompute

open Routine

/-- What a device holds is all that is live. -/
theorem Device.Holds.isLive_iff {d : Device} {l : List Allocation} (h : d.Holds l) (id : Nat) :
    d.isLive id = true ↔ id ∈ l.map (·.id) := by
  constructor
  · intro hlive
    rw [Device.isLive, Table.contains_eq_isSome, Option.isSome_iff_exists] at hlive
    obtain ⟨data, hd⟩ := hlive
    obtain ⟨a, ha, hid⟩ := h.only hd
    exact List.mem_map.2 ⟨a, ha, hid⟩
  · intro hm
    obtain ⟨a, ha, rfl⟩ := List.mem_map.1 hm
    exact h.isLive ha

/-- What the call gives back. -/
def PoolCall.released? : PoolCall → Option Allocation
  | release a => some a
  | _ => none

namespace PoolUse

variable {u : PoolUse} {c : PoolCall}

/-- A pool on a fresh device, of which nothing is held. -/
def fresh (limit : Option Nat) (capacity : Nat) (reservable : Nat := Device.defaultReservable) :
    PoolUse :=
  ⟨.create (.create limit reservable) capacity, []⟩

/-- What the pool gives in answer to the call. -/
def granted? (u : PoolUse) : PoolCall → Option Allocation
  | .allocate size zero => ((Pool.allocate size zero).on u.pool).1.toOption
  | _ => none

/-- What the pool gives in answer to calls, one after the other. -/
def granted (u : PoolUse) : List PoolCall → List Allocation
  | [] => []
  | c :: cs => (u.granted? c).toList ++ (u.step c).granted cs

theorem granted_append (u : PoolUse) (cs : List PoolCall) (c : PoolCall) :
    u.granted (cs ++ [c]) = u.granted cs ++ ((cs.foldl step u).granted? c).toList := by
  induction cs generalizing u with
  | nil => simp [granted]
  | cons c' cs ih => simp [granted, ih]

/-- What is held can be given back, and then it is held no more. -/
theorem Settled.step_release (h : u.Settled) {a : Allocation} (ha : a ∈ u.handles) :
    (Pool.release a).on u.pool = (.ok (), (u.step (.release a)).pool) ∧
      (u.step (.release a)).handles = u.handles.erase a := by
  obtain ⟨pool, hr, -⟩ := h.release ha
  rw [PoolUse.step, hr]
  exact ⟨rfl, h.handles_without pool a⟩

/-- What is held after a call is what was held before or given by it, less what it gives back. -/
theorem Settled.balance (h : u.Settled) (hc : u.Fair c) :
    (u.handles ++ (u.granted? c).toList).Perm (c.released?.toList ++ (u.step c).handles) := by
  cases c with
  | allocate size zero =>
    rw [granted?, PoolUse.step]
    cases hr : (Pool.allocate size zero).on u.pool with
    | mk r pool =>
      cases r with
      | ok a => exact List.perm_append_comm
      | error e => exact .of_eq (List.append_nil _)
  | release a =>
    rw [(h.step_release hc).2]
    exact (List.Perm.of_eq (List.append_nil _)).trans (List.perm_cons_erase hc)
  | terminate => exact .of_eq (List.append_nil _)

end PoolUse

theorem PoolRun.eq_foldl {limit : Option Nat} {capacity reservable : Nat} {u : PoolUse}
    {calls : List PoolCall} (r : PoolRun limit capacity reservable u calls) :
    u = calls.foldl PoolUse.step (.fresh limit capacity reservable) := by
  induction r with
  | start => rfl
  | step c _ _ ih => rw [List.foldl_append, ← ih]; rfl

/-- The calls have made a pool on a fresh device what it is. Each release was of something that was
held then, and `out` is held now. -/
def PoolBook (limit : Option Nat) (capacity reservable : Nat) (calls : List PoolCall)
    (pool : Pool) (out : List Allocation) : Prop :=
  ∃ u, PoolRun limit capacity reservable u calls ∧ u.pool = pool ∧ u.handles.Perm out

namespace PoolBook

variable {limit : Option Nat} {capacity reservable : Nat} {calls : List PoolCall} {pool : Pool}
  {out out' : List Allocation} {a : Allocation}

theorem create (limit : Option Nat) (capacity reservable : Nat) :
    PoolBook limit capacity reservable [] (.create (.create limit reservable) capacity) [] :=
  ⟨_, .start, rfl, .refl _⟩

theorem perm (h : PoolBook limit capacity reservable calls pool out) (hp : out.Perm out') :
    PoolBook limit capacity reservable calls pool out' := by
  obtain ⟨u, r, hpool, hout⟩ := h
  exact ⟨u, r, hpool, hout.trans hp⟩

/-- What a pool holds out and what it keeps is all that is live. -/
theorem ledger (h : PoolBook limit capacity reservable calls pool out) : pool.Ledger out := by
  obtain ⟨u, r, rfl, hout⟩ := h
  exact r.settled.ledger.perm hout.symm

theorem allocate (h : PoolBook limit capacity reservable calls pool out) (size : Nat)
    (zero : Bool) :
    (∃ a pool', (Pool.allocate size zero).on pool = (.ok a, pool') ∧
      PoolBook limit capacity reservable (calls ++ [.allocate size zero]) pool' (a :: out)) ∨
    ∃ e pool', (Pool.allocate size zero).on pool = (.error e, pool') ∧
      PoolBook limit capacity reservable (calls ++ [.allocate size zero]) pool' out := by
  obtain ⟨u, r, rfl, hout⟩ := h
  have hrun := r.step (.allocate size zero) trivial
  rw [PoolUse.step] at hrun
  cases hr : (Pool.allocate size zero).on u.pool with
  | mk x pool =>
    rw [hr] at hrun
    cases x with
    | ok a => exact .inl ⟨a, pool, rfl, _, hrun, rfl, hout.cons a⟩
    | error e => exact .inr ⟨e, pool, rfl, _, hrun, rfl, hout⟩

theorem release (h : PoolBook limit capacity reservable calls pool (a :: out)) :
    ∃ pool', (Pool.release a).on pool = (.ok (), pool') ∧
      PoolBook limit capacity reservable (calls ++ [.release a]) pool' out := by
  obtain ⟨u, r, rfl, hout⟩ := h
  have ha : a ∈ u.handles := hout.symm.subset List.mem_cons_self
  obtain ⟨hon, hleft⟩ := r.settled.step_release ha
  refine ⟨_, hon, _, r.step (.release a) ha, rfl, ?_⟩
  rw [hleft]
  exact (List.cons_perm_iff_perm_erase.1 hout.symm).2.symm

/-- What was given is what was given back and what is held now. -/
theorem balance (h : PoolBook limit capacity reservable calls pool out) :
    ((PoolUse.fresh limit capacity reservable).granted calls).Perm
      (calls.filterMap PoolCall.released? ++ out) := by
  obtain ⟨u, r, -, hout⟩ := h
  suffices hu : ((PoolUse.fresh limit capacity reservable).granted calls).Perm
      (calls.filterMap PoolCall.released? ++ u.handles) from hu.trans (hout.append_left _)
  clear hout
  induction r with
  | start => exact .refl _
  | @step u calls c r hc ih =>
    have hreleased : (calls ++ [c]).filterMap PoolCall.released? =
        calls.filterMap PoolCall.released? ++ c.released?.toList := by
      rw [List.filterMap_append]
      cases hr : c.released? <;> simp [hr]
    rw [PoolUse.granted_append, ← r.eq_foldl, hreleased, List.append_assoc]
    refine (ih.append_right _).trans ?_
    rw [List.append_assoc]
    exact (r.settled.balance hc).append_left _

end PoolBook

end FieldCompute
