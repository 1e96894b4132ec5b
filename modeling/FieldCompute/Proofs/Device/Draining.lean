import FieldCompute.Proofs.Device.Custody
import FieldCompute.Proofs.Device.SharedRuns
/-!
# What the end of a pool leaves behind

A pool may keep handles that its device does not know, as somebody freed the memory or released it
twice. At its end it forgets all that it keeps and gives it back one after the other, up to the
first handle of this kind (`Pool.GivenBack`). What stands behind that one stays live, and nobody
will give it back any more (`SharedUse.terminate_up_to_stale`).
-/

namespace FieldCompute

open Routine

namespace Device

variable {d d' d'' : Device} {ids ids' : List Nat}

/-- What is under these ids is gone, and nothing else has changed. -/
def Without (d : Device) (ids : List Nat) (d' : Device) : Prop :=
  ∀ id, d'.memory.find? id = if id ∈ ids then none else d.memory.find? id

theorem isLive_eq (d : Device) (id : Nat) : d.isLive id = (d.memory.find? id).isSome :=
  Table.contains_eq_isSome d.memory id

namespace Without

theorem refl (d : Device) : d.Without [] d := fun _ => rfl

theorem trans (h : d.Without ids d') (h' : d'.Without ids' d'') : d.Without (ids ++ ids') d'' := by
  intro id
  rw [h', h]
  by_cases hid : id ∈ ids <;> by_cases hid' : id ∈ ids' <;> simp [hid, hid']

theorem isLive (h : d.Without ids d') (id : Nat) :
    d'.isLive id = (!decide (id ∈ ids) && d.isLive id) := by
  rw [isLive_eq, isLive_eq, h]
  by_cases hid : id ∈ ids <;> simp [hid]

/-- A device takes back what it knows, and what it does not know changes nothing. -/
theorem of_deallocate (d : Device) (a : Allocation) :
    (d.isLive a.id = true ∧ ∃ d', d.deallocate a = .ok d' ∧ d.Without [a.id] d') ∨
    (d.isLive a.id = false ∧ d.deallocate a = .error (.unknownAllocation name a.id)) := by
  unfold Device.deallocate
  cases h : d.isLive a.id with
  | false => exact .inr ⟨rfl, rfl⟩
  | true =>
    refine .inl ⟨rfl, _, rfl, fun id => ?_⟩
    rw [Table.find?_erase]
    simp

end Without

end Device

namespace Pool

variable {p : Pool} {l : List Allocation}

/-! ## Giving back -/

/-- What giving back allocations one after the other comes to. -/
inductive GivenBack (p : Pool) (l : List Allocation) : Except DeviceError Unit × Pool → Prop
  | all {d : Device} (hlive : ∀ a ∈ l, p.device.isLive a.id = true)
      (hdistinct : (l.map (·.id)).Nodup) (hd : p.device.Without (l.map (·.id)) d) :
    GivenBack p l (.ok (), { p with device := d })
  /-- The device does not know one of them, or not any more. -/
  | upTo {before after : List Allocation} {stale : Allocation} {d : Device}
      (hl : l = before ++ stale :: after) (hlive : ∀ a ∈ before, p.device.isLive a.id = true)
      (hdistinct : (before.map (·.id)).Nodup)
      (hstale : p.device.isLive stale.id = true → stale.id ∈ before.map (·.id))
      (hd : p.device.Without (before.map (·.id)) d) :
    GivenBack p l (.error (.unknownAllocation Device.name stale.id), { p with device := d })

theorem deallocateAll_givenBack (p : Pool) (l : List Allocation) :
    GivenBack p l ((l.forM fun a => onDevice (·.deallocate a)).on p) := by
  induction l generalizing p with
  | nil => exact .all (by simp) List.nodup_nil (.refl _)
  | cons a l ih =>
    change GivenBack p (a :: l) ((onDevice (·.deallocate a) >>= fun _ =>
      l.forM fun a => onDevice (·.deallocate a)).on p)
    rw [on_bind, onDevice_on]
    rcases Device.Without.of_deallocate p.device a with ⟨hlive, d, hd, hwithout⟩ | ⟨hlive, hd⟩
    · rw [hd]
      -- What is live without `a` was live before and is another allocation.
      have hother (b : Allocation) (hb : d.isLive b.id = true) :
          b.id ≠ a.id ∧ p.device.isLive b.id = true := by
        rw [hwithout.isLive] at hb
        simpa using hb
      have hcons {l : List Allocation} (hl : ∀ b ∈ l, d.isLive b.id = true)
          (hdistinct : (l.map (·.id)).Nodup) :
          (∀ b ∈ a :: l, p.device.isLive b.id = true) ∧ ((a :: l).map (·.id)).Nodup := by
        refine ⟨List.forall_mem_cons.2 ⟨hlive, fun b hb => (hother b (hl b hb)).2⟩,
          List.nodup_cons.2 ⟨fun hm => ?_, hdistinct⟩⟩
        obtain ⟨b, hb, hid⟩ := List.mem_map.1 hm
        exact (hother b (hl b hb)).1 hid
      have hrest := ih { p with device := d }
      simp only
      generalize (l.forM fun a => onDevice (·.deallocate a)).on { p with device := d } = x at hrest ⊢
      cases hrest with
      | all hl hdistinct hd' =>
        obtain ⟨hlive', hdistinct'⟩ := hcons hl hdistinct
        exact .all hlive' hdistinct' (hwithout.trans hd')
      | @upTo before after stale d' hsplit hl hdistinct hstale hd' =>
        have hback : a :: l = (a :: before) ++ stale :: after := by rw [hsplit]; rfl
        obtain ⟨hlive', hdistinct'⟩ := hcons hl hdistinct
        refine .upTo hback hlive' hdistinct' ?_ (hwithout.trans hd')
        intro hs
        rw [List.map_cons, List.mem_cons]
        refine or_iff_not_imp_left.2 fun hne => hstale ?_
        rw [hwithout.isLive]
        simp [hne, hs]
    · rw [hd]
      have hfirst : a :: l = [] ++ a :: l := rfl
      exact .upTo hfirst (by simp) List.nodup_nil (by simp [hlive]) (.refl _)

/-- At its end a pool gives back all that it keeps, in this order. -/
theorem terminate_givenBack (p : Pool) :
    GivenBack
      { p with terminated := true, free := .empty, stats := { p.stats with cached := 0 } }
      p.cachedAllocations (terminate.on p) := by
  rw [terminate, on_modify_bind, drain, on_get_bind, on_set_bind]
  exact deallocateAll_givenBack _ _

namespace GivenBack

variable {x : Except DeviceError Unit × Pool}

/-- All are given back exactly where each is live and stands once. -/
theorem ok_iff (h : GivenBack p l x) :
    x.1 = .ok () ↔ (l.map (·.id)).Nodup ∧ ∀ a ∈ l, p.device.isLive a.id = true := by
  cases h with
  | all hlive hdistinct _ => exact ⟨fun _ => ⟨hdistinct, hlive⟩, fun _ => rfl⟩
  | @upTo before after stale d hl hlive hdistinct hstale hd =>
    refine ⟨fun hx => (by cases hx), fun ⟨hnodup, hall⟩ => ?_⟩
    have hmem := hstale (hall stale (by simp [hl]))
    rw [hl, List.map_append, List.nodup_append'] at hnodup
    exact absurd List.mem_cons_self (hnodup.2.2 hmem)

end GivenBack

end Pool

/-- The pools differ at most in the order in which their free lists stand. -/
def Pool.Rearranged (p p' : Pool) : Prop :=
  ∃ entries, entries.Perm p.free.entries ∧ p' = { p with free := ⟨entries⟩ }

theorem Pool.Rearranged.cachedAllocations {p p' : Pool} (h : p.Rearranged p') :
    p'.cachedAllocations.Perm p.cachedAllocations := by
  obtain ⟨entries, hp, rfl⟩ := h
  exact (hp.map Prod.snd).flatten

namespace SharedUse

/-- A pool on a fresh device after calls with any handles. -/
def after (limit : Option Nat) (capacity : Nat) (calls : List SharedCall) : SharedUse :=
  calls.foldl step ⟨.create (.create limit) capacity, []⟩

/-- The end of a pool, whatever was asked of it and of its device before and with whatever handles,
and in whatever order its free lists stand. It keeps nothing any more. It succeeds exactly if all
that it kept is live and stands on the free lists once, and then none of that is live afterwards.
Else the answer names the first handle that the device does not know, or not any more. What stands
before that one is gone, and all else that the device holds, with what stands behind it, is as
before. If only what is held was given to the pool and nobody freed what it keeps, it succeeds, and
so it does with the free lists in any other order. -/
theorem terminate_up_to_stale (p : Pool) :
    let x := Pool.terminate.on p
    (x.2.terminated = true ∧ x.2.cachedAllocations = []) ∧
    (x.1 = .ok () ↔
      p.cachedIds.Nodup ∧ ∀ a ∈ p.cachedAllocations, p.device.isLive a.id = true) ∧
    (x.1 = .ok () → ∀ a ∈ p.cachedAllocations, x.2.device.isLive a.id = false) ∧
    (∀ e, x.1 = .error e → ∃ before stale after,
      p.cachedAllocations = before ++ stale :: after ∧
      e = .unknownAllocation Device.name stale.id ∧
      (p.device.isLive stale.id = true → stale.id ∈ before.map (·.id)) ∧
      (∀ a ∈ before, p.device.isLive a.id = true) ∧
      ∀ id, x.2.device.memory.find? id =
        if id ∈ before.map (·.id) then none else p.device.memory.find? id) ∧
    (∀ limit capacity reservable u calls, SharedRun limit capacity reservable u calls →
      u.pool.Rearranged p → x.1 = .ok ()) := by
  intro x
  have hx : Pool.GivenBack
      { p with terminated := true, free := .empty, stats := { p.stats with cached := 0 } }
      p.cachedAllocations x := Pool.terminate_givenBack p
  have hend : x.2 = _ := Pool.terminate_snd p
  refine ⟨?_, hx.ok_iff, ?_, ?_, ?_⟩
  · rw [hend]
    exact ⟨rfl, rfl⟩
  · intro hok a ha
    generalize x = x at hx hok
    cases hx with
    | all _ _ hd =>
      have hmem : a.id ∈ p.cachedAllocations.map (·.id) := List.mem_map.2 ⟨a, ha, rfl⟩
      rw [hd.isLive]
      simp [hmem]
    | upTo => cases hok
  · intro e he
    generalize x = x at hx he
    cases hx with
    | all => cases he
    | @upTo before after stale d hl hlive _ hstale hd =>
      cases he
      exact ⟨before, stale, after, hl, rfl, hstale, hlive, hd⟩
  · intro limit capacity reservable u calls r hp
    -- What the pool of a run keeps is live and stands once, and the order has no part in that.
    obtain ⟨pool, ht, -⟩ := r.settled.ledger.terminate
    obtain ⟨hnodup, hlive⟩ := (Pool.terminate_givenBack u.pool).ok_iff.1 (congrArg Prod.fst ht)
    have hperm := hp.cachedAllocations
    have hdevice : p.device = u.pool.device := by
      obtain ⟨entries, -, rfl⟩ := hp
      rfl
    refine hx.ok_iff.2 ⟨(hperm.map (·.id)).nodup_iff.2 hnodup, fun a ha => ?_⟩
    rw [hdevice]
    exact hlive a (hperm.subset ha)

/-- Two allocations of one size were released, and the first one is freed past the pool. At the end
of the pool the second one stays live. -/
theorem leftover_stays_live :
    let p := (after none 32 [.allocate 16 false, .allocate 16 false, .release ⟨0, 16⟩,
      .release ⟨1, 16⟩, .deviceFree ⟨0, 16⟩]).pool
    p.cachedAllocations = [⟨0, 16⟩, ⟨1, 16⟩] ∧
    (Pool.terminate.on p).1 = .error (.unknownAllocation "CPU" 0) ∧
    (Pool.terminate.on p).2.device.isLive 1 = true := by
  intro p
  refine ⟨?_, ?_, ?_⟩
  all_goals decide

end SharedUse

end FieldCompute
