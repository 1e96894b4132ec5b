import FieldCompute.Proofs.Device.Contents
/-!
# The limit of a device

The events on a device tell which allocations are live (`liveAfter`). A call gives memory, takes
some back or at most puts other bytes into what is live (`Device.Moves`), so the device holds just
these allocations, whatever handles were given back in between (`DeviceRun.holds`). The bytes in use
are then the sum of their sizes. That sum is compared with the limit as a number without bounds, and
a refused call changes nothing (`DeviceRun.limit_kept`).
-/

namespace FieldCompute

/-- The allocation that the call was granted. -/
def DeviceEvent.granted? (e : DeviceEvent) : Option Allocation :=
  match e.answer with
  | .ok (.granted a) => some a
  | _ => none

/-- All allocations that were granted, the latest first. -/
def grants (es : List DeviceEvent) : List Allocation := es.filterMap DeviceEvent.granted?

/-- The allocations that were granted and not given back since, the latest first. -/
def liveAfter : List DeviceEvent → List Allocation
  | [] => []
  | e :: earlier => e.granted?.toList ++ (liveAfter earlier).filter fun a => !e.frees a.id

/-- Where nothing is given back, what was live stays live. -/
theorem liveAfter_cons {e : DeviceEvent} (h : ∀ id, e.frees id = false) (es : List DeviceEvent) :
    liveAfter (e :: es) = e.granted?.toList ++ liveAfter es := by
  have hall : ((liveAfter es).filter fun a => !e.frees a.id) = liveAfter es :=
    List.filter_eq_self.2 fun a _ => by rw [h, Bool.not_false]
  rw [liveAfter, hall]

theorem grants_cons (e : DeviceEvent) (es : List DeviceEvent) :
    grants (e :: es) = e.granted?.toList ++ grants es := by
  unfold grants
  rw [List.filterMap_cons]
  cases e.granted? <;> rfl

namespace Device

variable {d d' : Device} {e : DeviceEvent} {es : List DeviceEvent} {c : DeviceCall}
  {size limit : Nat}

/-! ## One call -/

/-- What an event comes to: the device gives memory, takes some back, or has other bytes at most. -/
inductive Moves (d : Device) (e : DeviceEvent) (d' : Device) : Prop where
  | gives {a : Allocation} {size : Nat} (hgranted : e.granted? = some a)
      (hfrees : ∀ id, e.frees id = false) (h : d.allocate size = .ok (a, d')) : Moves d e d'
  | takes {a : Allocation} (hgranted : e.granted? = none)
      (hfrees : ∀ id, e.frees id = decide (a.id = id)) (h : d.deallocate a = .ok d') : Moves d e d'
  | stays (hgranted : e.granted? = none) (hfrees : ∀ id, e.frees id = false)
      (h : d.Rewritten d') : Moves d e d'

theorem Came.moves {answer : Except DeviceError DeviceAnswer} (h : d.Came c answer d') :
    d.Moves ⟨c, answer⟩ d' := by
  cases h with
  | refused c e => exact .stays rfl (fun _ => by cases c <;> rfl) (.refl d)
  | allocated h | imaged _ h => exact .gives rfl (fun _ => rfl) h
  | freed h => exact .takes rfl (fun _ => rfl) h
  | read _ => exact .stays rfl (fun _ => rfl) (.refl d)
  | written h => exact .stays rfl (fun _ => rfl) (.write h)
  | filled h => exact .stays rfl (fun _ => rfl) (.fill h)

theorem Moves.bounded (h : d.Moves e d') : d.Bounded d' := by
  cases h with
  | gives _ _ h => exact .allocate h
  | takes _ _ h => exact .deallocate h
  | stays _ _ h => exact .rewritten h

/-- What the device holds is what the events tell to be live. -/
theorem Holds.moves (h : d.Holds (liveAfter es)) (hm : d.Moves e d') :
    d'.Holds (liveAfter (e :: es)) := by
  cases hm with
  | gives hgranted hfrees ha =>
    rw [liveAfter_cons hfrees, hgranted]
    exact (h.allocate ha).1
  | @takes a hgranted hfrees hd =>
    have hleft : (liveAfter es).filter (fun b => !e.frees b.id) =
        (liveAfter es).filter (·.id ≠ a.id) :=
      List.filter_congr fun b _ => by simp [hfrees, eq_comm]
    rw [liveAfter, hgranted, hleft]
    exact (h.without hd).1
  | stays hgranted hfrees hr =>
    rw [liveAfter_cons hfrees, hgranted]
    exact h.rewritten hr

/-- The ids that were granted rise, and the next one is above them all. -/
structure Numbered (d : Device) (es : List DeviceEvent) : Prop where
  rising : (grants es).Pairwise fun later earlier => earlier.id < later.id
  below : ∀ a ∈ grants es, a.id < d.nextId

theorem Numbered.moves (h : d.Numbered es) (hm : d.Moves e d') : d'.Numbered (e :: es) := by
  have same (hgranted : e.granted? = none) (hnext : d'.nextId = d.nextId) :
      d'.Numbered (e :: es) := by
    have hgrants : grants (e :: es) = grants es := by rw [grants_cons, hgranted]; rfl
    exact ⟨hgrants ▸ h.rising, hgrants ▸ hnext ▸ h.below⟩
  cases hm with
  | @gives a _ hgranted _ ha =>
    have hgrants : grants (e :: es) = a :: grants es := by rw [grants_cons, hgranted]; rfl
    obtain ⟨-, ha⟩ := allocate_eq_ok_iff.1 ha
    cases ha
    refine ⟨hgrants ▸ List.pairwise_cons.2 ⟨h.below, h.rising⟩, ?_⟩
    rw [hgrants, List.forall_mem_cons]
    exact ⟨Nat.lt_succ_self _, fun b hb => Nat.lt_succ_of_lt (h.below b hb)⟩
  | takes hgranted _ hd =>
    unfold Device.deallocate at hd
    split at hd <;> cases hd
    exact same hgranted rfl
  | stays hgranted _ hr => exact same hgranted hr.nextId

/-- A call that asks for memory is answered as a request for so many bytes. -/
theorem action_of_size? (h : c.size? = some size) (d : Device) :
    (c.action.on d).1 = DeviceAnswer.granted <$> Prod.fst <$> d.allocate size := by
  have hout : c.outcome d = (fun x => (.granted x.1, x.2)) <$> d.allocate size := by
    cases c with
    | allocate n => cases h; rfl
    | allocateImage i =>
      have hi : i.bytes? = some size := h
      rw [DeviceCall.outcome, Device.allocateImage, hi]
      rfl
    | deallocate a | read p length | write p bytes | fill a pattern => cases h
  rw [action_on, hout]
  cases d.allocate size <;> rfl

/-- The limit refuses what does not fit in beside the bytes in use, and it says so. -/
theorem allocate_eq_outOfMemory_iff (hd : d.limit = some limit) {requested inUse most : Nat} :
    d.allocate size = .error (.outOfMemory requested inUse most) ↔
      (requested = size ∧ inUse = d.allocated ∧ most = limit) ∧ limit < d.allocated + size := by
  have hadmits : d.admits size = decide (d.allocated + size ≤ limit) := by simp [admits, hd]
  rw [Device.allocate, hadmits, hd]
  by_cases h : d.allocated + size ≤ limit
  · have hnot : ¬ limit < d.allocated + size := Nat.not_lt.2 h
    rw [decide_eq_true h, Bool.not_true, if_neg (by decide)]
    -- What the host cannot reserve is refused for another reason.
    split <;> simp [hnot]
  · rw [decide_eq_false h, Bool.not_false, if_pos rfl]
    simp [Nat.lt_of_not_le h, eq_comm]

end Device

namespace DeviceRun

variable {limit : Option Nat} {reservable : Nat} {d : Device} {es : List DeviceEvent}

/-! ## All calls -/

theorem holds (r : DeviceRun limit reservable d es) : d.Holds (liveAfter es) := by
  induction r with
  | start =>
    exact ⟨.nil, fun ha => (by cases ha), fun hf => (by cases hf), fun hf => (by cases hf), .nil⟩
  | step c _ ih => exact ih.moves (Device.came c _).moves

theorem numbered (r : DeviceRun limit reservable d es) : d.Numbered es := by
  induction r with
  | start => exact ⟨.nil, fun a ha => (by cases ha)⟩
  | step c _ ih => exact ih.moves (Device.came c _).moves

theorem bounded (r : DeviceRun limit reservable d es) :
    (Device.create limit reservable).Bounded d := by
  induction r with
  | start => exact .refl _
  | step c _ ih => exact ih.trans (Device.came c _).moves.bounded

/-- The limit of a device after any calls, with any handles. The bytes in use are those of the live
allocations and never more than the limit. A request is refused for want of memory exactly if it
does not fit in beside them, a refused call changes nothing, and the ids that are granted rise, so
that none of them comes back. -/
theorem limit_kept {limit : Nat} (r : DeviceRun (some limit) reservable d es) :
    d.Holds (liveAfter es) ∧ d.allocated = ((liveAfter es).map (·.size)).sum ∧
    d.allocated ≤ limit ∧
    (∀ (c : DeviceCall) size, c.size? = some size → ∀ requested inUse most,
      (c.action.on d).1 = .error (.outOfMemory requested inUse most) ↔
        (requested = size ∧ inUse = d.allocated ∧ most = limit) ∧ limit < d.allocated + size) ∧
    (∀ (c : DeviceCall) e d', c.action.on d = (.error e, d') → d' = d) ∧
    (grants es).Pairwise fun later earlier => earlier.id < later.id := by
  have hlimit : d.limit = some limit := r.bounded.limit
  refine ⟨r.holds, r.holds.allocated, ?_, ?_, ?_, r.numbered.rising⟩
  · exact (r.bounded.orderly (Device.orderly_create _ _)).within limit hlimit
  · intro c size hsize requested inUse most
    rw [Device.action_of_size? hsize, ← Device.allocate_eq_outOfMemory_iff hlimit]
    cases d.allocate size <;> simp
  · intro c e d'
    exact Device.action_error

/-- With a request that does not fit in, a handle that nothing has and one of a wrong size. The
memory that is free again comes under a new id, and a request whose sum with it is no size is
refused. -/
theorem limit_kept_recycled : ∃ d es, DeviceRun (some 64) (2 ^ 20) d es ∧
    es.map (·.call) = [.allocateImage ⟨.scalar .int8, 4, [4, 4]⟩, .deallocate ⟨0, 999⟩,
      .deallocate ⟨7, 48⟩, .allocate 32, .allocate 48] ∧
    grants es = [⟨1, 64⟩, ⟨0, 48⟩] ∧ liveAfter es = [⟨1, 64⟩] ∧
    d.allocated = ((liveAfter es).map (·.size)).sum ∧
    ((DeviceCall.allocate (2 ^ 64 - 1)).action.on d).1 =
      .error (.outOfMemory (2 ^ 64 - 1) 64 64) := by
  have r : DeviceRun (some 64) (2 ^ 20) _ _ := .step (.allocateImage ⟨.scalar .int8, 4, [4, 4]⟩) <|
    .step (.deallocate ⟨0, 999⟩) <| .step (.deallocate ⟨7, 48⟩) <| .step (.allocate 32) <|
    .step (.allocate 48) .start
  obtain ⟨-, hsum, -, hrefused, -⟩ := r.limit_kept
  refine ⟨_, _, r, rfl, by decide, by decide +kernel, hsum, ?_⟩
  refine (hrefused (.allocate (2 ^ 64 - 1)) _ rfl _ _ _).2 ?_
  decide

end DeviceRun

end FieldCompute
