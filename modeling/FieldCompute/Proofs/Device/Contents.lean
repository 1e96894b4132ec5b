import FieldCompute.Proofs.Device.Admission
import FieldCompute.Value.Bytes
/-!
# What a device holds

What was asked of a device, and what it answered, tells which allocations are live and how large
(`liveSize?`), and each of their bytes (`lastByte`): what the last successful write or fill that
covers the byte put there since the allocation was made, and zero where there was none. A device
holds just that, whatever was asked of it and with whatever handles (`DeviceRun.tells`), so a read
answers from the history alone.
-/

namespace FieldCompute

/-! ## Calls and what they came to -/

/-- What somebody asks of a device, with handles that may be made up or freed. -/
inductive DeviceCall where
  | allocate (size : Nat)
  | allocateImage (i : Image)
  | deallocate (a : Allocation)
  | read (p : Pointer) (length : Nat)
  | write (p : Pointer) (bytes : List UInt8)
  | fill (a : Allocation) (pattern : UInt32)
deriving Repr

/-- What a device answers. -/
inductive DeviceAnswer where
  | granted (a : Allocation)
  | bytes (l : List UInt8)
  | done
deriving Repr

/-- What the device answers, with the device after the call. -/
def DeviceCall.outcome (d : Device) :
    DeviceCall → Except DeviceError (DeviceAnswer × Device)
  | allocate size => do
    let (a, d) ← d.allocate size
    return (.granted a, d)
  | allocateImage i => do
    let (a, d) ← d.allocateImage i
    return (.granted a, d)
  | deallocate a => return (.done, ← d.deallocate a)
  | read p length => return (.bytes (← d.read p length), d)
  | write p bytes => return (.done, ← d.write p bytes)
  | fill a pattern => return (.done, ← d.fill a pattern)

/-- How many bytes the call asks for, if it asks for memory. -/
def DeviceCall.size? : DeviceCall → Option Nat
  | allocate size => some size
  | allocateImage i => i.bytes?
  | _ => none

/-- Puts the call to a device. -/
def DeviceCall.action (c : DeviceCall) : Routine Device DeviceError DeviceAnswer := do
  let d ← get
  let (answer, d) ← .answer (c.outcome d)
  set d
  return answer

/-- A call and what it came to. -/
structure DeviceEvent where
  call : DeviceCall
  answer : Except DeviceError DeviceAnswer

namespace DeviceEvent

/-- The size of the allocation that was made under the id. -/
def made? (e : DeviceEvent) (id : Nat) : Option Nat :=
  match e.answer with
  | .ok (.granted a) => if a.id = id then some a.size else none
  | _ => none

/-- The allocation under the id was given back. -/
def frees (e : DeviceEvent) (id : Nat) : Bool :=
  match e.call, e.answer with
  | .deallocate a, .ok _ => a.id = id
  | _, _ => false

/-- What was put at position `i` of the allocation under the id. -/
def put? (e : DeviceEvent) (id i : Nat) : Option UInt8 :=
  match e.call, e.answer with
  | .write p bytes, .ok _ =>
    if p.allocation.id = id ∧ p.offset ≤ i then bytes[i - p.offset]? else none
  | .fill a pattern, .ok _ =>
    if a.id = id ∧ i < a.size then (lowBytes pattern.toNat 4)[i % 4]? else none
  | _, _ => none

end DeviceEvent

/-- The size of the allocation under an id, if it is live after the events, the latest first. -/
def liveSize? (id : Nat) : List DeviceEvent → Option Nat
  | [] => none
  | e :: earlier =>
    match e.made? id with
    | some size => some size
    | none => if e.frees id then none else liveSize? id earlier

/-- The last byte that was put at position `i` of the allocation under an id since it was made. -/
def lastByte (id i : Nat) : List DeviceEvent → UInt8
  | [] => 0
  | e :: earlier =>
    match e.made? id with
    | some _ => 0
    | none => (e.put? id i).getD (lastByte id i earlier)

/-- The allocation is live after the events, and the range lies inside it. -/
def Inside (es : List DeviceEvent) (p : Pointer) (length : Nat) : Prop :=
  ∃ size, liveSize? p.allocation.id es = some size ∧ p.offset + length ≤ size

/-- What a device of a host comes to, with the events on the way there, the latest first. -/
inductive DeviceRun (limit : Option Nat) (reservable : Nat) : Device → List DeviceEvent → Prop
  | start : DeviceRun limit reservable (.create limit reservable) []
  | step {d : Device} {es : List DeviceEvent} (c : DeviceCall) : DeviceRun limit reservable d es →
    DeviceRun limit reservable (c.action.on d).2 (⟨c, (c.action.on d).1⟩ :: es)

namespace Device

open Routine

variable {d d' : Device} {es : List DeviceEvent} {e : DeviceEvent} {id i : Nat}

/-- A byte of a live allocation. -/
def byte? (d : Device) (id i : Nat) : Option UInt8 := (d.memory.find? id).bind (·[i]?)

theorem action_on (c : DeviceCall) (d : Device) :
    c.action.on d = match c.outcome d with
      | .ok (answer, d) => (.ok answer, d)
      | .error e => (.error e, d) := by
  rw [DeviceCall.action, on_get_bind, on_answer_bind]
  cases c.outcome d <;> rfl

/-- What a call comes to: its answer and the device after it. -/
inductive Came (d : Device) :
    DeviceCall → Except DeviceError DeviceAnswer → Device → Prop where
  | refused (c : DeviceCall) (e : DeviceError) : Came d c (.error e) d
  | allocated {size : Nat} {a : Allocation} {d' : Device} (h : d.allocate size = .ok (a, d')) :
      Came d (.allocate size) (.ok (.granted a)) d'
  | imaged {i : Image} {size : Nat} {a : Allocation} {d' : Device} (hsize : i.bytes? = some size)
      (h : d.allocate size = .ok (a, d')) : Came d (.allocateImage i) (.ok (.granted a)) d'
  | freed {a : Allocation} {d' : Device} (h : d.deallocate a = .ok d') :
      Came d (.deallocate a) (.ok .done) d'
  | read {p : Pointer} {length : Nat} {bytes : List UInt8} (h : d.read p length = .ok bytes) :
      Came d (.read p length) (.ok (.bytes bytes)) d
  | written {p : Pointer} {bytes : List UInt8} {d' : Device} (h : d.write p bytes = .ok d') :
      Came d (.write p bytes) (.ok .done) d'
  | filled {a : Allocation} {pattern : UInt32} {d' : Device} (h : d.fill a pattern = .ok d') :
      Came d (.fill a pattern) (.ok .done) d'

theorem came (c : DeviceCall) (d : Device) : d.Came c (c.action.on d).1 (c.action.on d).2 := by
  rw [action_on]
  cases ho : c.outcome d with
  | error e => exact .refused c e
  | ok x =>
    cases c with
    | allocate size =>
      obtain ⟨y, h, ho⟩ := Outcome.bind_eq_ok_iff.1 ho
      cases ho
      exact .allocated h
    | allocateImage i =>
      obtain ⟨y, h, ho⟩ := Outcome.bind_eq_ok_iff.1 ho
      cases ho
      obtain ⟨size, hsize, h⟩ := allocateImage_eq_ok_iff.1 h
      exact .imaged hsize h
    | deallocate a =>
      obtain ⟨y, h, ho⟩ := Outcome.bind_eq_ok_iff.1 ho
      cases ho
      exact .freed h
    | read p length =>
      obtain ⟨y, h, ho⟩ := Outcome.bind_eq_ok_iff.1 ho
      cases ho
      exact .read h
    | write p bytes =>
      obtain ⟨y, h, ho⟩ := Outcome.bind_eq_ok_iff.1 ho
      cases ho
      exact .written h
    | fill a pattern =>
      obtain ⟨y, h, ho⟩ := Outcome.bind_eq_ok_iff.1 ho
      cases ho
      exact .filled h

/-- Only calls that ask for memory are granted some, and they get it from the device. -/
theorem Came.granted {c : DeviceCall} {a : Allocation} (h : d.Came c (.ok (.granted a)) d') :
    ∃ size, c.size? = some size ∧ d.allocate size = .ok (a, d') := by
  cases h with
  | allocated h => exact ⟨_, rfl, h⟩
  | imaged hsize h => exact ⟨_, hsize, h⟩

/-- A refused call changes nothing. -/
theorem action_error {c : DeviceCall} {e : DeviceError} (h : c.action.on d = (.error e, d')) :
    d' = d := by
  have hc := came c d
  rw [h] at hc
  cases hc
  rfl

/-! ## Bytes outside -/

/-- Bytes outside the range of a write, and those of other allocations, stay. -/
theorem byte?_patched {data : Array UInt8} {offset : Nat} {bytes : List UInt8} {a : Nat}
    (hd : d.memory.find? a = some data) (hle : offset + bytes.length ≤ data.size)
    (hout : id = a → i < offset ∨ offset + bytes.length ≤ i) :
    ({ d with memory := d.memory.insert a (patched data offset bytes) } : Device).byte? id i =
      d.byte? id i := by
  unfold byte?
  simp only [Table.find?_insert]
  split
  · rename_i hid
    subst hid
    have hout := hout rfl
    rw [hd, Option.bind_some, Option.bind_some, getElem?_patched hle, if_neg (by omega)]
  · rfl

theorem byte?_write {p : Pointer} {bytes : List UInt8} (h : d.write p bytes = .ok d')
    (hout : id = p.allocation.id → i < p.offset ∨ p.offset + bytes.length ≤ i) :
    d'.byte? id i = d.byte? id i := by
  obtain ⟨data, hd, hle, rfl⟩ := write_eq_ok_iff.1 h
  exact byte?_patched hd hle hout

theorem byte?_fill {a : Allocation} {pattern : UInt32} (h : d.fill a pattern = .ok d')
    (hout : id = a.id → a.size ≤ i) : d'.byte? id i = d.byte? id i := by
  obtain ⟨data, hd, hle, rfl⟩ := fill_eq_ok_iff.1 h
  apply byte?_patched hd
  · rw [length_repeated]
    omega
  · intro hid
    rw [length_repeated]
    exact .inr (by have := hout hid; omega)

namespace Rewritten

/-- Where all bytes of an allocation are as before, so is the allocation. -/
theorem find?_eq (h : d.Rewritten d') (hb : ∀ i, d'.byte? id i = d.byte? id i) :
    d'.memory.find? id = d.memory.find? id := by
  rcases h.find?_cases id with ⟨hd', hd⟩ | ⟨data, data', hd, hd', hs⟩
  · rw [hd, hd']
  · rw [hd, hd', Option.some.injEq]
    apply Array.ext_getElem?
    intro i
    have hi := hb i
    simpa only [byte?, hd, hd', Option.bind_some] using hi

/-- Where the bytes of a range are as before, so is what is read from it. -/
theorem read_eq (h : d.Rewritten d') {p : Pointer} {length : Nat}
    (hb : ∀ i, p.offset ≤ i → i < p.offset + length →
      d'.byte? p.allocation.id i = d.byte? p.allocation.id i) :
    d'.read p length = d.read p length := by
  rw [read, read, span, span]
  rcases h.find?_cases p.allocation.id with ⟨hd', hd⟩ | ⟨data, data', hd, hd', hs⟩
  · rw [hd, hd']
  · simp only [hd, hd', hs]
    split
    · simp only [Outcome.pure_eq, Outcome.ok_bind, Except.ok.injEq]
      apply List.ext_getElem?
      intro i
      rw [getElem?_range, getElem?_range]
      split
      · have hi := hb (p.offset + i) (by omega) (by omega)
        simpa only [byte?, hd, hd', Option.bind_some] using hi
      · rfl
    · rfl

end Rewritten

/-! ## A device and its history -/

/-- The device holds what the events tell, and ids rise. -/
structure Told (d : Device) (es : List DeviceEvent) : Prop where
  size (id : Nat) : (d.memory.find? id).map Array.size = liveSize? id es
  byte {id i : Nat} {data : Array UInt8} : d.memory.find? id = some data → i < data.size →
    data[i]? = some (lastByte id i es)
  fresh {id : Nat} {data : Array UInt8} : d.memory.find? id = some data → id < d.nextId

namespace Told

theorem create (limit : Option Nat) (reservable : Nat) :
    (Device.create limit reservable).Told [] := by
  refine ⟨fun _ => rfl, ?_, ?_⟩
  · intro id i data hf
    cases hf
  · intro id data hf
    cases hf

/-- An access is let through iff what it reaches for lies inside. -/
theorem inside_iff (h : d.Told es) {p : Pointer} {length : Nat} :
    (∃ data, d.span p length = .ok data) ↔ Inside es p length := by
  unfold Inside
  simp only [← h.size, Option.map_eq_some_iff, span_eq_ok_iff]
  constructor
  · rintro ⟨data, hd, hle⟩
    exact ⟨_, ⟨data, hd, rfl⟩, hle⟩
  · rintro ⟨_, ⟨data, hd, rfl⟩, hle⟩
    exact ⟨data, hd, hle⟩

/-- A new allocation is as large as was asked, under an id that nothing live has. -/
theorem made (h : d.Told es) {c : DeviceCall} {a : Allocation}
    (hc : c.action.on d = (.ok (.granted a), d')) :
    c.size? = some a.size ∧ liveSize? a.id es = none := by
  have hcame := came c d
  rw [hc] at hcame
  obtain ⟨size, hsize, ha⟩ := hcame.granted
  obtain ⟨-, hx⟩ := allocate_eq_ok_iff.1 ha
  cases hx
  refine ⟨hsize, ?_⟩
  rw [← h.size, Option.map_eq_none_iff, Option.eq_none_iff_forall_ne_some]
  intro data hf
  exact absurd (h.fresh hf) (Nat.lt_irrefl _)

/-- What is read is what the events tell, byte by byte. -/
theorem read (h : d.Told es) {p : Pointer} {length : Nat} {bytes : List UInt8}
    (hr : d.read p length = .ok bytes) :
    bytes = List.ofFn fun i : Fin length => lastByte p.allocation.id (p.offset + i) es := by
  obtain ⟨data, hd, hle, rfl⟩ := read_eq_ok_iff.1 hr
  apply List.ext_getElem?
  intro i
  rw [getElem?_range, List.getElem?_ofFn]
  split
  · rw [h.byte hd (by omega)]
  · rfl

/-- An event that leaves the device as it is and tells nothing. -/
theorem idle (h : d.Told es) (hm : ∀ id, e.made? id = none) (hf : ∀ id, e.frees id = false)
    (hp : ∀ id i, e.put? id i = none) : d.Told (e :: es) := by
  refine ⟨?_, ?_, h.fresh⟩
  · intro id
    simp only [liveSize?, hm, hf, Bool.false_eq_true, if_false]
    exact h.size id
  · intro id i data hd hi
    simp only [lastByte, hm, hp, Option.getD_none]
    exact h.byte hd hi

/-- An allocation is made, all zero. -/
theorem granted (h : d.Told es) {a : Allocation} {size : Nat} (ha : d.allocate size = .ok (a, d'))
    (hm : ∀ id, e.made? id = if a.id = id then some a.size else none)
    (hf : ∀ id, e.frees id = false) (hp : ∀ id i, e.put? id i = none) : d'.Told (e :: es) := by
  obtain ⟨-, hd'⟩ := allocate_eq_ok_iff.1 ha
  cases hd'
  refine ⟨?_, ?_, ?_⟩
  · intro id
    rw [Table.find?_insert, liveSize?, hm, hf]
    by_cases hid : id = d.nextId
    · subst hid
      simp
    · simp only [if_neg hid, if_neg (Ne.symm hid), Bool.false_eq_true, if_false]
      exact h.size id
  · intro id i data hd hi
    rw [Table.find?_insert] at hd
    rw [lastByte, hm, hp]
    by_cases hid : id = d.nextId
    · subst hid
      rw [if_pos rfl, Option.some.injEq] at hd
      subst hd
      rw [Array.size_replicate] at hi
      rw [Array.getElem?_replicate, if_pos hi, if_pos rfl]
    · rw [if_neg hid] at hd
      rw [if_neg (Ne.symm hid)]
      exact h.byte hd hi
  · intro id data hd
    rw [Table.find?_insert] at hd
    change id < d.nextId + 1
    split at hd
    · omega
    · exact Nat.lt_succ_of_lt (h.fresh hd)

/-- An allocation goes back. -/
theorem freed (h : d.Told es) {a : Nat} (hm : ∀ id, e.made? id = none)
    (hf : ∀ id, e.frees id = decide (a = id)) (hp : ∀ id i, e.put? id i = none) :
    ({ d with memory := d.memory.erase a } : Device).Told (e :: es) := by
  refine ⟨?_, ?_, ?_⟩
  · intro id
    rw [Table.find?_erase, liveSize?, hm, hf]
    by_cases hid : id = a
    · subst hid
      simp
    · simp only [if_neg hid, decide_eq_false (Ne.symm hid), Bool.false_eq_true, if_false]
      exact h.size id
  · intro id i data hd hi
    rw [Table.find?_erase] at hd
    split at hd
    · cases hd
    · rw [lastByte, hm, hp]
      exact h.byte hd hi
  · intro id data hd
    rw [Table.find?_erase] at hd
    split at hd
    · cases hd
    · exact h.fresh hd

/-- Bytes are put, one after the other. -/
theorem patched (h : d.Told es) {data : Array UInt8} {a offset : Nat} {bytes : List UInt8}
    (hd : d.memory.find? a = some data) (hle : offset + bytes.length ≤ data.size)
    (hm : ∀ id, e.made? id = none) (hf : ∀ id, e.frees id = false)
    (hp : ∀ id i, e.put? id i = if a = id ∧ offset ≤ i then bytes[i - offset]? else none) :
    ({ d with memory := d.memory.insert a (Device.patched data offset bytes) } : Device).Told
      (e :: es) := by
  refine ⟨?_, ?_, ?_⟩
  · intro id
    rw [Table.find?_insert, liveSize?, hm, hf]
    simp only [Bool.false_eq_true, if_false]
    rw [← h.size]
    split
    · rename_i hid
      rw [hid, hd, Option.map_some, Option.map_some, size_patched hle]
    · rfl
  · intro id i data' hd' hi
    rw [Table.find?_insert] at hd'
    rw [lastByte, hm, hp]
    by_cases hid : id = a
    · subst hid
      rw [if_pos rfl, Option.some.injEq] at hd'
      subst hd'
      rw [size_patched hle] at hi
      rw [getElem?_patched hle]
      by_cases hin : offset ≤ i ∧ i < offset + bytes.length
      · have hlt : i - offset < bytes.length := by omega
        rw [if_pos hin, if_pos ⟨rfl, hin.1⟩, List.getElem?_eq_getElem hlt]
        rfl
      · -- Behind the bytes the list has nothing to put.
        have hnone : (if id = id ∧ offset ≤ i then bytes[i - offset]? else none) = none := by
          split
          · exact List.getElem?_eq_none (by omega)
          · rfl
        rw [if_neg hin, hnone]
        exact h.byte hd hi
    · rw [if_neg hid] at hd'
      rw [if_neg fun hin => hid hin.1.symm]
      exact h.byte hd' hi
  · intro id data' hd'
    rw [Table.find?_insert] at hd'
    split at hd'
    · rename_i hid
      exact h.fresh (hid ▸ hd)
    · exact h.fresh hd'

end Told

/-- The lowest bytes of a number, one by one. -/
theorem getElem?_lowBytes (n : Nat) {count i : Nat} (hi : i < count) :
    (lowBytes n count)[i]? = some (n / 256 ^ i).toUInt8 := by
  induction count generalizing n i with
  | zero => omega
  | succ count ih =>
    rw [lowBytes]
    cases i with
    | zero =>
      rw [List.getElem?_cons_zero, Nat.pow_zero, Nat.div_one, Option.some.injEq]
      apply UInt8.toNat_inj.1
      simp
    | succ i =>
      rw [List.getElem?_cons_succ, ih _ (by omega), Nat.div_div_eq_div_mul, Nat.pow_succ,
        Nat.mul_comm 256]

theorem getElem?_repeated (pattern : UInt32) (length i : Nat) :
    (repeated pattern length)[i]? =
      if i < length then (lowBytes pattern.toNat 4)[i % 4]? else none := by
  unfold repeated
  rw [List.getElem?_ofFn]
  split
  · rw [getElem?_lowBytes _ (Nat.mod_lt _ (by decide))]
    rfl
  · rfl

/-- The fill of an allocation puts what a write of the repeated pattern would put. -/
theorem put?_fill (a : Allocation) (pattern : UInt32) (answer : DeviceAnswer) (id i : Nat) :
    DeviceEvent.put? ⟨.fill a pattern, .ok answer⟩ id i =
      if a.id = id ∧ 0 ≤ i then (repeated pattern a.size)[i - 0]? else none := by
  change (if a.id = id ∧ i < a.size then (lowBytes pattern.toNat 4)[i % 4]? else none) = _
  rw [getElem?_repeated, Nat.sub_zero]
  by_cases hid : a.id = id
  · simp only [hid, true_and, Nat.zero_le, if_true]
  · rw [if_neg fun hin => hid hin.1, if_neg fun hin => hid hin.1]

/-- What a device holds after a call is told by the events with this one. -/
theorem Told.came {c : DeviceCall} {answer : Except DeviceError DeviceAnswer} (h : d.Told es)
    (hc : d.Came c answer d') : d'.Told (⟨c, answer⟩ :: es) := by
  cases hc with
  | refused c e =>
    -- Whatever the call was, only an answer tells something.
    exact h.idle (fun _ => rfl) (fun _ => by cases c <;> rfl) fun _ _ => by cases c <;> rfl
  | allocated ha | imaged _ ha => exact h.granted ha (fun _ => rfl) (fun _ => rfl) fun _ _ => rfl
  | freed hd =>
    unfold Device.deallocate at hd
    split at hd <;> cases hd
    exact h.freed (fun _ => rfl) (fun _ => rfl) fun _ _ => rfl
  | read _ => exact h.idle (fun _ => rfl) (fun _ => rfl) fun _ _ => rfl
  | written hw =>
    obtain ⟨data, hd, hle, rfl⟩ := write_eq_ok_iff.1 hw
    exact h.patched hd hle (fun _ => rfl) (fun _ => rfl) fun _ _ => rfl
  | @filled a pattern _ hf =>
    obtain ⟨data, hd, hle, rfl⟩ := fill_eq_ok_iff.1 hf
    have hle : 0 + (repeated pattern a.size).length ≤ data.size := by
      rw [length_repeated]
      omega
    exact h.patched hd hle (fun _ => rfl) (fun _ => rfl) (put?_fill a pattern .done)

end Device

namespace DeviceRun

variable {limit : Option Nat} {reservable : Nat} {d : Device} {es : List DeviceEvent}

/-- A device holds what the calls on it tell. -/
theorem tells (r : DeviceRun limit reservable d es) : d.Told es := by
  induction r with
  | start => exact .create limit reservable
  | step c _ ih => exact ih.came (Device.came c _)

/-- A device is a map from ids to bytes. What is live is as large as it was made; an access
succeeds iff it lies inside; a read answers with the last bytes put there; a write and a fill leave
other bytes alone, and a refused call all of them. -/
theorem map_of_bytes (r : DeviceRun limit reservable d es) :
    (∀ id, (d.memory.find? id).map Array.size = liveSize? id es) ∧
    (∀ (c : DeviceCall) a d', c.action.on d = (.ok (.granted a), d') →
      c.size? = some a.size ∧ liveSize? a.id es = none) ∧
    (∀ p length, (∃ bytes, d.read p length = .ok bytes) ↔ Inside es p length) ∧
    (∀ p bytes, (∃ d', d.write p bytes = .ok d') ↔ Inside es p bytes.length) ∧
    (∀ a pattern, (∃ d', d.fill a pattern = .ok d') ↔ Inside es ⟨a, 0⟩ a.size) ∧
    (∀ p length bytes, d.read p length = .ok bytes →
      bytes = List.ofFn fun i : Fin length => lastByte p.allocation.id (p.offset + i) es) ∧
    (∀ p bytes d', d.write p bytes = .ok d' → ∀ id i,
      (id = p.allocation.id → i < p.offset ∨ p.offset + bytes.length ≤ i) →
      d'.byte? id i = d.byte? id i) ∧
    (∀ a pattern d', d.fill a pattern = .ok d' → ∀ id i,
      (id = a.id → a.size ≤ i) → d'.byte? id i = d.byte? id i) ∧
    (∀ (c : DeviceCall) e d', c.action.on d = (.error e, d') → d' = d) := by
  have ht := r.tells
  refine ⟨ht.size, ?_, ?_, ?_, ?_, ?_, ?_, ?_, ?_⟩
  · intro c a d'
    exact ht.made
  · intro p length
    exact Outcome.exists_bind_pure_iff.trans ht.inside_iff
  · intro p bytes
    exact Outcome.exists_bind_pure_iff.trans ht.inside_iff
  · intro a pattern
    exact Outcome.exists_bind_pure_iff.trans ht.inside_iff
  · intro p length bytes
    exact ht.read
  · intro p bytes d' hw id i
    exact Device.byte?_write hw
  · intro a pattern d' hf id i
    exact Device.byte?_fill hf
  · intro c e d'
    exact Device.action_error

/-- With handles of a wrong size, an access far outside, a fill that ends within the pattern, and
an allocation that is freed. -/
theorem map_of_bytes_made_up_handles : ∃ d es, DeviceRun none (2 ^ 20) d es ∧
    es.map (·.call) = [
      .read ⟨⟨1, 4⟩, 0⟩ 1, .deallocate ⟨1, 0⟩, .allocate 4, .write ⟨⟨0, 6⟩, 2 ^ 64 - 1⟩ [7],
      .write ⟨⟨0, 999⟩, 1⟩ [9, 9], .fill ⟨0, 5⟩ 0x04030201, .allocate 6] ∧
    d.read ⟨⟨0, 0⟩, 0⟩ 6 = .ok [1, 9, 9, 4, 1, 0] ∧
    [1, 9, 9, 4, 1, 0] = List.ofFn fun i : Fin 6 => lastByte 0 (0 + i) es := by
  have r : DeviceRun none (2 ^ 20) _ _ := .step (.read ⟨⟨1, 4⟩, 0⟩ 1) <| .step (.deallocate ⟨1, 0⟩) <|
    .step (.allocate 4) <| .step (.write ⟨⟨0, 6⟩, 2 ^ 64 - 1⟩ [7]) <|
    .step (.write ⟨⟨0, 999⟩, 1⟩ [9, 9]) <| .step (.fill ⟨0, 5⟩ 0x04030201) <|
    .step (.allocate 6) .start
  obtain ⟨-, -, -, -, -, hread, -⟩ := r.map_of_bytes
  refine ⟨_, _, r, rfl, ?_, hread ⟨⟨0, 0⟩, 0⟩ 6 _ ?_⟩
  · decide
  · decide

end DeviceRun
end FieldCompute
