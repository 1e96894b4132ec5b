import FieldCompute.Device
import FieldCompute.Proofs.Outcome
import FieldCompute.Proofs.Table
/-!
# Device memory

An access succeeds iff its allocation is live and the range stays inside it (`span_eq_ok_iff`). A
write and a fill replace the bytes of one allocation and keep their number, so they leave the
device `Rewritten`: the same allocations under the same ids, each as large as before. What was
written is read back (`read_write_self`), and bytes apart from it are as before.
-/

namespace FieldCompute.Device

variable {d d' d'' : Device} {p : Pointer} {data : Array UInt8}

theorem span_eq_ok_iff {length : Nat} : d.span p length = .ok data ↔
    d.memory.find? p.allocation.id = some data ∧ p.offset + length ≤ data.size := by
  unfold span
  cases h : d.memory.find? p.allocation.id with
  | none => simp
  | some found =>
    simp only [Option.some.injEq]
    constructor
    · intro hd
      split at hd
      · cases hd; exact ⟨rfl, ‹_›⟩
      · cases hd
    · rintro ⟨rfl, hle⟩
      rw [if_pos hle, Outcome.pure_eq]

theorem read_eq_ok_iff {length : Nat} {bytes : List UInt8} : d.read p length = .ok bytes ↔
    ∃ data, d.memory.find? p.allocation.id = some data ∧ p.offset + length ≤ data.size ∧
      (data.extract p.offset (p.offset + length)).toList = bytes := by
  simp only [read, Outcome.bind_eq_ok_iff, span_eq_ok_iff, Outcome.pure_eq, Except.ok.injEq,
    and_assoc]

/-- The bytes of an allocation with those from `offset` on replaced. -/
def patched (data : Array UInt8) (offset : Nat) (bytes : List UInt8) : Array UInt8 :=
  data.extract 0 offset ++ bytes.toArray ++ data.extract (offset + bytes.length) data.size

theorem size_patched {offset : Nat} {bytes : List UInt8} (h : offset + bytes.length ≤ data.size) :
    (patched data offset bytes).size = data.size := by
  simp only [patched, Array.size_append, Array.size_extract, List.size_toArray]
  omega

theorem write_eq_ok_iff {bytes : List UInt8} : d.write p bytes = .ok d' ↔
    ∃ data, d.memory.find? p.allocation.id = some data ∧ p.offset + bytes.length ≤ data.size ∧
      { d with memory := d.memory.insert p.allocation.id (patched data p.offset bytes) } = d' := by
  simp only [write, Outcome.bind_eq_ok_iff, span_eq_ok_iff, Outcome.pure_eq, Except.ok.injEq,
    and_assoc, patched]

/-- The pattern, repeated over `length` bytes. -/
def repeated (pattern : UInt32) (length : Nat) : List UInt8 :=
  List.ofFn fun i : Fin length => patternByte pattern i

@[simp] theorem length_repeated (pattern : UInt32) (length : Nat) :
    (repeated pattern length).length = length := by simp [repeated]

theorem repeated_zero (length : Nat) : repeated 0 length = List.replicate length 0 := by
  apply List.ext_getElem (by simp)
  intro i hi hj
  simp [repeated, patternByte]

/-- All bytes are replaced. -/
theorem patched_all {bytes : List UInt8} (h : data.size = bytes.length) :
    patched data 0 bytes = bytes.toArray := by simp [patched, h]

theorem fill_eq_ok_iff {a : Allocation} {pattern : UInt32} : d.fill a pattern = .ok d' ↔
    ∃ data, d.memory.find? a.id = some data ∧ a.size ≤ data.size ∧
      { d with memory := d.memory.insert a.id (patched data 0 (repeated pattern a.size)) } = d' := by
  simp only [fill, Outcome.bind_eq_ok_iff, span_eq_ok_iff, Outcome.pure_eq, Except.ok.injEq,
    and_assoc, Nat.zero_add, patched, repeated, List.toArray_ofFn, List.length_ofFn,
    Array.extract_zero, Array.empty_append]

/-! ## Bytes change, allocations do not -/

/-- The second device has the allocations of the first, perhaps with other bytes. -/
structure Rewritten (d d' : Device) : Prop where
  keys : d'.memory.keys = d.memory.keys
  size (id : Nat) : (d'.memory.find? id).map Array.size = (d.memory.find? id).map Array.size
  nextId : d'.nextId = d.nextId
  limit : d'.limit = d.limit
  reservable : d'.reservable = d.reservable

namespace Rewritten

theorem refl (d : Device) : Rewritten d d := ⟨rfl, fun _ => rfl, rfl, rfl, rfl⟩

theorem trans (h : Rewritten d d') (h' : Rewritten d' d'') : Rewritten d d'' :=
  ⟨h'.keys.trans h.keys, fun id => (h'.size id).trans (h.size id), h'.nextId.trans h.nextId,
    h'.limit.trans h.limit, h'.reservable.trans h.reservable⟩

/-- There is no such allocation in either device, or there is one of the same size in both. -/
theorem find?_cases (h : d.Rewritten d') (id : Nat) :
    (d'.memory.find? id = none ∧ d.memory.find? id = none) ∨
    ∃ data data', d.memory.find? id = some data ∧ d'.memory.find? id = some data' ∧
      data'.size = data.size := by
  have hsize := h.size id
  cases hd : d.memory.find? id with
  | none =>
    rw [hd, Option.map_none, Option.map_eq_none_iff] at hsize
    exact .inl ⟨hsize, rfl⟩
  | some data =>
    rw [hd, Option.map_some, Option.map_eq_some_iff] at hsize
    obtain ⟨data', hd', hs⟩ := hsize
    exact .inr ⟨data, data', rfl, hd', hs⟩

theorem insert {id : Nat} {data' : Array UInt8} (h : d.memory.find? id = some data)
    (hs : data'.size = data.size) :
    Rewritten d { d with memory := d.memory.insert id data' } where
  keys := Table.keys_insert_of_mem (by simp [h])
  size j := by
    rw [Table.find?_insert]
    split
    · rename_i hj; simp [hj, h, hs]
    · rfl
  nextId := rfl
  limit := rfl
  reservable := rfl

theorem write {bytes : List UInt8} (h : d.write p bytes = .ok d') : Rewritten d d' := by
  obtain ⟨data, hd, hle, rfl⟩ := write_eq_ok_iff.1 h
  exact .insert hd (size_patched hle)

theorem fill {a : Allocation} {pattern : UInt32} (h : d.fill a pattern = .ok d') :
    Rewritten d d' := by
  obtain ⟨data, hd, hle, rfl⟩ := fill_eq_ok_iff.1 h
  exact .insert hd (size_patched (by simpa [length_repeated] using hle))

end Rewritten

/-! ## Reading back -/

section Read

variable {q : Pointer} {bytes : List UInt8} {length : Nat}

theorem getElem?_patched {offset : Nat} (h : offset + bytes.length ≤ data.size) (i : Nat) :
    (patched data offset bytes)[i]? =
      if offset ≤ i ∧ i < offset + bytes.length then bytes[i - offset]? else data[i]? := by
  have hfront : (data.extract 0 offset).size = offset := by simp; omega
  unfold patched
  rcases Nat.lt_or_ge i offset with hlt | hge
  · rw [if_neg (by omega), Array.append_assoc, Array.getElem?_append_left (by omega),
      Array.getElem?_extract, if_pos (by omega), Nat.zero_add]
  · have hboth : (data.extract 0 offset ++ bytes.toArray).size = offset + bytes.length := by
      rw [Array.size_append, hfront, List.size_toArray]
    rcases Nat.lt_or_ge i (offset + bytes.length) with hin | hout
    · rw [if_pos ⟨hge, hin⟩, Array.getElem?_append_left (by omega),
        Array.getElem?_append_right (by omega), hfront, List.getElem?_toArray]
    · rw [if_neg (by omega), Array.getElem?_append_right (by omega), hboth,
        Array.getElem?_extract]
      split
      · congr 1; omega
      · rw [Array.getElem?_eq_none (by omega)]

theorem getElem?_range (data : Array UInt8) (offset length i : Nat) :
    (data.extract offset (offset + length)).toList[i]? =
      if i < length then data[offset + i]? else none := by
  rw [Array.getElem?_toList, Array.getElem?_extract]
  split
  · rw [if_pos (by omega)]
  · split
    · rw [Array.getElem?_eq_none (by omega)]
    · rfl

/-- A read depends on the bytes of its allocation alone. -/
theorem read_congr (h : d'.memory.find? p.allocation.id = d.memory.find? p.allocation.id) :
    d'.read p length = d.read p length := by rw [read, read, span, span, h]

/-- What was written stands where it was written. -/
theorem read_write_self (h : d.write p bytes = .ok d') : d'.read p bytes.length = .ok bytes := by
  obtain ⟨data, hd, hle, rfl⟩ := write_eq_ok_iff.1 h
  refine read_eq_ok_iff.2 ⟨_, Table.find?_insert_self .., by rwa [size_patched hle], ?_⟩
  apply List.ext_getElem?
  intro i
  rw [getElem?_range, getElem?_patched hle]
  split
  · rw [if_pos (by omega), Nat.add_sub_cancel_left]
  · rw [List.getElem?_eq_none (by omega)]

/-- Bytes apart from those that were written are as before. -/
theorem read_write_of_apart (h : d.write p bytes = .ok d')
    (ha : q.allocation.id = p.allocation.id →
      q.offset + length ≤ p.offset ∨ p.offset + bytes.length ≤ q.offset) :
    d'.read q length = d.read q length := by
  obtain ⟨data, hd, hle, rfl⟩ := write_eq_ok_iff.1 h
  by_cases hid : q.allocation.id = p.allocation.id
  · have ha := ha hid
    rw [read, read, span, span]
    simp only [hid, Table.find?_insert_self, hd, size_patched hle]
    split
    · simp only [Outcome.pure_eq, Outcome.ok_bind, Except.ok.injEq]
      apply List.ext_getElem?
      intro i
      rw [getElem?_range, getElem?_range]
      split
      · rw [getElem?_patched hle, if_neg (by omega)]
      · rfl
    · rfl
  · exact read_congr (Table.find?_insert_of_ne hid)

theorem read_zeros {size : Nat} (h : d.memory.find? p.allocation.id = some (.replicate size 0))
    (hle : p.offset + length ≤ size) : d.read p length = .ok (.replicate length 0) := by
  refine read_eq_ok_iff.2 ⟨_, h, by simpa using hle, ?_⟩
  apply List.ext_getElem?
  intro i
  rw [getElem?_range, Array.getElem?_replicate, List.getElem?_replicate]
  split
  · rw [if_pos (by omega)]
  · rfl

end Read

end FieldCompute.Device
