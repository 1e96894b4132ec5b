import FieldCompute.Proofs.Size
import FieldCompute.Tree.Packing
import Mathlib.Data.List.Forall2
import Mathlib.Data.List.Nodup
import Mathlib.Data.List.Pairwise
import Mathlib.Tactic.Ring
/-!
# Where elements lie

In a packing the elements of all fields lie apart from each other and inside its size
(`Packing.Lays`), and computing the offset of an element never leaves the range of sizes on the way
(`FieldSlot.Fits.checkedOffset_eq`).
-/

namespace FieldCompute

theorem Size.dvd_alignUp {unit : Nat} (h : 0 < unit) (offset : Nat) :
    unit ∣ Size.alignUp offset unit := by
  have hlt := Nat.mod_lt offset h
  have hround : offset + (unit - offset % unit) = unit * (offset / unit + 1) := by
    have := Nat.div_add_mod offset unit
    rw [Nat.mul_add]
    omega
  refine Nat.dvd_of_mod_eq_zero ?_
  rw [Size.alignUp, Nat.add_mod, Nat.mod_mod, ← Nat.add_mod, hround, Nat.mul_mod_right]

theorem Scalar.bytes_pos (s : Scalar) : 0 < s.bytes := by cases s <;> decide

/-! ## One field -/

/-- The number of the element, with every step of the computation checked: the outer option is
`none` where a number leaves the range of sizes. -/
def checkedRowMajor (before : Nat) : List Nat → List Int → Option (Option Nat)
  | [], [] => some (some before)
  | extent :: shape, index :: indices =>
    if 0 ≤ index ∧ index < extent then do
      let row ← Size.mul? before extent
      checkedRowMajor (← Size.add? row index.toNat) shape indices
    else some none
  | _, _ => some none

/-- The index tuple is one of an element of this shape. -/
def Within (shape : List Nat) (indices : List Int) : Prop :=
  List.Forall₂ (fun (index : Int) (extent : Nat) => 0 ≤ index ∧ index < extent) indices shape

theorem rowMajor?_eq_some_iff {shape : List Nat} {indices : List Int} (before : Nat) :
    (∃ n, rowMajor? before shape indices = some n) ↔ Within shape indices := by
  induction shape generalizing before indices with
  | nil =>
    cases indices with
    | nil => exact ⟨fun _ => .nil, fun _ => ⟨_, rfl⟩⟩
    | cons index indices => exact ⟨fun ⟨_, h⟩ => (by cases h), fun h => (by cases h)⟩
  | cons extent shape ih =>
    cases indices with
    | nil => exact ⟨fun ⟨_, h⟩ => (by cases h), fun h => (by cases h)⟩
    | cons index indices =>
      rw [rowMajor?, Within, List.forall₂_cons]
      split
      · rename_i h
        rw [ih]
        exact (and_iff_right h).symm
      · rename_i h
        simp [h]

theorem mul_add_lt {before extent index total : Nat} (hi : index < extent) :
    (before * extent + index + 1) * total ≤ (before + 1) * total * extent := by
  have h : before * extent + index + 1 ≤ (before + 1) * extent := by
    rw [Nat.succ_mul]; omega
  calc (before * extent + index + 1) * total ≤ (before + 1) * extent * total :=
        Nat.mul_le_mul_right _ h
    _ = (before + 1) * total * extent := by ring

/-- The element lies behind `before` full rows and inside the field. -/
theorem rowMajor?_lt {shape : List Nat} {indices : List Int} {width before start n : Nat}
    (h : rowMajor? before shape indices = some n) (hb : (before + 1) * width ≤ start) :
    (n + 1) * width ≤ start * shape.prod := by
  induction shape generalizing before start indices with
  | nil =>
    cases indices <;> cases h
    simpa using hb
  | cons extent shape ih =>
    cases indices with
    | nil => cases h
    | cons index indices =>
      rw [rowMajor?] at h
      split at h
      · rename_i hi
        rw [List.prod_cons, ← Nat.mul_assoc]
        refine ih h ((mul_add_lt (by omega)).trans (Nat.mul_le_mul_right _ hb))
      · cases h

/-- Different elements have different numbers. -/
theorem rowMajor?_inj {shape : List Nat} {is js : List Int} {before before' n : Nat}
    (h : rowMajor? before shape is = some n) (h' : rowMajor? before' shape js = some n) :
    before = before' ∧ is = js := by
  induction shape generalizing before before' is js with
  | nil =>
    cases is <;> cases h
    cases js <;> cases h'
    exact ⟨rfl, rfl⟩
  | cons extent shape ih =>
    cases is with
    | nil => cases h
    | cons i is =>
      cases js with
      | nil => cases h'
      | cons j js =>
        rw [rowMajor?] at h h'
        split at h
        · split at h'
          · rename_i hi hj
            obtain ⟨he, rfl⟩ := ih h h'
            -- Division by the extent gives back the row, and its remainder the index.
            obtain ⟨hb, hi'⟩ := (Nat.div_mod_unique (a := before * extent + i.toNat) (by omega)).2
              ⟨by rw [Nat.mul_comm, Nat.add_comm], show i.toNat < extent by omega⟩
            obtain ⟨hb', hj'⟩ := (Nat.div_mod_unique (a := before' * extent + j.toNat) (by omega)).2
              ⟨by rw [Nat.mul_comm, Nat.add_comm], show j.toNat < extent by omega⟩
            rw [he] at hb hi'
            refine ⟨hb.symm.trans hb', ?_⟩
            have hij : i.toNat = j.toNat := hi'.symm.trans hj'
            rw [show i = j by omega]
          · cases h'
        · cases h

theorem not_within_iff {shape : List Nat} {indices : List Int} : ¬ Within shape indices ↔
    indices.length ≠ shape.length ∨
      ∃ axis ∈ indices.zip shape, axis.1 < 0 ∨ (axis.2 : Int) ≤ axis.1 := by
  simp only [Within, List.forall₂_iff_zip, not_and_or, not_forall, Prod.exists, exists_prop, not_le,
    not_lt, ne_eq]

/-- Where rows are counted up to a product that is a size, nothing leaves the range. -/
theorem checkedRowMajor_eq {shape : List Nat} {indices : List Int} {before start total : Nat}
    (h : Size.product? start shape = some total) (hb : before < start) :
    checkedRowMajor before shape indices = some (rowMajor? before shape indices) := by
  induction shape generalizing before start indices with
  | nil => cases indices <;> rfl
  | cons extent shape ih =>
    cases indices with
    | nil => rfl
    | cons index indices =>
      simp only [Size.product?_cons, Option.bind_eq_some_iff, Size.mul?,
        Size.fit?_eq_some_iff] at h
      obtain ⟨m, ⟨rfl, hm⟩, h⟩ := h
      rw [checkedRowMajor, rowMajor?]
      split
      · rename_i hi
        -- Rows before this one stay fewer than all rows, and all of them are a size.
        have hrow : before * extent + index.toNat < start * extent := by
          have := Nat.mul_le_mul_right extent (Nat.succ_le_of_lt hb)
          rw [Nat.succ_mul] at this
          omega
        have hmul : Size.mul? before extent = some (before * extent) :=
          Size.fit?_eq_some_iff.2 ⟨rfl, by omega⟩
        have hadd : Size.add? (before * extent) index.toNat = some (before * extent + index.toNat) :=
          Size.fit?_eq_some_iff.2 ⟨rfl, by omega⟩
        simp only [hmul, hadd, Option.bind_eq_bind, Option.bind_some]
        exact ih h hrow
      · rfl

namespace FieldSlot

variable {f g : FieldSlot} {indices : List Int} {x : Nat}

/-- Where the field ends. -/
def finish (f : FieldSlot) : Nat := f.offset + f.place.scalar.bytes * f.place.shape.prod

/-- The offset of an element, with every step of the computation checked: the outer option is
`none` where a number leaves the range of sizes. -/
def checkedOffset (f : FieldSlot) (indices : List Int) : Option (Option Nat) :=
  if indices.length ≠ f.place.shape.length then some none
  else do
    match ← checkedRowMajor 0 f.place.shape indices with
    | none => some none
    | some n => some <$> Size.add? f.offset (← Size.mul? n f.place.scalar.bytes)

/-- The field ends within the range of sizes, and so do its rows. -/
structure Fits (f : FieldSlot) : Prop where
  product : ∃ total, Size.product? f.place.scalar.bytes f.place.shape = some total
  finish : f.finish < Size.bound

theorem elementOffset?_inside (h : f.elementOffset? indices = some x) :
    f.offset ≤ x ∧ x + f.place.scalar.bytes ≤ f.finish := by
  obtain ⟨n, hn, rfl⟩ := Option.map_eq_some_iff.1 h
  have := rowMajor?_lt hn (Nat.le_of_eq (Nat.one_mul f.place.scalar.bytes))
  rw [Nat.succ_mul] at this
  simp only [finish]
  omega

theorem exists_elementOffset? :
    (∃ x, f.elementOffset? indices = some x) ↔ Within f.place.shape indices := by
  rw [← rowMajor?_eq_some_iff 0]
  simp [elementOffset?]

theorem elementOffset?_eq_none_iff : f.elementOffset? indices = none ↔
    indices.length ≠ f.place.shape.length ∨
      ∃ axis ∈ indices.zip f.place.shape, axis.1 < 0 ∨ (axis.2 : Int) ≤ axis.1 := by
  rw [← not_within_iff, ← exists_elementOffset?, Option.eq_none_iff_forall_ne_some, not_exists]

/-- The elements are aligned if the first one is. -/
theorem dvd_elementOffset? (hf : f.place.scalar.bytes ∣ f.offset)
    (h : f.elementOffset? indices = some x) : f.place.scalar.bytes ∣ x := by
  obtain ⟨n, -, rfl⟩ := Option.map_eq_some_iff.1 h
  exact Nat.dvd_add hf (Nat.dvd_mul_left ..)

/-- Two elements of a field are apart. -/
theorem elementOffset?_apart {is js : List Int} {y : Nat} (hx : f.elementOffset? is = some x)
    (hy : f.elementOffset? js = some y) (hne : is ≠ js) :
    x + f.place.scalar.bytes ≤ y ∨ y + f.place.scalar.bytes ≤ x := by
  obtain ⟨m, hm, rfl⟩ := Option.map_eq_some_iff.1 hx
  obtain ⟨n, hn, rfl⟩ := Option.map_eq_some_iff.1 hy
  have hmn : m ≠ n := by
    rintro rfl
    exact hne (rowMajor?_inj hm hn).2
  rcases Nat.lt_or_gt_of_ne hmn with h | h
  · have := Nat.mul_le_mul_right f.place.scalar.bytes (Nat.succ_le_of_lt h)
    rw [Nat.succ_mul] at this
    omega
  · have := Nat.mul_le_mul_right f.place.scalar.bytes (Nat.succ_le_of_lt h)
    rw [Nat.succ_mul] at this
    omega

theorem Fits.checkedOffset_eq (h : f.Fits) (indices : List Int) :
    f.checkedOffset indices = some (f.elementOffset? indices) := by
  obtain ⟨total, ht⟩ := h.product
  unfold checkedOffset
  split
  · rename_i hl
    cases he : f.elementOffset? indices with
    | none => rfl
    | some x => exact absurd (exists_elementOffset?.1 ⟨x, he⟩).length_eq hl
  · rw [checkedRowMajor_eq ht f.place.scalar.bytes_pos]
    cases hn : rowMajor? 0 f.place.shape indices with
    | none => simp [elementOffset?, hn]
    | some n =>
      have he : f.elementOffset? indices = some (f.offset + n * f.place.scalar.bytes) := by
        simp [elementOffset?, hn]
      have hfinish := h.finish
      have hinside := (elementOffset?_inside he).2
      have hmul : Size.mul? n f.place.scalar.bytes = some (n * f.place.scalar.bytes) :=
        Size.fit?_eq_some_iff.2 ⟨rfl, by omega⟩
      have hadd : Size.add? f.offset (n * f.place.scalar.bytes) =
          some (f.offset + n * f.place.scalar.bytes) := Size.fit?_eq_some_iff.2 ⟨rfl, by omega⟩
      simp [he, hmul, hadd]

end FieldSlot

/-! ## All fields of a tree -/

namespace Packing

variable {p : Packing} {f g : FieldSlot}

/-- The fields hold the places one after the other, each aligned to its elements, between the offset
and the size. -/
structure Lays (p : Packing) (offset : Nat) (places : List Place) : Prop where
  places : p.fields.map (·.place) = places
  start : offset ≤ p.size
  fits : ∀ f ∈ p.fields, f.Fits
  aligned : ∀ f ∈ p.fields, f.place.scalar.bytes ∣ f.offset
  within : ∀ f ∈ p.fields, offset ≤ f.offset ∧ f.finish ≤ p.size
  apart : p.fields.Pairwise fun f g => f.finish ≤ g.offset

theorem lays_ofPlaces? {offset : Nat} {places : List Place} (h : ofPlaces? offset places = some p) :
    p.Lays offset places := by
  induction places generalizing offset p with
  | nil =>
    cases h
    exact ⟨rfl, Nat.le_refl _, by simp, by simp, by simp, .nil⟩
  | cons place places ih =>
    simp only [ofPlaces?, Option.bind_eq_bind, Option.bind_eq_some_iff, Option.pure_def,
      Option.some.injEq, Size.add?, Size.alignUp?, Size.fit?_eq_some_iff] at h
    obtain ⟨start, ⟨hstart, -⟩, n, hn, finish, ⟨hfinish, hlt⟩, packed, hpacked, rfl⟩ := h
    obtain ⟨-, rfl⟩ := (Size.product?_eq_some_iff place.scalar.bytes_lt_bound).1 hn
    -- The other fields lie behind the end of this one.
    have hl := ih hpacked
    have hle : offset ≤ start := by rw [← hstart, Size.alignUp]; omega
    have hf : (⟨place, start⟩ : FieldSlot).finish = finish := hfinish
    have hfs : finish ≤ packed.size := hl.start
    refine ⟨by simp [hl.places], show offset ≤ packed.size by omega, ?_, ?_, ?_, ?_⟩
    · simp only [List.forall_mem_cons]
      exact ⟨⟨⟨_, hn⟩, hf ▸ hlt⟩, hl.fits⟩
    · simp only [List.forall_mem_cons]
      exact ⟨hstart ▸ Size.dvd_alignUp place.scalar.bytes_pos _, hl.aligned⟩
    · simp only [List.forall_mem_cons]
      refine ⟨⟨hle, hf ▸ hfs⟩, ?_⟩
      intro g hg
      obtain ⟨hg, hgs⟩ := hl.within g hg
      exact ⟨by omega, hgs⟩
    · exact List.pairwise_cons.2 ⟨fun g hg => hf ▸ (hl.within g hg).1, hl.apart⟩

theorem lays_ofTree? {root : Node} (h : ofTree? root = some p) : p.Lays 0 root.places :=
  lays_ofPlaces? h

namespace Lays

variable {offset : Nat} {places : List Place} {is js : List Int} {x y : Nat}

/-- Where ids name places, a place finds its field under its id. -/
theorem field?_of_mem (h : p.Lays offset places) (hid : (places.map (·.id)).Nodup) {place : Place}
    (hp : place ∈ places) : ∃ f ∈ p.fields, p.field? place.id = some f ∧ f.place = place := by
  have hplaces := h.places
  obtain ⟨f, hf, rfl⟩ := List.mem_map.1 (hplaces ▸ hp)
  cases hfind : p.field? f.place.id with
  | none =>
    have := List.find?_eq_none.1 hfind f hf
    simp at this
  | some g =>
    have hg : g ∈ p.fields := List.mem_of_find?_eq_some hfind
    have hgid : g.place.id = f.place.id := by simpa using List.find?_some hfind
    refine ⟨g, hg, rfl, ?_⟩
    exact List.inj_on_of_nodup_map hid (hplaces ▸ List.mem_map.2 ⟨g, hg, rfl⟩) hp hgid

/-- An element stays inside the storage. -/
theorem inside (h : p.Lays offset places) (hf : f ∈ p.fields) (hx : f.elementOffset? is = some x) :
    x + f.place.scalar.bytes ≤ p.size :=
  (f.elementOffset?_inside hx).2.trans (h.within f hf).2

/-- Elements of different fields are apart. -/
theorem fields_apart (h : p.Lays offset places) (hf : f ∈ p.fields) (hg : g ∈ p.fields) (hne : f ≠ g)
    (hx : f.elementOffset? is = some x) (hy : g.elementOffset? js = some y) :
    x + f.place.scalar.bytes ≤ y ∨ y + g.place.scalar.bytes ≤ x := by
  have hxf := f.elementOffset?_inside hx
  have hyg := g.elementOffset?_inside hy
  have : Std.Symm fun f g : FieldSlot => f.finish ≤ g.offset ∨ g.finish ≤ f.offset :=
    ⟨fun _ _ => Or.symm⟩
  have hall : p.fields.Pairwise fun f g => f.finish ≤ g.offset ∨ g.finish ≤ f.offset :=
    h.apart.imp .inl
  rcases hall.forall hf hg hne with hfg | hgf <;> omega

end Lays

end Packing

end FieldCompute
