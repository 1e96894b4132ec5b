import FieldCompute.Proofs.Tree.Shapes
import Mathlib.Order.Bounds.Basic
/-!
# Trees that fit

`Packing.Packs` packs the places of a tree in numbers without bounds. The checked packing may fail
at the start of a place, at its size and at its end, but each of these is at most the end of the
last place, so it fails exactly if that end is no size (`Packing.Packs.ofPlaces?_eq`). That no axis
has extent zero counts here: otherwise a product could leave the range before it becomes zero.
-/

namespace FieldCompute

theorem Size.isLeast_alignUp {unit : Nat} (h : 0 < unit) (offset : Nat) :
    IsLeast {n | unit ∣ n ∧ offset ≤ n} (Size.alignUp offset unit) := by
  refine ⟨⟨Size.dvd_alignUp h offset, Nat.le_add_right _ _⟩, ?_⟩
  rintro n ⟨hdvd, hle⟩
  by_contra hlt
  -- The distance of the two multiples is one as well, and less than one unit.
  have hdist : unit ∣ Size.alignUp offset unit - n := Nat.dvd_sub (Size.dvd_alignUp h offset) hdvd
  have hpad : (unit - offset % unit) % unit < unit := Nat.mod_lt _ h
  have hpos : Size.alignUp offset unit - n < unit := by unfold Size.alignUp; omega
  have hzero := Nat.eq_zero_of_dvd_of_lt hdist hpos
  omega

namespace Packing

variable {offset : Nat} {places : List Place} {q q' : Packing}

/-- The packing from `offset` on in numbers without bounds: every place starts at the least multiple
of its element size at or after the end of the one before, and the last end is the size. -/
inductive Packs : Nat → List Place → Packing → Prop where
  | nil (offset : Nat) : Packs offset [] ⟨[], offset⟩
  | cons {offset start : Nat} {x : Place} {rest : List Place} {q : Packing}
      (hstart : IsLeast {n | x.scalar.bytes ∣ n ∧ offset ≤ n} start)
      (hrest : Packs (start + x.scalar.bytes * x.shape.prod) rest q) :
      Packs offset (x :: rest) ⟨⟨x, start⟩ :: q.fields, q.size⟩

theorem exists_packs (offset : Nat) (places : List Place) : ∃ q, Packs offset places q := by
  induction places generalizing offset with
  | nil => exact ⟨_, .nil offset⟩
  | cons x rest ih =>
    obtain ⟨q, hq⟩ := ih (Size.alignUp offset x.scalar.bytes + x.scalar.bytes * x.shape.prod)
    exact ⟨_, .cons (Size.isLeast_alignUp x.scalar.bytes_pos offset) hq⟩

/-- The checks of the start, the size and the end of a place are the one of its end. -/
theorem ofPlaces?_cons {x : Place} {rest : List Place} (hx : 0 ∉ x.shape) :
    ofPlaces? offset (x :: rest) =
      let start := Size.alignUp offset x.scalar.bytes
      let finish := start + x.scalar.bytes * x.shape.prod
      if finish < Size.bound then
        (ofPlaces? finish rest).map fun q => ⟨⟨x, start⟩ :: q.fields, q.size⟩
      else none := by
  have hproduct := Size.product?_eq x.scalar.bytes_lt_bound x.shape
  rw [Size.leading_eq_self hx] at hproduct
  rw [ofPlaces?, hproduct]
  simp only [Size.alignUp?, Size.add?, Size.fit?, Option.bind_eq_bind]
  generalize Size.alignUp offset x.scalar.bytes = start
  generalize x.scalar.bytes * x.shape.prod = size
  by_cases hend : start + size < Size.bound
  · have hstart : start < Size.bound := Nat.lt_of_le_of_lt (Nat.le_add_right _ _) hend
    have hsize : size < Size.bound := Nat.lt_of_le_of_lt (Nat.le_add_left _ _) hend
    simp only [hstart, hsize, hend, if_true, Option.bind_some, Option.map_eq_bind]
    rfl
  · rw [if_neg hend]
    by_cases hstart : start < Size.bound
    · by_cases hsize : size < Size.bound
      · simp only [hstart, hsize, hend, if_true, if_false, Option.bind_some, Option.bind_none]
      · simp only [hstart, hsize, if_true, if_false, Option.bind_some, Option.bind_none]
    · simp only [hstart, if_false, Option.bind_none]

namespace Packs

theorem unique (h : Packs offset places q) (h' : Packs offset places q') : q' = q := by
  induction h generalizing q' with
  | nil offset => cases h'; rfl
  | cons hstart _ ih =>
    cases h' with
    | cons hstart' hrest' =>
      obtain rfl := hstart.unique hstart'
      rw [ih hrest']

theorem map_place (h : Packs offset places q) : q.fields.map (·.place) = places := by
  induction h with
  | nil offset => rfl
  | cons _ _ ih => rw [List.map_cons, ih]

theorem le_size (h : Packs offset places q) : offset ≤ q.size := by
  induction h with
  | nil offset => exact Nat.le_refl _
  | cons hstart _ ih => exact hstart.1.2.trans ((Nat.le_add_right _ _).trans ih)

/-- The checked packing is the one without bounds if the end of that is a size, and else there is
none. -/
theorem ofPlaces?_eq (h : Packs offset places q) (hoffset : offset < Size.bound)
    (hpos : ∀ x ∈ places, 0 ∉ x.shape) :
    ofPlaces? offset places = if q.size < Size.bound then some q else none := by
  induction h with
  | nil offset => rw [ofPlaces?, if_pos hoffset]
  | @cons offset start x rest q hstart hrest ih =>
    obtain ⟨hx, hrestpos⟩ := List.forall_mem_cons.1 hpos
    obtain rfl := (Size.isLeast_alignUp x.scalar.bytes_pos offset).unique hstart
    have hfinish := hrest.le_size
    rw [ofPlaces?_cons hx]
    by_cases hend : Size.alignUp offset x.scalar.bytes + x.scalar.bytes * x.shape.prod < Size.bound
    · rw [if_pos hend, ih hend hrestpos]
      dsimp only
      split <;> rfl
    · -- The packing without bounds ends no earlier than this place.
      rw [if_neg hend, if_neg (by dsimp only; omega)]

end Packs

end Packing

/-- A tree has a layout exactly if the packing of its places in numbers without bounds, of which
there is one, ends within the range of sizes; and then this packing is the layout. Its fields are
the places in depth-first order, each once and with the extents of all nodes above it. -/
theorem Node.Grown.layout_iff_fits {root : Node} (h : root.Grown) :
    ∃ q : Packing, (∀ q', Packing.Packs 0 (root.placesBelow []) q' ↔ q' = q) ∧
      q.fields.map (·.place) = root.placesBelow [] ∧ (q.fields.map (·.place.id)).Nodup ∧
      Packing.ofTree? root = if q.size ≤ 2 ^ 64 - 1 then some q else none := by
  obtain ⟨q, hq⟩ := Packing.exists_packs 0 (root.placesBelow [])
  have hplaces := h.places_eq
  refine ⟨q, fun q' => ⟨hq.unique, fun hq' => hq' ▸ hq⟩, hq.map_place, ?_, ?_⟩
  · have hids := h.nodup_placeIds
    rw [hplaces, ← hq.map_place, List.map_map] at hids
    exact hids
  · rw [Packing.ofTree?, hplaces, hq.ofPlaces?_eq (by decide) fun x hx =>
      h.zero_notMem_shape (hplaces ▸ hx)]
    exact if_congr (Nat.lt_iff_le_pred (by decide)) rfl rfl

/-- A flag in front of as many doubles as stand between it and the last address, and of one more:
these would end at `2 ^ 64`. -/
theorem Node.Grown.layout_iff_fits_doubles :
    let root (n : Nat) := mk 0 .root [] [mk 1 (.place "flag" .int8) [] [],
      mk 2 (.dense [n]) [n] [mk 3 (.place "x" .float64) [n] []]]
    let fields (n : Nat) : List FieldSlot :=
      [⟨⟨1, "flag", .int8, []⟩, 0⟩, ⟨⟨3, "x", .float64, [n]⟩, 8⟩]
    (root (2 ^ 61 - 2)).Grown ∧
      Packing.ofTree? (root (2 ^ 61 - 2)) = some ⟨fields (2 ^ 61 - 2), 2 ^ 64 - 8⟩ ∧
    (root (2 ^ 61 - 1)).Grown ∧ Packing.ofTree? (root (2 ^ 61 - 1)) = none := by
  intro root fields
  let plan (n : Nat) : List TreePlan := [.node (.place "flag" (.scalar .int8)) [],
    .node (.dense [n]) [.node (.place "x" (.scalar .float64)) []]]
  have hfits : (TreePlan.build (plan (2 ^ 61 - 2)) 0).1 = .ok (root (2 ^ 61 - 2)) := rfl
  have hpast : (TreePlan.build (plan (2 ^ 61 - 1)) 0).1 = .ok (root (2 ^ 61 - 1)) := rfl
  have hpacks (n : Nat) : Packing.Packs 0 ((root n).placesBelow []) ⟨fields n, 8 + 8 * n⟩ := by
    have hflag : IsLeast {n | Scalar.int8.bytes ∣ n ∧ 0 ≤ n} 0 :=
      Size.isLeast_alignUp Scalar.int8.bytes_pos 0
    have hx : IsLeast {n | Scalar.float64.bytes ∣ n ∧ 1 ≤ n} 8 :=
      Size.isLeast_alignUp Scalar.float64.bytes_pos 1
    have hend : Packing.Packs (8 + 8 * [n].prod) [] ⟨[], 8 + 8 * n⟩ := by
      simpa using Packing.Packs.nil (8 + 8 * n)
    exact .cons (x := ⟨1, "flag", .int8, []⟩) hflag (.cons (x := ⟨3, "x", .float64, [n]⟩) hx hend)
  refine ⟨.build hfits, ?_, .build hpast, ?_⟩
  · obtain ⟨q, huniq, -, -, hq⟩ := layout_iff_fits (.build hfits)
    obtain rfl := (huniq _).1 (hpacks (2 ^ 61 - 2))
    exact hq
  · obtain ⟨q, huniq, -, -, hq⟩ := layout_iff_fits (.build hpast)
    obtain rfl := (huniq _).1 (hpacks (2 ^ 61 - 1))
    exact hq

end FieldCompute
