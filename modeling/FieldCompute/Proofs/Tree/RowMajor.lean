import FieldCompute.Proofs.Tree.Growth
import Mathlib.Data.List.Lex
import Mathlib.Data.Set.List
/-!
# Row-major order

The elements of a field are numbered as an odometer counts: the last index runs fastest. So each
number below the product of the extents is that of one index tuple (`rowMajor?_eq_some_iff_indicesAt`),
and the numbers rise in lexicographic order of the tuples (`rowMajor?_lt_iff`). The offsets of a
field follow (`Packing.offsets_row_major`). A program names an element with signed machine words,
which can name all elements as long as no extent is larger than `2 ^ 63`.
-/

namespace FieldCompute

/-- The index tuple of element number `n`. -/
def indicesAt : List Nat → Nat → List Int
  | [], _ => []
  | _ :: shape, n => ↑(n / shape.prod) :: indicesAt shape (n % shape.prod)

section Numbers

variable {shape : List Nat} {is js : List Int} {before before' m n : Nat}

theorem rowMajor?_indicesAt (before : Nat) (h : n < shape.prod) :
    rowMajor? before shape (indicesAt shape n) = some (before * shape.prod + n) := by
  induction shape generalizing before n with
  | nil =>
    obtain rfl : n = 0 := by simpa using h
    simp [indicesAt, rowMajor?]
  | cons extent shape ih =>
    rw [List.prod_cons] at h
    have hrow : 0 < shape.prod := Nat.pos_of_lt_mul_left h
    have hindex : n / shape.prod < extent := Nat.div_lt_of_lt_mul (Nat.mul_comm extent _ ▸ h)
    rw [indicesAt, rowMajor?, if_pos ⟨Int.natCast_nonneg _, Int.ofNat_lt.2 hindex⟩, Int.toNat_natCast,
      ih _ (Nat.mod_lt n hrow), List.prod_cons, Option.some.injEq]
    calc (before * extent + n / shape.prod) * shape.prod + n % shape.prod
        = before * (extent * shape.prod) + (shape.prod * (n / shape.prod) + n % shape.prod) := by ring
      _ = before * (extent * shape.prod) + n := by rw [Nat.div_add_mod]

/-- No element lies behind its row. -/
theorem rowMajor?_lt_mul (h : rowMajor? before shape is = some n) :
    n < (before + 1) * shape.prod := by
  have hle : (n + 1) * 1 ≤ (before + 1) * shape.prod := rowMajor?_lt h (Nat.le_of_eq (Nat.mul_one _))
  rwa [Nat.mul_one] at hle

/-- The numbers below the product are those of the elements, each of one of them. -/
theorem rowMajor?_eq_some_iff_indicesAt :
    rowMajor? 0 shape is = some n ↔ n < shape.prod ∧ is = indicesAt shape n := by
  constructor
  · intro h
    have hlt := rowMajor?_lt_mul h
    rw [Nat.zero_add, Nat.one_mul] at hlt
    have hat := rowMajor?_indicesAt 0 hlt
    rw [Nat.zero_mul, Nat.zero_add] at hat
    exact ⟨hlt, (rowMajor?_inj h hat).2⟩
  · rintro ⟨hlt, rfl⟩
    rw [rowMajor?_indicesAt 0 hlt, Nat.zero_mul, Nat.zero_add]

/-- An element lies behind all of the rows before it. -/
theorem le_rowMajor? (h : rowMajor? before shape is = some n) : before * shape.prod ≤ n := by
  induction shape generalizing before is with
  | nil =>
    cases is <;> cases h
    simp
  | cons extent shape ih =>
    cases is with
    | nil => cases h
    | cons i is =>
      rw [rowMajor?] at h
      split at h
      · rw [List.prod_cons, ← Nat.mul_assoc]
        exact (Nat.mul_le_mul_right _ (Nat.le_add_right _ _)).trans (ih h)
      · cases h

/-- An element of an earlier row has a smaller number. -/
theorem rowMajor?_lt_of_lt (h : rowMajor? before shape is = some m)
    (h' : rowMajor? before' shape js = some n) (hlt : before < before') : m < n :=
  calc m < (before + 1) * shape.prod := rowMajor?_lt_mul h
    _ ≤ before' * shape.prod := Nat.mul_le_mul_right _ hlt
    _ ≤ n := le_rowMajor? h'

theorem rowMajor?_lt_of_lex (h : rowMajor? before shape is = some m)
    (h' : rowMajor? before shape js = some n) (hlex : List.Lex (· < ·) is js) : m < n := by
  induction shape generalizing before is js with
  | nil =>
    cases js with
    | nil => cases hlex
    | cons j js => cases h'
  | cons extent shape ih =>
    cases hlex with
    | nil => cases h
    | @rel i is j js hij =>
      rw [rowMajor?] at h h'
      split at h
      · split at h'
        · exact rowMajor?_lt_of_lt h h' (by omega)
        · cases h'
      · cases h
    | @cons i is js hlex =>
      rw [rowMajor?] at h h'
      split at h
      · rename_i hi
        rw [if_pos hi] at h'
        exact ih h h' hlex
      · cases h

/-- The numbers of the elements rise in lexicographic order of their index tuples. -/
theorem rowMajor?_lt_iff (h : rowMajor? before shape is = some m)
    (h' : rowMajor? before shape js = some n) : m < n ↔ List.Lex (· < ·) is js := by
  refine ⟨fun hmn => ?_, rowMajor?_lt_of_lex h h'⟩
  by_contra hlex
  by_cases hlex' : List.Lex (· < ·) js is
  · exact Nat.lt_asymm hmn (rowMajor?_lt_of_lex h' h hlex')
  · obtain rfl := (List.Lex.trichotomous (· < ·)).trichotomous is js hlex hlex'
    obtain rfl := Option.some.inj (h.symm.trans h')
    exact Nat.lt_irrefl _ hmn

/-- Where no extent is above a bound, no index reaches it. -/
theorem Within.lt_of_forall_le {bound : Nat} (h : Within shape is)
    (hs : ∀ extent ∈ shape, extent ≤ bound) : ∀ i ∈ is, i < bound := by
  induction h with
  | nil => simp
  | @cons i extent is shape hi _ ih =>
    rw [List.forall_mem_cons] at hs ⊢
    exact ⟨by omega, ih hs.2⟩

theorem within_indicesAt (h : n < shape.prod) : Within shape (indicesAt shape n) :=
  (rowMajor?_eq_some_iff 0).1 ⟨_, rowMajor?_indicesAt 0 h⟩

/-! ## Machine words as indices -/

theorem nonneg_of_mem_indicesAt {i : Int} (hi : i ∈ indicesAt shape n) : 0 ≤ i := by
  induction shape generalizing n with
  | nil => cases hi
  | cons extent shape ih =>
    rcases List.mem_cons.1 hi with rfl | hi
    · exact Int.natCast_nonneg _
    · exact ih hi

/-- An element can be named with machine words iff none of its indices is too large for them. -/
theorem exists_words_iff : (∃ ws : List Int64, ws.map Int64.toInt = indicesAt shape n) ↔
    ∀ i ∈ indicesAt shape n, i < 2 ^ 63 := by
  rw [← Set.mem_range, Set.range_list_map, Set.mem_ofPred_eq]
  refine forall₂_congr fun i hi => ⟨?_, fun hlt => ?_⟩
  · rintro ⟨w, rfl⟩
    exact w.toInt_lt
  · have hnonneg := nonneg_of_mem_indicesAt hi
    exact ⟨Int64.ofInt i, Int64.toInt_ofInt_of_le (by omega) hlt⟩

end Numbers

/-! ## Offsets -/

namespace FieldSlot

variable {f : FieldSlot} {is js : List Int} {x y n : Nat}

theorem elementOffset?_eq_some_iff : f.elementOffset? is = some x ↔
    ∃ n < f.place.shape.prod, is = indicesAt f.place.shape n ∧
      x = f.offset + n * f.place.scalar.bytes := by
  simp only [elementOffset?, Option.map_eq_some_iff, rowMajor?_eq_some_iff_indicesAt, and_assoc,
    eq_comm (a := x)]

/-- Element number `n` stands at the `n`-th multiple of the element size behind the first one, and
no other element does. -/
theorem elementOffset?_eq_some_mul_iff (hn : n < f.place.shape.prod) :
    f.elementOffset? is = some (f.offset + n * f.place.scalar.bytes) ↔
      is = indicesAt f.place.shape n := by
  rw [elementOffset?_eq_some_iff]
  constructor
  · rintro ⟨m, -, rfl, hm⟩
    rw [Nat.eq_of_mul_eq_mul_right f.place.scalar.bytes_pos (Nat.add_left_cancel hm)]
  · rintro rfl
    exact ⟨n, hn, rfl, rfl⟩

/-- The offsets of elements rise in lexicographic order of their index tuples. -/
theorem elementOffset?_lt_iff (h : f.elementOffset? is = some x) (h' : f.elementOffset? js = some y) :
    x < y ↔ List.Lex (· < ·) is js := by
  obtain ⟨m, hm, rfl⟩ := Option.map_eq_some_iff.1 h
  obtain ⟨n, hn, rfl⟩ := Option.map_eq_some_iff.1 h'
  rw [← rowMajor?_lt_iff hm hn, Nat.add_lt_add_iff_left,
    Nat.mul_lt_mul_right f.place.scalar.bytes_pos]

/-- An element has one name in machine words. -/
theorem words_unique {ws ws' : List Int64} (h : f.elementOffset? (ws.map Int64.toInt) = some x)
    (h' : f.elementOffset? (ws'.map Int64.toInt) = some x) : ws = ws' := by
  obtain ⟨n, hn, hws, rfl⟩ := elementOffset?_eq_some_iff.1 h
  have hws' := (elementOffset?_eq_some_mul_iff hn).1 h'
  exact List.map_injective_iff.2 (fun _ _ => Int64.toInt_inj.1) (hws.trans hws'.symm)

end FieldSlot

/-- The elements of a field that has its place in a packing stand in row-major order, one behind the
other from the start of the field on. Their offsets are computed within the range of sizes. Machine
words name those elements of which no index is too large for them, each in one way; these are all
elements if no extent is above `2 ^ 63`. -/
theorem Packing.offsets_row_major {root : Node} {p : Packing} {f : FieldSlot}
    (hp : Packing.ofTree? root = some p) (hf : f ∈ p.fields) :
    let count := f.place.shape.prod
    let offset (n : Nat) := f.offset + n * f.place.scalar.bytes
    let named? (ws : List Int64) := f.elementOffset? (ws.map Int64.toInt)
    (∀ is, f.checkedOffset is = some (f.elementOffset? is)) ∧
    (∀ is, (∃ x, f.elementOffset? is = some x) ↔ Within f.place.shape is) ∧
    (∀ is js x y, f.elementOffset? is = some x → f.elementOffset? js = some y →
      (x < y ↔ List.Lex (· < ·) is js)) ∧
    (∀ is x, f.elementOffset? is = some x → ∃ n < count, x = offset n) ∧
    (∀ n < count, ∃! is, f.elementOffset? is = some (offset n)) ∧
    (∀ ws ws' x, named? ws = some x → named? ws' = some x → ws = ws') ∧
    (∀ n < count, (∃ ws, named? ws = some (offset n)) ↔
      ∀ i ∈ indicesAt f.place.shape n, i < 2 ^ 63) ∧
    ((∀ extent ∈ f.place.shape, extent ≤ 2 ^ 63) →
      ∀ n < count, ∃! ws, named? ws = some (offset n)) := by
  intro count offset named?
  have hfits := (Packing.lays_ofTree? hp).fits f hf
  have hnamed {n : Nat} (hn : n < count) : (∃ ws, named? ws = some (offset n)) ↔
      ∀ i ∈ indicesAt f.place.shape n, i < 2 ^ 63 := by
    rw [← exists_words_iff]
    exact exists_congr fun ws => FieldSlot.elementOffset?_eq_some_mul_iff hn
  refine ⟨hfits.checkedOffset_eq, fun is => FieldSlot.exists_elementOffset?,
    fun is js x y hx hy => FieldSlot.elementOffset?_lt_iff hx hy, fun is x hx => ?_, fun n hn => ?_,
    fun ws ws' x hx hx' => FieldSlot.words_unique hx hx', fun n hn => hnamed hn, fun hs n hn => ?_⟩
  · obtain ⟨n, hn, -, hx⟩ := FieldSlot.elementOffset?_eq_some_iff.1 hx
    exact ⟨n, hn, hx⟩
  · exact ⟨_, (FieldSlot.elementOffset?_eq_some_mul_iff hn).2 rfl,
      fun is his => (FieldSlot.elementOffset?_eq_some_mul_iff hn).1 his⟩
  · have hsmall := (within_indicesAt hn).lt_of_forall_le hs
    exact existsUnique_of_exists_of_unique ((hnamed hn).2 hsmall) fun _ _ => FieldSlot.words_unique

/-- A flag in front of `2 × 3` doubles: the flag has the one offset zero, and the doubles have the
six multiples of eight from eight on, the last one of the first row before the first one of the
second row. -/
theorem Packing.offsets_row_major_padded :
    let root := Node.mk 0 .root [] [.mk 1 (.place "flag" .int8) [] [],
      .mk 2 (.dense [2, 3]) [2, 3] [.mk 3 (.place "x" .float64) [2, 3] []]]
    let flag : FieldSlot := ⟨⟨1, "flag", .int8, []⟩, 0⟩
    let x : FieldSlot := ⟨⟨3, "x", .float64, [2, 3]⟩, 8⟩
    Packing.ofTree? root = some ⟨[flag, x], 56⟩ ∧
      (∃! ws : List Int64, flag.elementOffset? (ws.map Int64.toInt) = some 0) ∧
      (∀ n < 6, ∃! ws : List Int64, x.elementOffset? (ws.map Int64.toInt) = some (8 + n * 8)) ∧
      (24 < 32 ↔ List.Lex (· < ·) [(0 : Int), 2] [1, 0]) := by
  intro root flag x
  have hp : Packing.ofTree? root = some ⟨[flag, x], 56⟩ := rfl
  obtain ⟨-, -, -, -, -, -, -, hflag⟩ := Packing.offsets_row_major hp (f := flag) (by simp)
  obtain ⟨-, -, hrising, -, -, -, -, hx⟩ := Packing.offsets_row_major hp (f := x) (by simp)
  refine ⟨hp, hflag (by decide) 0 (by decide), hx (by decide), ?_⟩
  exact hrising [0, 2] [1, 0] 24 32 rfl rfl

/-- Of a field with `2 ^ 63 + 1` elements no machine word names the last one: the offset of the last
one that can be named is one less. -/
theorem Packing.last_element_unnamed :
    let root := Node.mk 0 .root [] [.mk 1 (.dense [2 ^ 63 + 1]) [2 ^ 63 + 1]
      [.mk 2 (.place "x" .int8) [2 ^ 63 + 1] []]]
    let f : FieldSlot := ⟨⟨2, "x", .int8, [2 ^ 63 + 1]⟩, 0⟩
    root.Grown ∧ Packing.ofTree? root = some ⟨[f], 2 ^ 63 + 1⟩ ∧ 2 ^ 63 < f.place.shape.prod ∧
      (¬ ∃ ws : List Int64, f.elementOffset? (ws.map Int64.toInt) =
        some (f.offset + 2 ^ 63 * f.place.scalar.bytes)) ∧
      f.elementOffset? ([Int64.maxValue].map Int64.toInt) = some (2 ^ 63 - 1) := by
  intro root f
  have hbuild : (TreePlan.build [.node (.dense [2 ^ 63 + 1])
      [.node (.place "x" (.scalar .int8)) []]] 0).1 = .ok root := rfl
  have hp : Packing.ofTree? root = some ⟨[f], 2 ^ 63 + 1⟩ := rfl
  have hcount : 2 ^ 63 < f.place.shape.prod := by decide
  have hlast : f.elementOffset? ([Int64.maxValue].map Int64.toInt) = some (2 ^ 63 - 1) := by decide
  refine ⟨.build hbuild, hp, hcount, ?_, hlast⟩
  rintro ⟨ws, hws⟩
  have hsmall := exists_words_iff.1 ⟨ws, (FieldSlot.elementOffset?_eq_some_mul_iff hcount).1 hws⟩
  revert hsmall
  decide

end FieldCompute
