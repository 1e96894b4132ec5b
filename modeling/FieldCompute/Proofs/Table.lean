import FieldCompute.Table
import Mathlib.Data.List.Nodup
import Mathlib.Data.List.Perm.Basic
/-!
# The contents of tables

A table in which every key stands once is told apart by what it finds: `mem_values_iff`. Inserting
a new key and erasing one add and take one value, up to the order (`values_insert_perm`,
`values_erase_perm`).
-/

namespace FieldCompute.Table

variable {κ ν : Type} [DecidableEq κ] {t : Table κ ν} {k : κ} {v : ν}

theorem contains_eq_isSome (t : Table κ ν) (k : κ) : t.contains k = (t.find? k).isSome := by
  have := find?_eq_none_iff (t := t) (k := k)
  cases h : t.find? k <;> simp_all

theorem mem_keys_iff : k ∈ t.keys ↔ ∃ v, t.find? k = some v := by
  rw [← Option.isSome_iff_exists, ← contains_eq_isSome]
  simp [keys, contains]

theorem find?_of_mem (h : t.keys.Nodup) (hm : (k, v) ∈ t.entries) : t.find? k = some v := by
  obtain ⟨l⟩ := t
  simp only [keys, find?] at h hm ⊢
  induction l with
  | nil => simp at hm
  | cons e l ih =>
    simp only [List.map_cons, List.nodup_cons] at h
    rcases List.mem_cons.1 hm with rfl | hm
    · simp
    · have hne : e.1 ≠ k := by
        intro he
        exact h.1 (List.mem_map.2 ⟨_, hm, he.symm⟩)
      simpa [hne] using ih h.2 hm

theorem mem_of_find? (h : t.find? k = some v) : (k, v) ∈ t.entries := by
  obtain ⟨e, he, rfl⟩ := Option.map_eq_some_iff.1 h
  have hk : e.1 = k := by simpa using List.find?_some he
  rw [← hk]
  exact List.mem_of_find?_eq_some he

theorem mem_values_of_find? (h : t.find? k = some v) : v ∈ t.values :=
  List.mem_map.2 ⟨_, mem_of_find? h, rfl⟩

theorem mem_values_iff (h : t.keys.Nodup) : v ∈ t.values ↔ ∃ k, t.find? k = some v := by
  constructor
  · intro hv
    obtain ⟨⟨k, v⟩, he, rfl⟩ := List.mem_map.1 hv
    exact ⟨k, find?_of_mem h he⟩
  · rintro ⟨k, hk⟩
    exact mem_values_of_find? hk

theorem keys_insert_of_mem (h : t.find? k ≠ none) : (t.insert k v).keys = t.keys := by
  have hc : t.contains k = true := by rw [contains_eq_isSome, Option.isSome_iff_ne_none]; exact h
  simp only [insert, hc, if_true, keys, List.map_map]
  apply List.map_congr_left
  intro e _
  by_cases he : e.1 = k <;> simp [he]

theorem entries_insert_of_not_mem (h : t.find? k = none) :
    (t.insert k v).entries = t.entries ++ [(k, v)] := by
  simp [insert, find?_eq_none_iff.1 h]

theorem nodup_keys_insert (h : t.keys.Nodup) : (t.insert k v).keys.Nodup := by
  cases hk : t.find? k with
  | some u => rwa [keys_insert_of_mem (by simp [hk])]
  | none =>
    rw [keys, entries_insert_of_not_mem hk, List.map_append]
    refine List.nodup_append'.2 ⟨h, List.nodup_singleton _, ?_⟩
    intro j hm hj
    obtain rfl : j = k := List.mem_singleton.1 hj
    obtain ⟨u, hu⟩ := mem_keys_iff.1 hm
    simp [hk] at hu

theorem nodup_keys_erase (h : t.keys.Nodup) : (t.erase k).keys.Nodup :=
  h.sublist ((List.filter_sublist).map _)

theorem find?_of_erase {j : κ} (h : (t.erase k).find? j = some v) : t.find? j = some v := by
  rw [find?_erase] at h
  split at h
  · cases h
  · exact h

theorem erase_eq_self (h : t.find? k = none) : t.erase k = t := by
  have hc := find?_eq_none_iff.1 h
  simp only [contains, List.any_eq_false, decide_eq_true_eq] at hc
  obtain ⟨l⟩ := t
  simp only [erase, mk.injEq, List.filter_eq_self, ne_eq, decide_eq_true_eq]
  exact hc

theorem erase_insert (t : Table κ ν) (k : κ) (v : ν) : (t.insert k v).erase k = t.erase k := by
  obtain ⟨l⟩ := t
  unfold insert
  split
  · simp only [erase, mk.injEq]
    clear *-
    induction l with
    | nil => rfl
    | cons e l ih => by_cases he : e.1 = k <;> simp_all
  · simp [erase]

theorem values_erase_perm (h : t.keys.Nodup) (hk : t.find? k = some v) :
    t.values.Perm (v :: (t.erase k).values) := by
  obtain ⟨l⟩ := t
  simp only [keys, find?, values, erase] at h hk ⊢
  induction l with
  | nil => simp at hk
  | cons e l ih =>
    simp only [List.map_cons, List.nodup_cons] at h
    by_cases he : e.1 = k
    · have hrest : l.filter (fun e => decide (e.1 ≠ k)) = l := by
        rw [List.filter_eq_self]
        intro x hx
        simpa using fun hxk => h.1 (List.mem_map.2 ⟨x, hx, hxk.trans he.symm⟩)
      obtain rfl : e.2 = v := by simpa [he] using hk
      simp only [List.filter_cons, he, ne_eq, not_true_eq_false, decide_false, List.map_cons]
      rw [if_neg (by simp), hrest]
    · have := ih h.2 (by simpa [he] using hk)
      simp only [List.filter_cons, he, ne_eq, not_false_eq_true, decide_true, if_true,
        List.map_cons]
      exact (this.cons _).trans (.swap ..)

theorem values_perm_erase (h : t.keys.Nodup) (k : κ) :
    t.values.Perm ((t.find? k).toList ++ (t.erase k).values) := by
  cases hk : t.find? k with
  | none => rw [erase_eq_self hk]; rfl
  | some v => exact values_erase_perm h hk

theorem values_insert_perm (h : t.keys.Nodup) :
    (t.insert k v).values.Perm (v :: (t.erase k).values) := by
  rw [← erase_insert t k v]
  exact values_erase_perm (nodup_keys_insert h) (find?_insert_self t k v)

/-- A new key adds its value. -/
theorem values_insert_new (hk : t.find? k = none) : (t.insert k v).values = t.values ++ [v] := by
  rw [values, entries_insert_of_not_mem hk, List.map_append]
  rfl

theorem find?_of_sublist {t' : Table κ ν} (h : t.keys.Nodup) (hs : t'.entries.Sublist t.entries)
    (hf : t'.find? k = some v) : t.find? k = some v :=
  find?_of_mem h (hs.subset (mem_of_find? hf))

/-! ## Other values under the same keys -/

section mapValues

variable {ν' : Type} (f : ν → ν') (t : Table κ ν) (k : κ)

/-- The table with another value under each key. -/
def mapValues (t : Table κ ν) : Table κ ν' := ⟨t.entries.map fun e => (e.1, f e.2)⟩

omit [DecidableEq κ] in
theorem values_mapValues : (t.mapValues f).values = t.values.map f := by
  simp [mapValues, values]

theorem contains_mapValues : (t.mapValues f).contains k = t.contains k := by
  simp [mapValues, contains, Function.comp_def]

theorem insert_mapValues (v : ν) : (t.insert k v).mapValues f = (t.mapValues f).insert k (f v) := by
  unfold insert
  rw [contains_mapValues]
  split
  · simp only [mapValues, List.map_map, mk.injEq]
    refine List.map_congr_left fun e _ => ?_
    simp only [Function.comp_apply]
    split <;> rfl
  · simp [mapValues]

theorem erase_mapValues : (t.erase k).mapValues f = (t.mapValues f).erase k := by
  simp [erase, mapValues, List.filter_map, Function.comp_def]

end mapValues

end FieldCompute.Table
