/-!
# Tables

Finite maps that remember the order in which their keys came in. A key keeps its place when its
value changes, and `find?` says what `insert` and `erase` do to every key.
-/

namespace FieldCompute

structure Table (κ ν : Type) where
  entries : List (κ × ν)
deriving Repr

namespace Table

variable {κ ν : Type} [DecidableEq κ]

def empty : Table κ ν := ⟨[]⟩

instance : Inhabited (Table κ ν) := ⟨empty⟩

def size (t : Table κ ν) : Nat := t.entries.length

def keys (t : Table κ ν) : List κ := t.entries.map (·.1)

def values (t : Table κ ν) : List ν := t.entries.map (·.2)

def find? (t : Table κ ν) (k : κ) : Option ν := (t.entries.find? (·.1 = k)).map (·.2)

def contains (t : Table κ ν) (k : κ) : Bool := t.entries.any (·.1 = k)

/-- Changes the value of `k` where it stands, or adds `k` at the end. -/
def insert (t : Table κ ν) (k : κ) (v : ν) : Table κ ν :=
  if t.contains k then ⟨t.entries.map fun e => if e.1 = k then (k, v) else e⟩
  else ⟨t.entries ++ [(k, v)]⟩

def erase (t : Table κ ν) (k : κ) : Table κ ν := ⟨t.entries.filter (·.1 ≠ k)⟩

@[simp] theorem find?_empty (k : κ) : (empty : Table κ ν).find? k = none := rfl

theorem find?_eq_none_iff {t : Table κ ν} {k : κ} : t.find? k = none ↔ t.contains k = false := by
  simp [find?, contains, List.find?_eq_none]

private theorem find?_replaced (l : List (κ × ν)) (k j : κ) (v : ν) :
    ((l.map fun e => if e.1 = k then (k, v) else e).find? (·.1 = j)).map (·.2) =
      if j = k then (l.find? (·.1 = k)).map (fun _ => v) else (l.find? (·.1 = j)).map (·.2) := by
  induction l with
  | nil => simp
  | cons e l ih =>
    simp only [List.map_cons, List.find?_cons]
    by_cases hk : e.1 = k <;> by_cases hj : j = k <;> by_cases he : e.1 = j <;>
      simp_all [eq_comm]

theorem find?_insert (t : Table κ ν) (k j : κ) (v : ν) :
    (t.insert k v).find? j = if j = k then some v else t.find? j := by
  unfold insert
  split
  · rename_i h
    rw [find?, find?_replaced]
    split
    · have hn : t.find? k ≠ none := by rw [ne_eq, find?_eq_none_iff]; simp [h]
      rw [find?] at hn
      cases hf : t.entries.find? (·.1 = k) <;> simp_all
    · rfl
  · rename_i h
    have hn : t.entries.find? (·.1 = k) = none := by
      simpa [find?] using find?_eq_none_iff.2 (Bool.eq_false_iff.2 h)
    simp only [find?, List.find?_append]
    by_cases hj : j = k
    · subst hj; simp [hn]
    · cases hf : t.entries.find? (·.1 = j) <;> simp [hj, Ne.symm hj]

@[simp] theorem find?_insert_self (t : Table κ ν) (k : κ) (v : ν) :
    (t.insert k v).find? k = some v := by simp [find?_insert]

theorem find?_insert_of_ne {t : Table κ ν} {k j : κ} {v : ν} (h : j ≠ k) :
    (t.insert k v).find? j = t.find? j := by simp [find?_insert, h]

theorem find?_erase (t : Table κ ν) (k j : κ) :
    (t.erase k).find? j = if j = k then none else t.find? j := by
  obtain ⟨l⟩ := t
  simp only [erase, find?]
  induction l with
  | nil => simp
  | cons e l ih =>
    by_cases hk : e.1 = k <;> by_cases hj : j = k <;> by_cases he : e.1 = j <;> simp_all

@[simp] theorem find?_erase_self (t : Table κ ν) (k : κ) : (t.erase k).find? k = none := by
  simp [find?_erase]

end Table

end FieldCompute
