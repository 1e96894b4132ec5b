import Mathlib.Data.List.Forall2
/-!
# Outcomes

Checks and operations without state answer with `Except`. These rules open such a computation step
by step, so that later proofs speak of answers and errors only.
-/

namespace FieldCompute.Outcome

variable {ε ε' α β : Type}

@[simp] theorem pure_eq (x : α) : (pure x : Except ε α) = .ok x := rfl

@[simp] theorem throw_eq (e : ε) : (throw e : Except ε α) = .error e := rfl

@[simp] theorem ok_bind (x : α) (f : α → Except ε β) : (.ok x : Except ε α) >>= f = f x := rfl

@[simp] theorem error_bind (e : ε) (f : α → Except ε β) :
    (.error e : Except ε α) >>= f = .error e := rfl

@[simp] theorem map_ok (f : α → β) (x : α) : f <$> (.ok x : Except ε α) = .ok (f x) := rfl

@[simp] theorem map_error (f : α → β) (e : ε) : f <$> (.error e : Except ε α) = .error e := rfl

@[simp] theorem mapError_ok (f : ε → ε') (x : α) :
    (.ok x : Except ε α).mapError f = .ok x := rfl

@[simp] theorem mapError_error (f : ε → ε') (e : ε) :
    (.error e : Except ε α).mapError f = .error (f e) := rfl

theorem bind_eq_ok_iff {x : Except ε α} {f : α → Except ε β} {y : β} :
    x >>= f = .ok y ↔ ∃ a, x = .ok a ∧ f a = .ok y := by
  cases x <;> simp

theorem bind_eq_error_iff {x : Except ε α} {f : α → Except ε β} {e : ε} :
    x >>= f = .error e ↔ x = .error e ∨ ∃ a, x = .ok a ∧ f a = .error e := by
  cases x <;> simp

theorem map_eq_ok_iff {x : Except ε α} {f : α → β} {y : β} :
    f <$> x = .ok y ↔ ∃ a, x = .ok a ∧ f a = y := by
  cases x <;> simp

/-- What is done with an answer does not decide whether there is one. -/
theorem exists_bind_pure_iff {x : Except ε α} {f : α → β} :
    (∃ y, (x >>= fun a => pure (f a)) = .ok y) ↔ ∃ a, x = .ok a := by
  cases x <;> simp

/-- A check and then a computation. -/
theorem seq_eq_ok_iff {x : Except ε Unit} {f : Unit → Except ε β} {y : β} :
    x >>= f = .ok y ↔ x = .ok () ∧ f () = .ok y := by
  cases x <;> simp

/-- A list of checks passes if every check does. -/
theorem forM_eq_ok_iff (l : List α) (check : α → Except ε Unit) :
    forM l check = .ok () ↔ ∀ x ∈ l, check x = .ok () := by
  induction l with
  | nil => simp
  | cons x l ih =>
    simp only [List.forM_cons, seq_eq_ok_iff, ih, List.mem_cons, forall_eq_or_imp]

/-- A list of checks stops at the first one that fails. -/
theorem forM_eq_error_iff {l : List α} {check : α → Except ε Unit} {e : ε} :
    forM l check = .error e ↔ ∃ (i : Nat) (x : α), l[i]? = some x ∧ check x = .error e ∧
      ∀ (j : Nat) (y : α), j < i → l[j]? = some y → check y = .ok () := by
  induction l with
  | nil => simp
  | cons x l ih =>
    rw [List.forM_cons, bind_eq_error_iff]
    constructor
    · rintro (h | ⟨_, hx, h⟩)
      · exact ⟨0, x, rfl, h, fun j y hj => absurd hj (Nat.not_lt_zero j)⟩
      · obtain ⟨i, y, hy, he, hbefore⟩ := ih.1 h
        refine ⟨i + 1, y, hy, he, ?_⟩
        rintro (_ | j) z hj hz
        · cases hz
          exact hx
        · exact hbefore j z (by omega) hz
    · rintro ⟨_ | i, y, hy, he, hbefore⟩
      · cases hy
        exact .inl he
      · refine .inr ⟨(), hbefore 0 x (by omega) rfl, ih.2 ⟨i, y, hy, he, ?_⟩⟩
        intro j z hj hz
        exact hbefore (j + 1) z (by omega) hz

/-- A list maps to an answer if every element does. -/
theorem mapM_eq_ok_iff {l : List α} {f : α → Except ε β} {ys : List β} :
    l.mapM f = .ok ys ↔ List.Forall₂ (fun x y => f x = .ok y) l ys := by
  induction l generalizing ys with
  | nil => cases ys <;> simp
  | cons x l ih =>
    simp only [List.mapM_cons, bind_eq_ok_iff, ih, pure_eq, Except.ok.injEq]
    constructor
    · rintro ⟨y, hy, zs, hzs, rfl⟩
      exact .cons hy hzs
    · rintro (_ | ⟨hy, hzs⟩)
      exact ⟨_, hy, _, hzs, rfl⟩

/-- If a list does not map to an answer, one of its elements does not. -/
theorem exists_of_mapM_eq_error {l : List α} {f : α → Except ε β} {e : ε}
    (h : l.mapM f = .error e) : ∃ x ∈ l, f x = .error e := by
  induction l with
  | nil => simp at h
  | cons x l ih =>
    simp only [List.mapM_cons, bind_eq_error_iff] at h
    rcases h with h | ⟨y, -, h | ⟨ys, -, h⟩⟩
    · exact ⟨x, by simp, h⟩
    · obtain ⟨z, hz, h⟩ := ih h
      exact ⟨z, by simp [hz], h⟩
    · simp at h

end FieldCompute.Outcome
