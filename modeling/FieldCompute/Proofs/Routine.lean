import FieldCompute.Routine
import FieldCompute.Proofs.Outcome
/-!
# Running routines

What `on` makes of the remaining ways to build a routine, and `Along`: a routine that moves every
state along a relation, whether it succeeds or fails. Routines along a reflexive and transitive
relation compose, so what an operation does to the state is put together from its parts.
-/

namespace FieldCompute.Routine

variable {σ τ ε ε' α β : Type}

@[simp] theorem on_zoom (get : τ → σ) (put : σ → τ → τ) (a : Routine σ ε α) (t : τ) :
    (zoom get put a).on t = ((a.on (get t)).1, put (a.on (get t)).2 t) := rfl

@[simp] theorem on_attempt (a : Routine σ ε α) (s : σ) :
    (a.attempt : Routine σ ε' _).on s = (.ok (a.on s).1, (a.on s).2) := rfl

@[simp] theorem on_mapError (f : ε → ε') (a : Routine σ ε α) (s : σ) :
    (a.mapError f).on s = ((a.on s).1.mapError f, (a.on s).2) := by
  rw [mapError, on_of]
  rcases a.on s with ⟨r | r, t⟩ <;> rfl

@[simp] theorem on_get_bind (f : σ → Routine σ ε β) (s : σ) :
    (get >>= f : Routine σ ε β).on s = (f s).on s := by rw [on_bind, on_get]

@[simp] theorem on_set_bind (t : σ) (f : PUnit → Routine σ ε β) (s : σ) :
    (set t >>= f : Routine σ ε β).on s = (f ⟨⟩).on t := by rw [on_bind, on_set]

@[simp] theorem on_modify_bind (g : σ → σ) (f : PUnit → Routine σ ε β) (s : σ) :
    (modify g >>= f : Routine σ ε β).on s = (f ⟨⟩).on (g s) := by rw [on_bind, on_modify]

@[simp] theorem on_throw_bind (e : ε) (f : α → Routine σ ε β) (s : σ) :
    ((throw e : Routine σ ε α) >>= f).on s = (.error e, s) := by rw [on_bind, on_throw]

@[simp] theorem on_answer_bind (r : Except ε α) (f : α → Routine σ ε β) (s : σ) :
    (answer r >>= f).on s = match r with
      | .ok x => (f x).on s
      | .error e => (.error e, s) := by
  rw [on_bind, on_answer]
  cases r <;> rfl

theorem on_map (f : α → β) (a : Routine σ ε α) (s : σ) :
    (f <$> a).on s = ((a.on s).1.map f, (a.on s).2) := by
  rw [map_eq_pure_bind, on_bind]
  obtain ⟨_ | x, t⟩ := a.on s <;> rfl

/-- What follows and leaves the state alone does not change where a routine ends. -/
theorem on_bind_snd {a : Routine σ ε α} {f : α → Routine σ ε β}
    (h : ∀ x t, ((f x).on t).2 = t) (s : σ) : ((a >>= f).on s).2 = (a.on s).2 := by
  rw [on_bind]
  obtain ⟨_ | x, t⟩ := a.on s
  · rfl
  · exact h x t

/-! ## Along a relation -/

/-- The routine moves every state along `R`. -/
def Along (R : σ → σ → Prop) (a : Routine σ ε α) : Prop := ∀ s, R s (a.on s).2

variable {R : σ → σ → Prop} {a : Routine σ ε α}

/-- A run from one state. What follows may use what the first routine answered. -/
theorem bind_at [IsTrans σ R] {f : α → Routine σ ε β} {s : σ} (ha : R s (a.on s).2)
    (hf : ∀ {t x}, a.on s = (.ok x, t) → R t ((f x).on t).2) : R s ((a >>= f).on s).2 := by
  rw [on_bind]
  cases hs : a.on s with
  | mk r t =>
    rw [hs] at ha
    cases r with
    | error e => exact ha
    | ok x => exact IsTrans.trans _ _ _ ha (hf hs)

namespace Along

theorem mono {R' : σ → σ → Prop} (h : ∀ {s t}, R s t → R' s t) (ha : a.Along R) : a.Along R' :=
  fun s => h (ha s)

theorem ends {s t : σ} {r : Except ε α} (ha : a.Along R) (h : a.on s = (r, t)) : R s t := by
  have hs := ha s
  rwa [h] at hs

theorem attempt (ha : a.Along R) : (a.attempt : Routine σ ε' _).Along R := ha

theorem get_bind {f : σ → Routine σ ε β} (h : ∀ s, R s ((f s).on s).2) :
    (get >>= f : Routine σ ε β).Along R := by
  intro s
  rw [on_get_bind]
  exact h s

section Refl

variable [Std.Refl R]

theorem done (x : α) : (pure x : Routine σ ε α).Along R := Std.Refl.refl

theorem fail (e : ε) : (throw e : Routine σ ε α).Along R := Std.Refl.refl

theorem answer (r : Except ε α) : (answer r).Along R := Std.Refl.refl

end Refl

theorem bind [IsTrans σ R] {f : α → Routine σ ε β} (ha : a.Along R) (hf : ∀ x, (f x).Along R) :
    (a >>= f).Along R := fun s => bind_at (ha s) fun {_ x} _ => hf x _

theorem forM_of_mem [Std.Refl R] [IsTrans σ R] {l : List β} {f : β → Routine σ ε PUnit}
    (hf : ∀ x ∈ l, (f x).Along R) : (l.forM f).Along R := by
  induction l with
  | nil => exact .done _
  | cons x l ih =>
    rw [List.forall_mem_cons] at hf
    exact hf.1.bind fun _ => ih hf.2

theorem forM [Std.Refl R] [IsTrans σ R] (l : List β) {f : β → Routine σ ε PUnit}
    (hf : ∀ x, (f x).Along R) : (l.forM f).Along R := forM_of_mem fun x _ => hf x

end Along

end FieldCompute.Routine
