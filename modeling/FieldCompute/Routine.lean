/-!
# Routines

A routine runs on a state and succeeds or fails. Either way it gives the state in which it ended:
what it did before it failed stays done. The lemmas say what `on` makes of each way to build a
routine.
-/

namespace FieldCompute

/-- An operation on a state of type `σ` that may fail with an `ε`. -/
abbrev Routine (σ ε α : Type) := ExceptT ε (StateM σ) α

namespace Routine

variable {σ τ ε ε' α β : Type}

/-- Runs the routine on a state: its answer and the state in which it ended. -/
def on (a : Routine σ ε α) (s : σ) : Except ε α × σ := StateT.run (ExceptT.run a) s

/-- The routine that `f` describes. -/
def of (f : σ → Except ε α × σ) : Routine σ ε α := ExceptT.mk fun s => f s

/-- An answer that does not touch the state. -/
def answer (r : Except ε α) : Routine σ ε α := of fun s => (r, s)

/-- Replaces the errors of a routine. -/
def mapError (f : ε → ε') (a : Routine σ ε α) : Routine σ ε' α :=
  of fun s =>
    match a.on s with
    | (.ok x, s) => (.ok x, s)
    | (.error e, s) => (.error (f e), s)

/-- Runs a routine on a part of the state. -/
def zoom (get : τ → σ) (put : σ → τ → τ) (a : Routine σ ε α) : Routine τ ε α :=
  of fun t =>
    let (r, s) := a.on (get t)
    (r, put s t)

/-- Makes the outcome of a routine an answer, so that a failure does not end what follows. -/
def attempt (a : Routine σ ε α) : Routine σ ε' (Except ε α) :=
  of fun s =>
    let (r, s) := a.on s
    (.ok r, s)

@[simp] theorem on_of (f : σ → Except ε α × σ) (s : σ) : (of f).on s = f s := rfl

@[simp] theorem on_pure (x : α) (s : σ) : (pure x : Routine σ ε α).on s = (.ok x, s) := rfl

@[simp] theorem on_throw (e : ε) (s : σ) : (throw e : Routine σ ε α).on s = (.error e, s) := rfl

@[simp] theorem on_get (s : σ) : (get : Routine σ ε σ).on s = (.ok s, s) := rfl

@[simp] theorem on_set (s s' : σ) : (set s' : Routine σ ε PUnit).on s = (.ok ⟨⟩, s') := rfl

@[simp] theorem on_modify (f : σ → σ) (s : σ) :
    (modify f : Routine σ ε PUnit).on s = (.ok ⟨⟩, f s) := rfl

@[simp] theorem on_answer (r : Except ε α) (s : σ) : (answer r : Routine σ ε α).on s = (r, s) := rfl

theorem on_bind (a : Routine σ ε α) (f : α → Routine σ ε β) (s : σ) :
    (a >>= f).on s =
      match a.on s with
      | (.ok x, s) => (f x).on s
      | (.error e, s) => (.error e, s) := by
  change (ExceptT.run (a >>= f)) s = _
  simp only [ExceptT.run, bind, ExceptT.bind, ExceptT.mk, StateT.bind, on, StateT.run]
  rcases h : a s with ⟨r, t⟩
  cases r <;> rfl

theorem on_bind_of_ok {a : Routine σ ε α} {f : α → Routine σ ε β} {s t : σ} {x : α}
    (h : a.on s = (.ok x, t)) : (a >>= f).on s = (f x).on t := by rw [on_bind, h]

theorem on_bind_of_error {a : Routine σ ε α} {f : α → Routine σ ε β} {s t : σ} {e : ε}
    (h : a.on s = (.error e, t)) : (a >>= f).on s = (.error e, t) := by rw [on_bind, h]

end Routine

end FieldCompute
