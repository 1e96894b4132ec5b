import FieldCompute.Proofs.Routine
/-!
# Two runs side by side

`Abreast R Q a b s t` compares the run of `a` from `s` with the run of `b` from `t`: `Q` relates the
answers and `R` the states in which they end. A routine `Respects R` if from related states it gives
the same answer and ends in related states.
-/

namespace FieldCompute.Routine

variable {σ σ' τ τ' ε ε' α α' β β' : Type} {R : σ → τ → Prop}
  {Q : Except ε α → Except ε' β → Prop} {s : σ} {t : τ}

/-- The same error, or successes that `P` relates. -/
inductive Answers (P : α → β → Prop) : Except ε α → Except ε β → Prop
  | ok {x : α} {y : β} : P x y → Answers P (.ok x) (.ok y)
  | error (e : ε) : Answers P (.error e) (.error e)

theorem Answers.of_eq {r r' : Except ε α} (h : r = r') : Answers Eq r r' := by
  subst h
  cases r with
  | ok x => exact .ok rfl
  | error e => exact .error e

/-- Two runs, each from its state: `Q` relates the answers and `R` the states at the end. -/
def Abreast (R : σ → τ → Prop) (Q : Except ε α → Except ε' β → Prop) (a : Routine σ ε α)
    (b : Routine τ ε' β) (s : σ) (t : τ) : Prop :=
  Q (a.on s).1 (b.on t).1 ∧ R (a.on s).2 (b.on t).2

namespace Abreast

theorem mono {Q' : Except ε α → Except ε' β → Prop} {a : Routine σ ε α} {b : Routine τ ε' β}
    (h : Abreast R Q a b s t) (hq : ∀ {r r'}, Q r r' → Q' r r') : Abreast R Q' a b s t :=
  ⟨hq h.1, h.2⟩

theorem answers {a b : Routine σ ε α} {R : σ → σ → Prop} {s t : σ} (h : Abreast R Eq a b s t) :
    Abreast R (Answers Eq) a b s t := h.mono .of_eq

theorem answer {r : Except ε α} {r' : Except ε' β} (hq : Q r r') (h : R s t) :
    Abreast R Q (answer r) (answer r') s t := ⟨hq, h⟩

theorem attempt {a : Routine σ ε α} {b : Routine τ ε' β} (h : Abreast R Q a b s t) :
    Abreast R (Answers Q) (a.attempt : Routine σ ε _) (b.attempt : Routine τ ε _) s t := by
  rw [Abreast, on_attempt, on_attempt]
  exact ⟨.ok h.1, h.2⟩

theorem get_bind {f : σ → Routine σ ε α} {g : τ → Routine τ ε' β}
    (h : Abreast R Q (f s) (g t) s t) : Abreast R Q (get >>= f) (get >>= g) s t := by
  rw [Abreast, on_get_bind, on_get_bind]
  exact h

theorem set_bind {s' : σ} {t' : τ} {f : PUnit → Routine σ ε α} {g : PUnit → Routine τ ε' β}
    (h : Abreast R Q (f ⟨⟩) (g ⟨⟩) s' t') : Abreast R Q (set s' >>= f) (set t' >>= g) s t := by
  rw [Abreast, on_set_bind, on_set_bind]
  exact h

/-- What follows is compared only if both succeed. -/
theorem bind {Q : Except ε α' → Except ε β' → Prop} {P : α → β → Prop} {a : Routine σ ε α}
    {b : Routine τ ε β} {f : α → Routine σ ε α'} {g : β → Routine τ ε β'}
    (h : Abreast R (Answers P) a b s t)
    (hf : ∀ {x y s t}, P x y → R s t → Abreast R Q (f x) (g y) s t)
    (he : ∀ e, Q (.error e) (.error e)) : Abreast R Q (a >>= f) (b >>= g) s t := by
  rw [Abreast, on_bind, on_bind]
  rw [Abreast] at h
  generalize a.on s = x at h ⊢
  generalize b.on t = y at h ⊢
  obtain ⟨⟨r, s⟩, r', t⟩ := x, y
  obtain ⟨hanswers, hr⟩ := h
  cases hanswers with
  | ok hp => exact hf hp hr
  | error e => exact ⟨he e, hr⟩

theorem zoom {R' : σ' → τ' → Prop} {a : Routine σ' ε α} {b : Routine τ' ε' β} {get : σ → σ'}
    {put : σ' → σ → σ} {get' : τ → τ'} {put' : τ' → τ → τ}
    (h : Abreast R' Q a b (get s) (get' t)) (hput : ∀ {u v}, R' u v → R (put u s) (put' v t)) :
    Abreast R Q (a.zoom get put) (b.zoom get' put') s t := by
  rw [Abreast, on_zoom, on_zoom]
  exact ⟨h.1, hput h.2⟩

end Abreast

/-! ## One routine -/

/-- From related states the routine gives the same answer and ends in related states. -/
def Respects (R : σ → σ → Prop) (a : Routine σ ε α) : Prop :=
  ∀ s t, R s t → Abreast R Eq a a s t

namespace Respects

variable {R : σ → σ → Prop} {a : Routine σ ε α}

theorem abreast {s t : σ} (h : a.Respects R) (hr : R s t) : Abreast R (Answers Eq) a a s t :=
  (h s t hr).answers

theorem done (x : α) : (pure x : Routine σ ε α).Respects R := fun _ _ h => ⟨rfl, h⟩

theorem fail (e : ε) : (throw e : Routine σ ε α).Respects R := fun _ _ h => ⟨rfl, h⟩

theorem answer (r : Except ε α) : (Routine.answer r).Respects R := fun _ _ h => ⟨rfl, h⟩

theorem get_bind {f : σ → Routine σ ε β} (h : ∀ {s t}, R s t → Abreast R Eq (f s) (f t) s t) :
    (get >>= f : Routine σ ε β).Respects R := fun _ _ hr => .get_bind (h hr)

theorem modify {g : σ → σ} (h : ∀ {s t}, R s t → R (g s) (g t)) :
    (modify g : Routine σ ε PUnit).Respects R := fun _ _ hr => ⟨rfl, h hr⟩

theorem bind {f : α → Routine σ ε β} (ha : a.Respects R) (hf : ∀ x, (f x).Respects R) :
    (a >>= f).Respects R := by
  intro s t hr
  refine (ha.abreast hr).bind (fun {x y u v} hxy hr => ?_) fun _ => rfl
  subst hxy
  exact hf x u v hr

theorem map (f : α → β) (ha : a.Respects R) : (f <$> a).Respects R := by
  intro s t hr
  obtain ⟨hanswer, hr⟩ := ha s t hr
  rw [Abreast, on_map, on_map, hanswer]
  exact ⟨rfl, hr⟩

theorem attempt (ha : a.Respects R) : (a.attempt : Routine σ ε' _).Respects R := by
  intro s t hr
  obtain ⟨hanswer, hr⟩ := ha s t hr
  rw [Abreast, on_attempt, on_attempt, hanswer]
  exact ⟨rfl, hr⟩

theorem zoom {R' : τ → τ → Prop} {get : τ → σ} {put : σ → τ → τ} (ha : a.Respects R)
    (hget : ∀ {u v}, R' u v → R (get u) (get v))
    (hput : ∀ {u v s t}, R' u v → R s t → R' (put s u) (put t v)) :
    (a.zoom get put).Respects R' := fun _ _ h => .zoom (ha _ _ (hget h)) (hput h)

theorem forM (l : List β) {f : β → Routine σ ε PUnit} (hf : ∀ x, (f x).Respects R) :
    (l.forM f).Respects R := by
  induction l with
  | nil => exact done _
  | cons x l ih => exact (hf x).bind fun _ => ih

theorem mapM (l : List β) {f : β → Routine σ ε α} (hf : ∀ x ∈ l, (f x).Respects R) :
    (l.mapM f).Respects R := by
  induction l with
  | nil => exact done _
  | cons x l ih =>
    obtain ⟨hx, hl⟩ := List.forall_mem_cons.1 hf
    rw [List.mapM_cons]
    exact hx.bind fun _ => (ih hl).bind fun _ => done _

end Respects

end FieldCompute.Routine
