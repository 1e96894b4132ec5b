import FieldCompute.Number.Binary
/-!
# Numbers that need no rounding

A magnitude word is a factor `q` of a power `2 ^ e`, and `nearest` finds the same word again from
its value (`nearest_scaled`). So a number of the 32-bit format survives the way to 64 bits and back
(`toSingle_widen`).
-/

namespace FieldCompute

namespace BinaryFormat

variable (f : BinaryFormat)

/-- `q * 2 ^ e` is written with as few steps as the format allows. -/
def Normal (q e : Nat) : Prop := q < 2 ^ (f.fractionBits + 1) ∧ (e = 0 ∨ 2 ^ f.fractionBits ≤ q)

variable {f}

theorem scaled_of_normal {q e : Nat} (h : f.Normal q e) :
    f.scaled (q + e * 2 ^ f.fractionBits) = q * 2 ^ e := by
  obtain ⟨hq, he⟩ := h
  have hp : 0 < 2 ^ f.fractionBits := Nat.two_pow_pos _
  rw [Nat.pow_succ] at hq
  unfold scaled
  simp only [Nat.add_mul_div_right _ _ hp, Nat.add_mul_mod_self_right]
  by_cases hlow : q < 2 ^ f.fractionBits
  · obtain rfl : e = 0 := he.resolve_right (by omega)
    simp [Nat.div_eq_of_lt hlow, Nat.mod_eq_of_lt hlow]
  · have hdiv : q / 2 ^ f.fractionBits = 1 := by
      rw [Nat.div_eq_iff hp]; omega
    have hmod : 2 ^ f.fractionBits + q % 2 ^ f.fractionBits = q := by
      have := Nat.div_add_mod q (2 ^ f.fractionBits)
      rwa [hdiv, Nat.mul_one] at this
    simp [hdiv, hmod, Nat.add_comm 1 e]

/-- Every magnitude word is one of those. -/
theorem exists_normal (m : Nat) : ∃ q e, f.Normal q e ∧ m = q + e * 2 ^ f.fractionBits := by
  have hp : 0 < 2 ^ f.fractionBits := Nat.two_pow_pos _
  have hm := Nat.div_add_mod m (2 ^ f.fractionBits)
  have hlt := Nat.mod_lt m hp
  rw [Nat.mul_comm] at hm
  cases h : m / 2 ^ f.fractionBits with
  | zero =>
    refine ⟨m % 2 ^ f.fractionBits, 0, ⟨?_, .inl rfl⟩, by simpa [h] using hm.symm⟩
    rw [Nat.pow_succ]; omega
  | succ e =>
    refine ⟨2 ^ f.fractionBits + m % 2 ^ f.fractionBits, e, ⟨?_, .inr (by omega)⟩, ?_⟩
    · rw [Nat.pow_succ]; omega
    · rw [h, Nat.succ_mul] at hm; omega

/-- `e` is the exponent of the steps around `a / d`. -/
def Spaced (f : BinaryFormat) (a d e : Nat) : Prop :=
  a < d * 2 ^ (f.fractionBits + 1 + e) ∧ (e = 0 ∨ d * 2 ^ (f.fractionBits + e) ≤ a)

theorem Spaced.unique {a d e e' : Nat} (h : f.Spaced a d e) (h' : f.Spaced a d e') :
    e = e' := by
  have le : ∀ {e e'}, f.Spaced a d e → f.Spaced a d e' → e ≤ e' := by
    intro e e' h h'
    rcases h.2 with rfl | h2
    · omega
    · have := Nat.lt_of_mul_lt_mul_left (Nat.lt_of_le_of_lt h2 h'.1)
      have := (Nat.pow_lt_pow_iff_right (by omega)).1 this
      omega
  exact Nat.le_antisymm (le h h') (le h' h)

/-- `a / d` lies below `2 ^ (a.log2 - d.log2 + 1)`. -/
theorem lt_mul_two_pow {a d k : Nat} (hd : 0 < d) (hk : a.log2 + 1 ≤ d.log2 + k) :
    a < d * 2 ^ k :=
  calc a < 2 ^ (a.log2 + 1) := Nat.lt_log2_self
    _ ≤ 2 ^ (d.log2 + k) := Nat.pow_le_pow_right (by omega) hk
    _ = 2 ^ d.log2 * 2 ^ k := Nat.pow_add ..
    _ ≤ d * 2 ^ k := Nat.mul_le_mul_right _ (Nat.log2_self_le (Nat.ne_of_gt hd))

/-- `a / d` lies above `2 ^ (a.log2 - d.log2 - 1)`. -/
theorem mul_two_pow_le {a d k : Nat} (ha : a ≠ 0) (hk : d.log2 + 1 + k ≤ a.log2) :
    d * 2 ^ k ≤ a :=
  calc d * 2 ^ k ≤ 2 ^ (d.log2 + 1) * 2 ^ k :=
        Nat.mul_le_mul_right _ (Nat.le_of_lt Nat.lt_log2_self)
    _ = 2 ^ (d.log2 + 1 + k) := (Nat.pow_add ..).symm
    _ ≤ 2 ^ a.log2 := Nat.pow_le_pow_right (by omega) hk
    _ ≤ a := Nat.log2_self_le ha

theorem spaced_binade {a d : Nat} (hd : 0 < d) : f.Spaced a d (f.binade a d) := by
  by_cases ha : a = 0
  · subst ha
    have : f.binade 0 d = 0 := by simp [binade]
    rw [this]
    exact ⟨Nat.mul_pos hd (Nat.two_pow_pos _), .inl rfl⟩
  have upper : ∀ k, a.log2 + 1 ≤ d.log2 + k → a < d * 2 ^ k := fun _ => lt_mul_two_pow hd
  have lower : ∀ k, d.log2 + 1 + k ≤ a.log2 → d * 2 ^ k ≤ a := fun _ => mul_two_pow_le ha
  unfold binade Spaced
  generalize a.log2 = la at *
  generalize d.log2 = ld at *
  dsimp only
  split
  · rename_i h
    exact ⟨upper _ (by omega), .inr h⟩
  · -- The guess was one too high, or there is no lower exponent.
    rename_i h
    by_cases h0 : la - ld - f.fractionBits = 0
    · rw [h0] at h ⊢
      simp only [Nat.add_zero, Nat.zero_sub] at h ⊢
      refine ⟨?_, by simp⟩
      have := Nat.mul_le_mul_left d (Nat.pow_le_pow_right (n := 2) (by omega)
        (show f.fractionBits ≤ f.fractionBits + 1 by omega))
      omega
    · have e : f.fractionBits + 1 + (la - ld - f.fractionBits - 1) =
          f.fractionBits + (la - ld - f.fractionBits) := by omega
      rw [e]
      exact ⟨by omega, .inr (lower _ (by omega))⟩

theorem nearestFactor_mul (q d : Nat) (hd : 0 < d) : nearestFactor (q * d) d = q := by
  simp [nearestFactor, Nat.mul_div_cancel _ hd, hd]

/-- A value that the format holds is not rounded. -/
theorem nearest_of_normal {q e d : Nat} (hd : 0 < d) (h : f.Normal q e) :
    f.nearest (q * 2 ^ e * d) d = min f.infinity (q + e * 2 ^ f.fractionBits) := by
  have hs : f.Spaced (q * 2 ^ e * d) d e := by
    obtain ⟨hq, he⟩ := h
    constructor
    · rw [Nat.mul_comm d, Nat.pow_add]
      exact Nat.mul_lt_mul_of_pos_right (Nat.mul_lt_mul_of_pos_right hq (Nat.two_pow_pos _)) hd
    · apply he.imp_right
      intro he
      rw [Nat.mul_comm d, Nat.pow_add]
      exact Nat.mul_le_mul_right _ (Nat.mul_le_mul_right _ he)
  have hb := Spaced.unique (spaced_binade hd) hs
  unfold nearest
  simp only [hb]
  rw [show q * 2 ^ e * d = q * (d * 2 ^ e) by rw [Nat.mul_assoc, Nat.mul_comm d],
    nearestFactor_mul _ _ (Nat.mul_pos hd (Nat.two_pow_pos _))]

/-- A word is the nearest one to its value, in any unit. -/
theorem nearest_scaled {m d : Nat} (hd : 0 < d) (hm : m ≤ f.infinity) :
    f.nearest (f.scaled m * d) d = m := by
  obtain ⟨q, e, h, rfl⟩ := exists_normal (f := f) m
  rw [scaled_of_normal h, nearest_of_normal hd h, Nat.min_eq_right hm]

theorem nearest_le_infinity (a d : Nat) : f.nearest a d ≤ f.infinity := Nat.min_le_left _ _

end BinaryFormat

namespace Binary64

open BinaryFormat

/-! ## Parts of a word -/

theorem toNat_ofParts {negative : Bool} {m : Nat} (hm : m < 2 ^ 63) :
    (ofParts negative m).bits.toNat = (if negative then 2 ^ 63 else 0) + m := by
  have hw : double.signWeight = 2 ^ 63 := rfl
  simp only [ofParts, hw, UInt64.toNat_ofNat']
  refine Nat.mod_eq_of_lt ?_
  split <;> omega

@[simp] theorem isNegative_ofParts {negative : Bool} {m : Nat} (hm : m < 2 ^ 63) :
    (ofParts negative m).isNegative = negative := by
  rw [isNegative, toNat_ofParts hm]
  cases negative with
  | false => simpa using hm
  | true => simp

@[simp] theorem magnitude_ofParts {negative : Bool} {m : Nat} (hm : m < 2 ^ 63) :
    (ofParts negative m).magnitude = m := by
  rw [magnitude, toNat_ofParts hm]
  cases negative <;> simp <;> omega

/-! ## The 32-bit format inside the 64-bit one -/

/-- The leading bit of a number of 24 bits moves to the front of the wider fraction. -/
theorem normal_widened {q : Nat} (h0 : q ≠ 0) (hq : q < 2 ^ 24) (e : Nat) :
    double.Normal (q * 2 ^ (52 - q.log2)) e := by
  have hlog : q.log2 < 24 := (Nat.log2_lt h0).2 hq
  constructor
  · calc q * 2 ^ (52 - q.log2) < 2 ^ (q.log2 + 1) * 2 ^ (52 - q.log2) :=
          Nat.mul_lt_mul_of_pos_right Nat.lt_log2_self (Nat.two_pow_pos _)
      _ = 2 ^ (52 + 1) := by rw [← Nat.pow_add]; congr 1; omega
  · right
    calc 2 ^ 52 = 2 ^ q.log2 * 2 ^ (52 - q.log2) := by rw [← Nat.pow_add]; congr 1; omega
      _ ≤ q * 2 ^ (52 - q.log2) := Nat.mul_le_mul_right _ (Nat.log2_self_le h0)

/-- Widening a finite magnitude is exact. -/
theorem scaled_widened {m : Nat} (hm : m < single.infinity) :
    let wide := double.nearest (single.scaled m * 2 ^ (double.step - single.step)) 1
    wide < double.infinity ∧
      double.scaled wide = single.scaled m * 2 ^ (double.step - single.step) := by
  obtain ⟨q, e, ⟨hq, he⟩, rfl⟩ := exists_normal (f := single) m
  rw [scaled_of_normal ⟨hq, he⟩]
  change q < 2 ^ 24 at hq
  change e = 0 ∨ 2 ^ 23 ≤ q at he
  change q + e * 2 ^ 23 < 255 * 2 ^ 23 at hm
  have hstep : double.step - single.step = 925 := rfl
  generalize double.step - single.step = k at hstep ⊢
  have he' : e ≤ 253 := by omega
  -- A significand is shifted up until it has all bits of the wider format, but for zero.
  by_cases h0 : q = 0
  · subst h0
    simp only [Nat.zero_mul]
    decide
  have hlog : q.log2 < 24 := (Nat.log2_lt h0).2 hq
  have hq' := normal_widened h0 hq (e + k - (52 - q.log2))
  generalize q.log2 = l at hlog hq'
  have hvalue : q * 2 ^ e * 2 ^ k = q * 2 ^ (52 - l) * 2 ^ (e + k - (52 - l)) := by
    rw [Nat.mul_assoc, ← Nat.pow_add, Nat.mul_assoc, ← Nat.pow_add]
    congr 2; omega
  have hnear := nearest_of_normal (d := 1) Nat.one_pos hq'
  rw [Nat.mul_one, ← hvalue] at hnear
  have hsmall : q * 2 ^ (52 - l) + (e + k - (52 - l)) * 2 ^ double.fractionBits <
      double.infinity := by
    have h1 : q * 2 ^ (52 - l) < 2 ^ 53 := hq'.1
    change _ + _ * 2 ^ 52 < 2047 * 2 ^ 52
    omega
  rw [Nat.min_eq_right (Nat.le_of_lt hsmall)] at hnear
  simp only [hnear]
  exact ⟨hsmall, by rw [scaled_of_normal hq', hvalue]⟩

theorem widen_of_nan {w : Nat} (h : single.infinity < w % single.signWeight) :
    widen w = ofParts (single.signWeight ≤ w) double.quiet := by simp [widen, h]

theorem narrow_ofParts_quiet (negative : Bool) :
    (ofParts negative double.quiet).narrow =
      (if negative then single.signWeight else 0) + single.quiet := by
  cases negative <;> decide

/-- A 32-bit word that is a number is what is left of the widened number. -/
theorem narrow_widen {w : Nat} (hw : w < 2 ^ 32) (h : w % single.signWeight ≤ single.infinity) :
    (widen w).narrow = w := by
  have hsign : single.signWeight = 2 ^ 31 := rfl
  have hdouble : double.infinity < 2 ^ 63 := by decide
  have hsplit : (if single.signWeight ≤ w then single.signWeight else 0) +
      w % single.signWeight = w := by
    rw [hsign]; split <;> omega
  rcases Nat.lt_or_eq_of_le h with hlt | heq
  · obtain ⟨hwide, hscaled⟩ := scaled_widened hlt
    simp only [widen, Nat.not_lt.2 h, Nat.ne_of_lt hlt, if_false]
    generalize double.nearest (single.scaled (w % single.signWeight) *
      2 ^ (double.step - single.step)) 1 = wide at hwide hscaled
    have hb : wide < 2 ^ 63 := by omega
    simp only [narrow, isNaN, isInfinite, magnitude_ofParts hb, isNegative_ofParts hb, hscaled,
      nearest_scaled (Nat.two_pow_pos _) h]
    simp only [Nat.lt_asymm hwide, Nat.ne_of_lt hwide, decide_false, decide_eq_true_eq]
    simpa using hsplit
  · simp only [widen, heq, Nat.lt_irrefl, if_false, if_true]
    simp only [narrow, isNaN, isInfinite, magnitude_ofParts hdouble, isNegative_ofParts hdouble]
    rw [heq] at hsplit
    simpa using hsplit

theorem narrow_lt (x : Binary64) : x.narrow < 2 ^ 32 := by
  have hinf : single.infinity < 2 ^ 31 := by decide
  have hquiet : single.quiet < 2 ^ 31 := by decide
  have hsign : single.signWeight = 2 ^ 31 := rfl
  have := nearest_le_infinity (f := single) (double.scaled x.magnitude)
    (2 ^ (double.step - single.step))
  unfold narrow
  split <;> split <;> (try split) <;> omega

/-- What 32 bits hold stays as it is in the 32-bit format. -/
theorem toSingle_widen {w : Nat} (hw : w < 2 ^ 32) : (widen w).toSingle = widen w := by
  by_cases h : w % single.signWeight ≤ single.infinity
  · rw [toSingle, narrow_widen hw h]
  · have h := Nat.lt_of_not_le h
    rw [widen_of_nan h, toSingle, narrow_ofParts_quiet]
    cases decide (single.signWeight ≤ w) <;> decide

theorem toSingle_toSingle (x : Binary64) : x.toSingle.toSingle = x.toSingle :=
  toSingle_widen x.narrow_lt

theorem toSingle_ofIntSingle (i : Int) : (ofIntSingle i).toSingle = ofIntSingle i := by
  refine toSingle_widen ?_
  have hinf : single.infinity < 2 ^ 31 := by decide
  have hsign : single.signWeight = 2 ^ 31 := rfl
  have := nearest_le_infinity (f := single) (i.natAbs * 2 ^ single.step) 1
  split <;> omega

end Binary64

end FieldCompute
