import FieldCompute.Text.Messages
import Mathlib.Data.List.Nodup
/-!
# Reading tokens off a text

A token is a run of letters, digits, points, signs and dollars. In a longer text it ends where
another character stands, so two texts that begin with tokens of one kind begin with the same one
and go on alike (`Token.read`). So do two lists of tokens in brackets (`Token.read_list`).
-/

namespace FieldCompute.Text

/-- The characters of tokens. -/
def isTokenChar (c : Char) : Bool := c.isAlphanum || c == '$' || c == '.' || c == '-'

variable {xs ys r r' : List Char} {c c' : Char}

/-- Where the first other character stands, the token ends. -/
theorem split_inj (hxs : ∀ x ∈ xs, isTokenChar x = true) (hys : ∀ y ∈ ys, isTokenChar y = true)
    (hc : isTokenChar c = false) (hc' : isTokenChar c' = false)
    (h : xs ++ c :: r = ys ++ c' :: r') : xs = ys ∧ c = c' ∧ r = r' := by
  -- Where one token ends and the other goes on, a character would be of both classes.
  induction xs generalizing ys with
  | nil =>
    cases ys with
    | nil =>
      obtain ⟨hcc, hrr⟩ := List.cons.inj h
      exact ⟨rfl, hcc, hrr⟩
    | cons y ys =>
      obtain ⟨rfl, -⟩ := List.cons.inj h
      rw [hys c List.mem_cons_self] at hc
      exact Bool.noConfusion hc
  | cons x xs ih =>
    cases ys with
    | nil =>
      obtain ⟨rfl, -⟩ := List.cons.inj h
      rw [hxs x List.mem_cons_self] at hc'
      exact Bool.noConfusion hc'
    | cons y ys =>
      obtain ⟨rfl, htail⟩ := List.cons.inj h
      obtain ⟨rfl, hrest⟩ := ih (fun z hz => hxs z (List.mem_cons_of_mem _ hz))
        (fun z hz => hys z (List.mem_cons_of_mem _ hz)) htail
      exact ⟨rfl, hrest⟩

/-- `f` writes each `a` as a token of its own. -/
structure Token {α : Type} (f : α → String) : Prop where
  injective : Function.Injective f
  chars : ∀ a, ∀ c ∈ (f a).toList, isTokenChar c = true
  nonempty : ∀ a, (f a).toList ≠ []

namespace Token

variable {α : Type} {f : α → String} (hf : Token f)

include hf

theorem read {a b : α} (hc : isTokenChar c = false) (hc' : isTokenChar c' = false)
    (h : (f a).toList ++ c :: r = (f b).toList ++ c' :: r') : a = b ∧ c = c' ∧ r = r' := by
  obtain ⟨htext, hrest⟩ := split_inj (hf.chars a) (hf.chars b) hc hc' h
  exact ⟨hf.injective (String.toList_inj.1 htext), hrest⟩

/-- No token stands for an empty list. -/
theorem ne_bracket (a : α) (hc : isTokenChar c = false) : (f a).toList ++ r' ≠ c :: r := by
  intro h
  cases htext : (f a).toList with
  | nil => exact hf.nonempty a htext
  | cons d ds =>
    rw [htext] at h
    have hd := hf.chars a d (htext ▸ List.mem_cons_self)
    rw [(List.cons.inj h).1, hc] at hd
    exact Bool.noConfusion hd

end Token

/-- The items of a list in brackets, the bracket behind them, and what follows it. -/
def listed {α : Type} (f : α → String) (items : List α) (rest : List Char) : List Char :=
  (commaList (items.map f)).toList ++ ']' :: rest

section Listed

variable {α : Type} (f : α → String) (a b : α) (items : List α)

theorem listed_nil : listed f [] r = ']' :: r := by
  simp [listed, commaList]

theorem listed_singleton : listed f [a] r = (f a).toList ++ ']' :: r := by
  simp [listed, commaList]

theorem listed_cons_cons :
    listed f (a :: b :: items) r = (f a).toList ++ ',' :: ' ' :: listed f (b :: items) r := by
  simp [listed, commaList, String.intercalate_cons_cons]

/-- A list with items begins with the first one. -/
theorem exists_listed_cons : ∃ tail, listed f (a :: items) r = (f a).toList ++ tail := by
  cases items with
  | nil => exact ⟨_, listed_singleton f a⟩
  | cons b items => exact ⟨_, listed_cons_cons f a b items⟩

end Listed

theorem Token.read_list {α : Type} {f : α → String} (hf : Token f) {as bs : List α}
    (h : listed f as r = listed f bs r') : as = bs ∧ r = r' := by
  induction as generalizing bs with
  | nil =>
    rw [listed_nil] at h
    cases bs with
    | nil =>
      rw [listed_nil] at h
      exact ⟨rfl, (List.cons.inj h).2⟩
    | cons b bs =>
      obtain ⟨tail, htail⟩ := exists_listed_cons f b bs (r := r')
      rw [htail] at h
      exact absurd h.symm (hf.ne_bracket b rfl)
  | cons a as ih =>
    cases bs with
    | nil =>
      obtain ⟨tail, htail⟩ := exists_listed_cons f a as (r := r)
      rw [listed_nil, htail] at h
      exact absurd h (hf.ne_bracket a rfl)
    | cons b bs =>
      -- A comma stands between two items, the bracket behind the last one.
      cases as with
      | nil =>
        cases bs with
        | nil =>
          rw [listed_singleton, listed_singleton] at h
          obtain ⟨rfl, -, hrest⟩ := hf.read rfl rfl h
          exact ⟨rfl, hrest⟩
        | cons b' bs =>
          rw [listed_singleton, listed_cons_cons] at h
          obtain ⟨-, hmark, -⟩ := hf.read rfl rfl h
          exact absurd hmark (by decide)
      | cons a' as =>
        cases bs with
        | nil =>
          rw [listed_cons_cons, listed_singleton] at h
          obtain ⟨-, hmark, -⟩ := hf.read rfl rfl h
          exact absurd hmark (by decide)
        | cons b' bs =>
          rw [listed_cons_cons, listed_cons_cons] at h
          obtain ⟨rfl, -, hmore⟩ := hf.read rfl rfl h
          obtain ⟨htail, hrest⟩ := ih (List.cons.inj hmore).2
          exact ⟨congrArg (a :: ·) htail, hrest⟩

theorem isTokenChar_of_isDigit {c : Char} (h : c.isDigit = true) : isTokenChar c = true := by
  simp [isTokenChar, Char.isAlphanum, h]

theorem token_nat : Token (toString : Nat → String) where
  injective a b h := by
    have hdigits : Nat.toDigits 10 a = Nat.toDigits 10 b := by
      rw [← Nat.toList_repr, ← Nat.toList_repr]
      exact congrArg String.toList h
    rw [← Nat.ofDigitChars_ten_toDigits (n := a), hdigits, Nat.ofDigitChars_ten_toDigits]
  chars n c hc := by
    rw [Nat.toString_eq_repr, Nat.toList_repr] at hc
    exact isTokenChar_of_isDigit (Nat.isDigit_of_mem_toDigits (by decide) (by decide) hc)
  nonempty n := by
    rw [Nat.toString_eq_repr, Nat.toList_repr]
    exact Nat.toDigits_ne_nil

/-- The names of finitely many things. -/
theorem Token.of_all {α : Type} {f : α → String} (all : List α) (hall : ∀ a, a ∈ all)
    (hnodup : (all.map f).Nodup)
    (hchars : ∀ a ∈ all, (f a).toList ≠ [] ∧ (f a).toList.all isTokenChar = true) :
    Token f where
  injective a b h := List.inj_on_of_nodup_map hnodup (hall a) (hall b) h
  chars a := List.all_eq_true.1 (hchars a (hall a)).2
  nonempty a := (hchars a (hall a)).1

/-- A token behind a fixed one. -/
theorem Token.append {α : Type} {f : α → String} (hf : Token f) (lead : String)
    (hlead : lead.toList.all isTokenChar = true) : Token fun a => lead ++ f a where
  injective a b h := by
    have htext := congrArg String.toList h
    rw [String.toList_append, String.toList_append] at htext
    exact hf.injective (String.toList_inj.1 (List.append_cancel_left htext))
  chars a c hc := by
    rw [String.toList_append] at hc
    rcases List.mem_append.1 hc with hc | hc
    · exact List.all_eq_true.1 hlead c hc
    · exact hf.chars a c hc
  nonempty a h := by
    rw [String.toList_append] at h
    exact hf.nonempty a (List.append_eq_nil_iff.1 h).2

end FieldCompute.Text
