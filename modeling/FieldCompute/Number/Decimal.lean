import FieldCompute.Number.Binary
/-!
# Decimal text of binary numbers

A finite number is written with the fewest decimal digits that read back as the same word, and of
two such numbers the nearer one; a tie goes away from zero. `readsBack` is the test, so whatever
is written determines the word.
-/

namespace FieldCompute

namespace Decimal

open BinaryFormat

/-- The number `digits * 10 ^ exponent`. -/
structure Scientific where
  digits : Nat
  exponent : Int
deriving DecidableEq, Repr

namespace Scientific

/-- The magnitude word nearest to the decimal number. -/
def word (x : Scientific) : Nat :=
  if 0 ≤ x.exponent then double.nearest (x.digits * 10 ^ x.exponent.toNat * 2 ^ double.step) 1
  else double.nearest (x.digits * 2 ^ double.step) (10 ^ (-x.exponent).toNat)

/-- The same number with no zero at the end of its digits. -/
def strip (x : Scientific) : Nat → Scientific
  | 0 => x
  | fuel + 1 =>
    if x.digits ≠ 0 ∧ x.digits % 10 = 0 then strip ⟨x.digits / 10, x.exponent + 1⟩ fuel else x

end Scientific

/-- The decimal exponent of the leading digit of `s / 2 ^ 1074`, for `0 < s`. -/
def leadingExponent (s : Nat) : Int :=
  let guess := (((s.log2 : Int) - double.step) * 30102999566398).fdiv 100000000000000
  let next := guess + 1
  let reached :=
    if 0 ≤ next then 10 ^ next.toNat * 2 ^ double.step ≤ s
    else 2 ^ double.step ≤ s * 10 ^ (-next).toNat
  if reached then next else guess

/-- The two numbers of the grid `10 ^ exponent` around `s / 2 ^ 1074`, the nearer one first. -/
def neighbours (s : Nat) (exponent : Int) : List Scientific :=
  let a := if 0 ≤ exponent then s else s * 10 ^ (-exponent).toNat
  let d := if 0 ≤ exponent then 10 ^ exponent.toNat * 2 ^ double.step else 2 ^ double.step
  let below : Scientific := ⟨a / d, exponent⟩
  let above : Scientific := ⟨a / d + 1, exponent⟩
  if 2 * (a % d) < d then [below, above] else [above, below]

/-- The number without rounding: every finite word has a finite decimal expansion. -/
def exact (magnitude : Nat) : Scientific :=
  ⟨double.scaled magnitude * 5 ^ double.step, -double.step⟩

/-- The fewest digits that read back as the magnitude word. Seventeen are enough for every word,
and the exact expansion stands at the end so that the answer reads back by its form. -/
def shortest (magnitude : Nat) : Scientific :=
  let s := double.scaled magnitude
  let top := leadingExponent s
  let grids := (List.range 17).flatMap fun (n : Nat) => neighbours s (top - n)
  ((grids.find? fun x => x.word = magnitude).getD (exact magnitude)).strip 400

/-! ## Layout -/

/-- The digits with the point `point` places behind the first one's front. -/
def positional (digits : List Char) (point : Int) : String :=
  if point ≤ 0 then
    "0." ++ String.ofList (List.replicate (-point).toNat '0' ++ digits)
  else
    let front := digits.take point.toNat ++ List.replicate (point.toNat - digits.length) '0'
    let back := digits.drop point.toNat
    String.ofList front ++ "." ++ String.ofList (if back.isEmpty then ['0'] else back)

/-- One digit before the point, which is left out when nothing follows it, and the power of ten. -/
def withExponent (digits : List Char) (exponent : Int) : String :=
  let back := digits.drop 1
  let front := digits.take 1 ++ if back.isEmpty then [] else '.' :: back
  String.ofList front ++ "e" ++ toString exponent

/-- From `1e-4` on and below `1e16` a number stands with all its places, at least one behind the
point; any other has an exponent. -/
def magnitudeText (magnitude : Nat) : String :=
  if magnitude = 0 then "0.0"
  else
    let x := shortest magnitude
    let digits := Nat.toDigits 10 x.digits
    let point := x.exponent + digits.length
    if -4 < point ∧ point ≤ 16 then positional digits point else withExponent digits (point - 1)

end Decimal

/-- The text of a number: `1.0`, `-0.0`, `1.5e-5`, `inf`, `NaN`. -/
def Binary64.text (x : Binary64) : String :=
  if x.isNaN then "NaN"
  else (if x.isNegative then "-" else "") ++
    if x.isInfinite then "inf" else Decimal.magnitudeText x.magnitude

end FieldCompute
