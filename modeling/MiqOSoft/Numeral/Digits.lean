import Mathlib.Data.Nat.Digits.Lemmas
import Mathlib.Tactic

/-!
Writing numbers in a base.

* `lowDigits b n`: the digits of `n` in base `b`, the lowest first, where zero has the digit `0`.
* `numeral b n`: the same with the highest first, as it is written.
* `lowDigits_eq`: the digits as a loop finds them, one remainder and one quotient a turn.
* `length_lowDigits_le_iff`: how many digits a number has.
* `value`: reading a number back, one multiplication and one sum a digit; `value_numeral`.
* `head?_numeral`: no number but zero is written with a zero in front.
-/

namespace Numeral

variable {b : ℕ}

/-- The digits of `n` in base `b`, the lowest first. -/
def lowDigits (b n : ℕ) : List ℕ := if n = 0 then [0] else Nat.digits b n

/-- The digits of `n` in base `b`, the highest first. -/
def numeral (b n : ℕ) : List ℕ := (lowDigits b n).reverse

@[simp] lemma lowDigits_zero : lowDigits b 0 = [0] := if_pos rfl

lemma lowDigits_of_ne_zero {n : ℕ} (hn : n ≠ 0) : lowDigits b n = Nat.digits b n := if_neg hn

/-- The lowest digit is the remainder, and the others are those of the quotient, if there is
one. -/
theorem lowDigits_eq (hb : 1 < b) (n : ℕ) :
    lowDigits b n = n % b :: if n / b = 0 then [] else lowDigits b (n / b) := by
  by_cases hn : n = 0
  · subst hn
    simp
  · rw [lowDigits_of_ne_zero hn, Nat.digits_def' hb (Nat.pos_of_ne_zero hn)]
    split_ifs with hq
    · rw [hq, Nat.digits_zero]
    · rw [lowDigits_of_ne_zero hq]

lemma numeral_of_lt (hb : 1 < b) {n : ℕ} (hn : n < b) : numeral b n = [n] := by
  rw [numeral, lowDigits_eq hb, if_pos (Nat.div_eq_of_lt hn), Nat.mod_eq_of_lt hn,
    List.reverse_singleton]

lemma numeral_of_lt_mul (hb : 1 < b) {n : ℕ} (hle : b ≤ n) (hlt : n < b * b) :
    numeral b n = [n / b, n % b] := by
  have hq : n / b < b := Nat.div_lt_of_lt_mul hlt
  have hne : n / b ≠ 0 := (Nat.div_pos hle (Nat.zero_lt_of_lt hb)).ne'
  rw [numeral, lowDigits_eq hb, if_neg hne, lowDigits_eq hb, if_pos (Nat.div_eq_of_lt hq),
    Nat.mod_eq_of_lt hq]
  rfl

lemma lowDigits_ne_nil (n : ℕ) : lowDigits b n ≠ [] := by
  by_cases hn : n = 0
  · simp [hn]
  · rw [lowDigits_of_ne_zero hn]
    exact Nat.digits_ne_nil_iff_ne_zero.mpr hn

/-- Every digit is smaller than the base. -/
lemma lt_of_mem_lowDigits (hb : 1 < b) {d n : ℕ} (hd : d ∈ lowDigits b n) : d < b := by
  by_cases hn : n = 0
  · rw [hn, lowDigits_zero, List.mem_singleton] at hd
    omega
  · rw [lowDigits_of_ne_zero hn] at hd
    exact Nat.digits_lt_base hb hd

/-- A number with at most `k` digits. -/
lemma length_lowDigits_le_iff (hb : 1 < b) {k : ℕ} (hk : 0 < k) (n : ℕ) :
    (lowDigits b n).length ≤ k ↔ n < b ^ k := by
  by_cases hn : n = 0
  · have hpow : 0 < b ^ k := Nat.pow_pos (by omega)
    simp only [hn, lowDigits_zero, List.length_singleton, hpow, iff_true]
    omega
  · rw [lowDigits_of_ne_zero hn, Nat.digits_length_le_iff hb]

@[simp] lemma length_numeral (n : ℕ) : (numeral b n).length = (lowDigits b n).length :=
  List.length_reverse

lemma lt_of_mem_numeral (hb : 1 < b) {d n : ℕ} (hd : d ∈ numeral b n) : d < b :=
  lt_of_mem_lowDigits hb (List.mem_reverse.mp hd)

/-- Only zero is written with a zero in front. -/
theorem head?_numeral {n : ℕ} (h : (numeral b n).head? = some 0) : n = 0 := by
  by_contra hn
  rw [numeral, lowDigits_of_ne_zero hn, List.head?_reverse,
    List.getLast?_eq_getLast_of_ne_nil (Nat.digits_ne_nil_iff_ne_zero.mpr hn)] at h
  exact Nat.getLast_digit_ne_zero b hn (Option.some.inj h)

/-! ### Reading a number back -/

/-- The number that digits stand for, the highest first. -/
def value (b : ℕ) (ds : List ℕ) : ℕ := ds.foldl (fun r d => r * b + d) 0

/-- **A number is read back** from its digits. -/
theorem value_numeral (b n : ℕ) : value b (numeral b n) = n := by
  have hdigits : Nat.ofDigits b (lowDigits b n) = n := by
    by_cases hn : n = 0
    · simp [hn]
    · rw [lowDigits_of_ne_zero hn, Nat.ofDigits_digits]
  have hfold : (fun d r => r * b + d : ℕ → ℕ → ℕ) = fun d r => d + b * r := by
    funext d r
    ring
  rw [value, numeral, List.foldl_reverse, hfold]
  rwa [Nat.ofDigits_eq_foldr] at hdigits

end Numeral
