import Mathlib.Data.List.GetD
import Mathlib.Data.List.TakeWhile
import MiqOSoft.Machine.Memory

/-!
Strings of C, and the functions of `string.c` that the kernel, the shell and the boot loader
have in common.

* `CString`: the characters in front of a terminating NUL.
* `textOf`: the string that a piece of memory holds, up to its first NUL.
* `strcmp_eq_zero_iff`: `strcmp` is zero exactly on equal strings, and
  `strcmp_eq_zero_iff_forall`: exactly where every character agrees.
-/

namespace MiqOSoft

open Machine

/-- A string of C: its characters, in front of the terminating NUL. -/
structure CString where
  chars : List Byte
  noNul : 0#8 ∉ chars

/-- The character at `k`; the terminator and what reads as it past the end are NUL. -/
def CString.byte (s : CString) (k : ℕ) : Byte := s.chars.getD k 0#8

/-- `strlen`. -/
def CString.strlen (s : CString) : Word := BitVec.ofNat 32 s.chars.length

/-- `strcmp` of the string at `a` with the characters `b`, as signed characters. -/
def strcmp (a : ℕ → Byte) : List Byte → Int
  | [] => (a 0).toInt
  | b :: bs =>
      if a 0 ≠ 0#8 ∧ b ≠ 0#8 ∧ a 0 = b then strcmp (fun k => a (k + 1)) bs
      else (a 0).toInt - b.toInt

/-- The characters of an ASCII text. -/
def ascii (s : String) : List Byte := s.toList.map fun c => BitVec.ofNat 8 c.toNat

lemma toInt_eq_zero_iff {c : Byte} : c.toInt = 0 ↔ c = 0#8 := by
  rw [← BitVec.toInt_inj]
  rfl

/-- `strcmp` is zero exactly on equal strings. -/
theorem strcmp_eq_zero_iff {s b : List Byte} {a : ℕ → Byte} (hs : 0#8 ∉ s) (hb : 0#8 ∉ b)
    (h : ∀ k ≤ s.length, a k = s.getD k 0#8) : strcmp a b = 0 ↔ s = b := by
  induction b generalizing s a with
  | nil =>
      rw [strcmp, h 0 (Nat.zero_le _), toInt_eq_zero_iff]
      cases s with
      | nil => simp
      | cons c s => simp at hs ⊢; tauto
  | cons b bs ih =>
      obtain ⟨hb0, hbs⟩ := not_or.mp (mt List.mem_cons.mpr hb)
      rw [strcmp]
      cases s with
      | nil =>
          have ha : a 0 = 0#8 := h 0 le_rfl
          rw [if_neg (by simp [ha]), ha]
          have : b.toInt ≠ 0 := mt toInt_eq_zero_iff.mp (Ne.symm hb0)
          simp [this]
      | cons c s =>
          obtain ⟨hc0, hs⟩ := not_or.mp (mt List.mem_cons.mpr hs)
          have ha : a 0 = c := h 0 (Nat.zero_le _)
          rw [ha]
          split_ifs with hcb
          · obtain ⟨-, -, rfl⟩ := hcb
            rw [ih hs hbs fun k hk => h (k + 1) (Nat.succ_le_succ hk)]
            simp
          · have hne : c ≠ b := fun heq => hcb ⟨Ne.symm hc0, Ne.symm hb0, heq⟩
            have : c.toInt ≠ b.toInt := mt BitVec.toInt_inj.mp hne
            simp only [List.cons.injEq, hne, false_and, iff_false]
            omega

/-- `strcmp` is zero exactly where every character agrees, the terminator among them. -/
theorem strcmp_eq_zero_iff_forall {b : List Byte} {a : ℕ → Byte} (hb : 0#8 ∉ b) :
    strcmp a b = 0 ↔ ∀ n ≤ b.length, a n = b.getD n 0#8 := by
  induction b generalizing a with
  | nil =>
      rw [strcmp, toInt_eq_zero_iff]
      simp
  | cons c b ih =>
      obtain ⟨hc0, hb⟩ := not_or.mp (mt List.mem_cons.mpr hb)
      rw [strcmp]
      split_ifs with hcb
      · obtain ⟨-, -, hac⟩ := hcb
        rw [ih hb]
        constructor
        · intro h n hn
          cases n with
          | zero => exact hac
          | succ n => exact h n (Nat.le_of_succ_le_succ hn)
        · exact fun h n hn => h (n + 1) (Nat.succ_le_succ hn)
      · have hne : a 0 ≠ c := fun hac => hcb ⟨hac ▸ Ne.symm hc0, Ne.symm hc0, hac⟩
        have hint : (a 0).toInt ≠ c.toInt := mt BitVec.toInt_inj.mp hne
        constructor
        · intro h
          exact absurd (Int.sub_eq_zero.mp h) hint
        · exact fun h => absurd (h 0 (Nat.zero_le _)) hne

/-- The characters of a text in front of its first NUL. -/
def textOf (l : List Byte) : List Byte := l.takeWhile fun c => decide (c ≠ 0#8)

lemma zero_notMem_textOf (l : List Byte) : 0#8 ∉ textOf l := by
  intro h
  simpa using List.mem_takeWhile_imp h

/-- Up to its first NUL a list reads as its text does. -/
lemma getD_textOf {l : List Byte} {k : ℕ} (hk : k ≤ (textOf l).length) :
    l.getD k 0#8 = (textOf l).getD k 0#8 := by
  induction l generalizing k with
  | nil => rfl
  | cons c l ih =>
      by_cases hc : c = 0#8
      · simp only [textOf, List.takeWhile_cons, hc, ne_eq, not_true_eq_false, decide_false,
          Bool.false_eq_true, ↓reduceIte, List.length_nil, Nat.le_zero] at hk ⊢
        simp [hk]
      · have hcons : textOf (c :: l) = c :: textOf l := by simp [textOf, hc]
        rw [hcons] at hk ⊢
        cases k with
        | zero => rfl
        | succ k => exact ih (Nat.le_of_succ_le_succ hk)

/-- The text of a list that reads as a string with its terminator. -/
lemma textOf_eq {s l : List Byte} (hs : 0#8 ∉ s) (hlen : s.length < l.length)
    (h : ∀ k ≤ s.length, l.getD k 0#8 = s.getD k 0#8) : textOf l = s := by
  induction s generalizing l with
  | nil =>
      obtain ⟨c, l, rfl⟩ := List.exists_cons_of_length_pos hlen
      have hc : c = 0#8 := h 0 le_rfl
      simp [textOf, hc]
  | cons c s ih =>
      obtain ⟨hc0, hs⟩ := not_or.mp (mt List.mem_cons.mpr hs)
      obtain ⟨d, l, rfl⟩ := List.exists_cons_of_length_pos (Nat.zero_lt_of_lt hlen)
      have hd : d = c := h 0 (Nat.zero_le _)
      have htail := ih hs (Nat.lt_of_succ_lt_succ hlen) fun k hk =>
        h (k + 1) (Nat.succ_le_succ hk)
      rw [textOf, List.takeWhile_cons_of_pos (by simpa [hd] using Ne.symm hc0), ← textOf, htail, hd]

lemma CString.byte_of_length_le (s : CString) {k : ℕ} (hk : s.chars.length ≤ k) :
    s.byte k = 0#8 := by
  rw [CString.byte, List.getD_eq_default _ _ hk]

lemma CString.byte_ne_zero (s : CString) {k : ℕ} (hk : k < s.chars.length) : s.byte k ≠ 0#8 := by
  rw [CString.byte, List.getD_eq_getElem _ _ hk]
  exact fun h => s.noNul (h ▸ List.getElem_mem hk)

end MiqOSoft
