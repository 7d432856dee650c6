import Mathlib.Data.List.GetD
import Mathlib.Tactic

/-!
Editing a line of text, and keeping it in an array.

* `Line α cap`: a text of at most `cap` characters with a cursor in it, as the characters in
  front of the cursor and those after it, with `insert`, `erase`, `left` and `right`.
* `storeAll i cs buf`: several stores, one behind the other; `storeAll_spec` says what they leave.
* `Holds buf z l`: the array `buf` holds the text `l`, and `z` everywhere behind it.
* `shiftUp`, `shiftDown`: the loops that open and close a gap in an array.  Every access is
  checked, so that a loop which leaves the array has no result.
* `holds_insert`, `holds_erase`: opening a gap and filling it inserts a character into the text
  held; closing a gap and clearing the last place removes one.
-/

namespace Editing

variable {α : Type*} {cap n : ℕ}

/-! ### The line -/

/-- A text of at most `cap` characters with a cursor in it. -/
structure Line (α : Type*) (cap : ℕ) where
  before : List α
  after : List α
  fits : before.length + after.length ≤ cap

namespace Line

/-- The whole text. -/
def text (l : Line α cap) : List α := l.before ++ l.after

/-- No text. -/
def empty : Line α cap := ⟨[], [], Nat.zero_le cap⟩

/-- A character is inserted at the cursor, or dropped if the line is full. -/
def insert (c : α) (l : Line α cap) : Line α cap :=
  if h : l.before.length + l.after.length < cap then
    ⟨l.before ++ [c], l.after, by rw [List.length_append, List.length_singleton]; omega⟩
  else l

/-- The character in front of the cursor is removed, if there is one. -/
def erase (l : Line α cap) : Line α cap :=
  ⟨l.before.dropLast, l.after, by have := l.fits; rw [List.length_dropLast]; omega⟩

/-- The cursor goes one character to the left, if it can. -/
def left (l : Line α cap) : Line α cap :=
  ⟨l.before.dropLast, l.before.getLast?.toList ++ l.after, by
    have := l.fits
    rcases List.eq_nil_or_concat l.before with h | ⟨xs, c, h⟩
    · simpa [h] using l.fits
    · simp [h] at this ⊢
      omega⟩

/-- The cursor goes one character to the right, if it can. -/
def right (l : Line α cap) : Line α cap :=
  ⟨l.before ++ l.after.head?.toList, l.after.tail, by
    have := l.fits
    cases h : l.after with
    | nil => simpa [h] using l.fits
    | cons c ys =>
        simp [h] at this ⊢
        omega⟩

variable (l : Line α cap)

@[simp] lemma length_text : l.text.length = l.before.length + l.after.length :=
  List.length_append

@[simp] lemma text_empty : (empty : Line α cap).text = [] := rfl

@[simp] lemma text_left : l.left.text = l.text := by
  rcases List.eq_nil_or_concat l.before with h | ⟨xs, c, h⟩ <;> simp [text, left, h]

@[simp] lemma text_right : l.right.text = l.text := by
  cases h : l.after <;> simp [text, right, h]

@[simp] lemma length_before_left : l.left.before.length = l.before.length - 1 :=
  List.length_dropLast

lemma length_before_right :
    l.right.before.length = if l.after = [] then l.before.length else l.before.length + 1 := by
  cases h : l.after <;> simp [right, h]

lemma insert_of_lt (c : α) (h : l.before.length + l.after.length < cap) :
    l.insert c = ⟨l.before ++ [c], l.after, by
      rw [List.length_append, List.length_singleton]; omega⟩ :=
  dif_pos h

lemma insert_of_full (c : α) (h : ¬l.before.length + l.after.length < cap) : l.insert c = l :=
  dif_neg h

lemma erase_of_nil (h : l.before = []) : l.erase = l := by
  cases l
  simp_all [erase]

lemma left_of_nil (h : l.before = []) : l.left = l := by
  cases l
  simp_all [left]

lemma right_of_nil (h : l.after = []) : l.right = l := by
  cases l
  simp_all [right]

end Line

/-! ### The array -/

/-- A store into an array, which is undefined outside of it. -/
def store (buf : Vector α n) (i : ℕ) (c : α) : Option (Vector α n) :=
  if h : i < n then some (buf.set i c h) else none

/-- Elements are stored one behind the other, from place `i` on. -/
def storeAll (i : ℕ) : List α → Vector α n → Option (Vector α n)
  | [], buf => some buf
  | c :: cs, buf => do
      let buf ← store buf i c
      storeAll (i + 1) cs buf

/-- `count` elements are moved one place up, the last of them to place `i`. -/
def shiftUp : ℕ → ℕ → Vector α n → Option (Vector α n)
  | 0, _, buf => some buf
  | count + 1, i, buf => do
      let c ← buf[i - 1]?
      let buf ← store buf i c
      shiftUp count (i - 1) buf

/-- `count` elements are moved one place down, the first of them to place `i`. -/
def shiftDown : ℕ → ℕ → Vector α n → Option (Vector α n)
  | 0, _, buf => some buf
  | count + 1, i, buf => do
      let c ← buf[i + 1]?
      let buf ← store buf i c
      shiftDown count (i + 1) buf

/-- The array holds the text, followed by nothing but `z`. -/
def Holds (buf : Vector α n) (z : α) (l : List α) : Prop :=
  ∀ k < n, buf[k]? = some (l.getD k z)

lemma store_of_lt (buf : Vector α n) {i : ℕ} (c : α) (h : i < n) :
    store buf i c = some (buf.set i c h) :=
  dif_pos h

lemma store_of_le (buf : Vector α n) {i : ℕ} (c : α) (h : n ≤ i) : store buf i c = none :=
  dif_neg (Nat.not_lt.mpr h)

lemma storeAll_append (i : ℕ) (cs ds : List α) (buf : Vector α n) :
    storeAll i (cs ++ ds) buf = (storeAll i cs buf).bind (storeAll (i + cs.length) ds) := by
  induction cs generalizing i buf with
  | nil => rfl
  | cons c cs ih =>
      rw [List.cons_append, storeAll, storeAll, List.length_cons]
      cases store buf i c with
      | none => rfl
      | some buf' =>
          have hlen : i + 1 + cs.length = i + (cs.length + 1) := by omega
          rw [← hlen]
          exact ih (i + 1) buf'

/-- **Stores that fit** leave the elements where they were stored, and the others as they were. -/
theorem storeAll_spec {i : ℕ} {cs : List α} (buf : Vector α n) (h : i + cs.length ≤ n) :
    ∃ buf', storeAll i cs buf = some buf' ∧
      ∀ k : ℕ, buf'[k]? = if i ≤ k ∧ k < i + cs.length then cs[k - i]? else buf[k]? := by
  induction cs generalizing i buf with
  | nil =>
      refine ⟨buf, rfl, ?_⟩
      intro k
      rw [List.length_nil, if_neg (by omega)]
  | cons c cs ih =>
      rw [List.length_cons] at h
      have hi : i < n := by omega
      obtain ⟨buf', hrun, hspec⟩ := ih (i := i + 1) (buf.set i c hi) (by omega)
      refine ⟨buf', ?_, ?_⟩
      · rw [storeAll, store_of_lt buf c hi]
        exact hrun
      · intro k
        rw [hspec k, List.length_cons]
        rcases Nat.lt_trichotomy k i with hlt | rfl | hgt
        · rw [if_neg (by omega), if_neg (by omega), Vector.getElem?_set_ne hi (by omega)]
        · rw [if_neg (by omega), if_pos (by omega), Vector.getElem?_set_self, Nat.sub_self,
            List.getElem?_cons_zero]
        · obtain ⟨j, rfl⟩ : ∃ j, k = i + 1 + j := ⟨k - (i + 1), by omega⟩
          have hj : i + 1 + j - i = j + 1 := by omega
          rw [hj, List.getElem?_cons_succ, Nat.add_sub_cancel_left,
            Vector.getElem?_set_ne hi (by omega)]
          by_cases hin : j < cs.length
          · rw [if_pos (by omega), if_pos (by omega)]
          · rw [if_neg (by omega), if_neg (by omega)]

/-- Stores that do not fit are undefined. -/
lemma storeAll_eq_none {i : ℕ} {cs : List α} (buf : Vector α n) (hi : i ≤ n)
    (h : n < i + cs.length) : storeAll i cs buf = none := by
  induction cs generalizing i buf with
  | nil =>
      rw [List.length_nil] at h
      omega
  | cons c cs ih =>
      rw [List.length_cons] at h
      rw [storeAll]
      by_cases hlt : i < n
      · rw [store_of_lt buf c hlt]
        exact ih (i := i + 1) _ (by omega) (by omega)
      · rw [store_of_le buf c (by omega)]
        rfl

/-- The element behind a first part of an array. -/
lemma getElem?_of_toList {buf : Vector α n} {l r : List α} {x : α} (h : buf.toList = l ++ x :: r) :
    buf[l.length]? = some x := by
  rw [← Vector.getElem?_toList, h]
  simp

/-- A store behind a first part of an array. -/
lemma store_of_toList {buf : Vector α n} {l r : List α} {x : α} (c : α)
    (h : buf.toList = l ++ x :: r) :
    ∃ buf', store buf l.length c = some buf' ∧ buf'.toList = l ++ c :: r := by
  have hlt : l.length < n := by
    have hlen := congrArg List.length h
    rw [Vector.length_toList, List.length_append, List.length_cons] at hlen
    omega
  refine ⟨buf.set l.length c hlt, store_of_lt buf c hlt, ?_⟩
  rw [Vector.toList_set, h, List.set_append_right _ _ le_rfl, Nat.sub_self, List.set_cons_zero]

/-- Stores into an array given in three parts replace the middle one. -/
lemma storeAll_of_toList {xs ys zs cs : List α} {buf : Vector α n}
    (h : buf.toList = xs ++ ys ++ zs) (hlen : ys.length = cs.length) :
    ∃ buf', storeAll xs.length cs buf = some buf' ∧ buf'.toList = xs ++ cs ++ zs := by
  induction cs generalizing xs ys buf with
  | nil =>
      obtain rfl := List.length_eq_zero_iff.mp hlen
      exact ⟨buf, rfl, h⟩
  | cons c cs ih =>
      obtain ⟨y, ys, rfl⟩ := List.exists_cons_of_length_eq_add_one hlen
      have hsplit : buf.toList = xs ++ y :: (ys ++ zs) := by simpa using h
      obtain ⟨buf₁, hstore, hbuf₁⟩ := store_of_toList c hsplit
      have hnext : buf₁.toList = (xs ++ [c]) ++ ys ++ zs := by simpa using hbuf₁
      obtain ⟨buf', hrest, hbuf'⟩ := ih hnext (Nat.succ.inj hlen)
      rw [List.length_append, List.length_singleton] at hrest
      refine ⟨buf', ?_, by simpa using hbuf'⟩
      rw [storeAll, hstore]
      exact hrest

/-- What the upward shift leaves at each place. -/
lemma shiftUp_spec {count i : ℕ} (buf : Vector α n) (hle : count ≤ i) (hi : i < n) :
    ∃ buf', shiftUp count i buf = some buf' ∧
      ∀ k : ℕ, buf'[k]? = if i - count < k ∧ k ≤ i then buf[k - 1]? else buf[k]? := by
  induction count generalizing i buf with
  | zero =>
      refine ⟨buf, rfl, ?_⟩
      intro k
      rw [if_neg (by omega)]
  | succ count ih =>
      have hi' : i - 1 < n := by omega
      obtain ⟨buf', hrun, hspec⟩ := ih (buf.set i buf[i - 1] hi) (by omega) hi'
      refine ⟨buf', ?_, ?_⟩
      · rw [shiftUp, Vector.getElem?_eq_getElem hi']
        simpa only [Option.bind_eq_bind, Option.bind_some, store_of_lt buf _ hi] using hrun
      · intro k
        rw [hspec k]
        by_cases hk : k = i
        · subst hk
          rw [if_neg (by omega), if_pos (by omega), Vector.getElem?_set_self,
            Vector.getElem?_eq_getElem hi']
        · rw [Vector.getElem?_set_ne hi (Ne.symm hk)]
          by_cases hlow : i - (count + 1) < k ∧ k ≤ i
          · rw [if_pos (by omega), if_pos hlow, Vector.getElem?_set_ne hi (by omega)]
          · rw [if_neg (by omega), if_neg hlow]

/-- What the downward shift leaves at each place. -/
lemma shiftDown_spec {count i : ℕ} (buf : Vector α n) (hi : i + count < n) :
    ∃ buf', shiftDown count i buf = some buf' ∧
      ∀ k : ℕ, buf'[k]? = if i ≤ k ∧ k < i + count then buf[k + 1]? else buf[k]? := by
  induction count generalizing i buf with
  | zero =>
      refine ⟨buf, rfl, ?_⟩
      intro k
      rw [if_neg (by omega)]
  | succ count ih =>
      have hlt : i < n := by omega
      have hi' : i + 1 < n := by omega
      obtain ⟨buf', hrun, hspec⟩ := @ih (i + 1) (buf.set i buf[i + 1] hlt) (by omega)
      refine ⟨buf', ?_, ?_⟩
      · rw [shiftDown, Vector.getElem?_eq_getElem hi']
        simpa only [Option.bind_eq_bind, Option.bind_some, store_of_lt buf _ hlt] using hrun
      · intro k
        rw [hspec k]
        by_cases hk : k = i
        · subst hk
          rw [if_neg (by omega), if_pos (by omega), Vector.getElem?_set_self,
            Vector.getElem?_eq_getElem hi']
        · rw [Vector.getElem?_set_ne hlt (Ne.symm hk)]
          by_cases hlow : i ≤ k ∧ k < i + (count + 1)
          · rw [if_pos (by omega), if_pos hlow, Vector.getElem?_set_ne hlt (by omega)]
          · rw [if_neg (by omega), if_neg hlow]

section Edits

variable {buf : Vector α n} {z : α} {xs ys : List α}

lemma Holds.replicate : Holds (Vector.replicate n z) z [] := by
  intro k hk
  simp [hk]

lemma Holds.take_toList {l : List α} (h : Holds buf z l) (hl : l.length ≤ n) :
    buf.toList.take l.length = l := by
  refine List.ext_getElem? fun k => ?_
  rw [List.getElem?_take]
  split_ifs with hk
  · rw [Vector.getElem?_toList, h k (by omega), List.getElem?_eq_getElem hk,
      List.getD_eq_getElem _ _ hk]
  · rw [List.getElem?_eq_none (by omega)]

/-- Storing `z` right behind the text changes nothing. -/
lemma Holds.set_length {l : List α} (h : Holds buf z l) (hl : l.length < n) :
    Holds (buf.set l.length z hl) z l := by
  intro k hk
  by_cases hkl : k = l.length
  · subst hkl
    rw [Vector.getElem?_set_self, List.getD_eq_default _ _ le_rfl]
  · rw [Vector.getElem?_set_ne hl (Ne.symm hkl), h k hk]

/-- **Inserting a character**: the text behind the cursor is moved up, and the character is stored
in the gap. -/
theorem holds_insert (h : Holds buf z (xs ++ ys)) (hn : xs.length + ys.length < n) (c : α) :
    ∃ gap buf', shiftUp ys.length (xs.length + ys.length) buf = some gap ∧
      store gap xs.length c = some buf' ∧ Holds buf' z (xs ++ c :: ys) := by
  obtain ⟨gap, hgap, hspec⟩ := shiftUp_spec buf (Nat.le_add_left ys.length xs.length) hn
  have hx : xs.length < n := by omega
  refine ⟨gap, gap.set xs.length c hx, hgap, store_of_lt gap c hx, ?_⟩
  intro k hk
  rcases Nat.lt_trichotomy k xs.length with hlt | rfl | hgt
  · rw [Vector.getElem?_set_ne hx (by omega), hspec, if_neg (by omega), h k hk,
      List.getD_append _ _ _ _ hlt, List.getD_append _ _ _ _ hlt]
  · rw [Vector.getElem?_set_self, List.getD_append_right _ _ _ _ le_rfl, Nat.sub_self,
      List.getD_cons_zero]
  · rw [Vector.getElem?_set_ne hx (by omega), hspec, List.getD_append_right _ _ _ _ hgt.le]
    obtain ⟨j, rfl⟩ : ∃ j, k = xs.length + (j + 1) := ⟨k - xs.length - 1, by omega⟩
    rw [Nat.add_sub_cancel_left, List.getD_cons_succ]
    by_cases hj : j < ys.length
    · rw [if_pos (by omega), ← Nat.add_assoc, Nat.add_sub_cancel, h _ (by omega),
        List.getD_append_right _ _ _ _ (by omega), Nat.add_sub_cancel_left]
    · rw [if_neg (by omega), h _ hk, List.getD_append_right _ _ _ _ (by omega),
        List.getD_eq_default _ _ (by omega), List.getD_eq_default _ _ (by omega)]

/-- A character is stored right behind the text. -/
lemma holds_snoc {l : List α} (h : Holds buf z l) (hn : l.length < n) (c : α) :
    ∃ buf', store buf l.length c = some buf' ∧ Holds buf' z (l ++ [c]) := by
  obtain ⟨gap, buf', hgap, hstore, hholds⟩ :=
    @holds_insert _ _ buf z l [] (by rwa [List.append_nil]) hn c
  obtain rfl := Option.some.inj hgap
  exact ⟨buf', hstore, hholds⟩

/-- **Erasing a character**: the text behind it is moved down, and the last place is cleared. -/
theorem holds_erase {c : α} (h : Holds buf z (xs ++ c :: ys))
    (hn : xs.length + ys.length + 1 < n) :
    ∃ closed buf', shiftDown ys.length xs.length buf = some closed ∧
      store closed (xs.length + ys.length) z = some buf' ∧ Holds buf' z (xs ++ ys) := by
  have hx : xs.length + ys.length < n := by omega
  obtain ⟨closed, hclosed, hspec⟩ := shiftDown_spec buf hx
  refine ⟨closed, closed.set _ z hx, hclosed, store_of_lt closed z hx, ?_⟩
  intro k hk
  by_cases hlt : k < xs.length
  · rw [Vector.getElem?_set_ne hx (by omega), hspec, if_neg (by omega), h k hk,
      List.getD_append _ _ _ _ hlt, List.getD_append _ _ _ _ hlt]
  · obtain ⟨j, rfl⟩ : ∃ j, k = xs.length + j := ⟨k - xs.length, by omega⟩
    rw [List.getD_append_right _ _ _ _ (by omega), Nat.add_sub_cancel_left]
    rcases Nat.lt_trichotomy j ys.length with hj | rfl | hj
    · rw [Vector.getElem?_set_ne hx (by omega), hspec, if_pos (by omega), h _ (by omega),
        Nat.add_assoc, List.getD_append_right _ _ _ _ (by omega), Nat.add_sub_cancel_left,
        List.getD_cons_succ]
    · rw [Vector.getElem?_set_self, List.getD_eq_default _ _ le_rfl]
    · obtain ⟨i, rfl⟩ : ∃ i, j = i + 1 := ⟨j - 1, by omega⟩
      rw [Vector.getElem?_set_ne hx (by omega), hspec, if_neg (by omega), h _ hk,
        List.getD_append_right _ _ _ _ (by omega), Nat.add_sub_cancel_left, List.getD_cons_succ,
        List.getD_eq_default _ _ (by omega), List.getD_eq_default _ _ (by omega)]

end Edits

end Editing
