import Mathlib.Data.List.TakeWhile
import Mathlib.Tactic

/-!
The words and the lines of a text.

* `wordsOf p l`: the maximal runs of `l` without a separator, in order; `p` tells the separators.
* `wordsOf_append`: a separator cuts the words of a text in two; how a text is read from its front
  follows from it (`wordsOf_cons_of_pos`, `wordsOf_cons_of_neg`, `wordsOf_induction`).
* `wordsOf_eq_nil_iff`: the texts without a word.
* `forall_eq_false_iff`: a text that begins with a letter is a word if it has no second one and does
  not end with a separator.
* `linesOf p l`: the lines of `l`, each of them but the last ended by a separator.  There is no line
  behind the last separator, unless something stands there.
-/

namespace Editing

variable {α : Type*} {p : α → Bool}

/-- The maximal runs of a text without a separator, in order. -/
def wordsOf (p : α → Bool) (l : List α) : List (List α) :=
  (l.splitOnP p).filter fun w => !w.isEmpty

@[simp] lemma wordsOf_nil : wordsOf p [] = [] := rfl

/-- A separator cuts the words of a text in two. -/
lemma wordsOf_append {c : α} (hc : p c = true) (l r : List α) :
    wordsOf p (l ++ c :: r) = wordsOf p l ++ wordsOf p r := by
  rw [wordsOf, List.splitOnP_append_cons l r hc, List.filter_append]
  rfl

/-- A separator in front of a text adds no word. -/
lemma wordsOf_cons_of_pos {c : α} (hc : p c = true) (l : List α) :
    wordsOf p (c :: l) = wordsOf p l :=
  wordsOf_append hc [] l

/-- A text without separators is a word, if it is anything. -/
lemma wordsOf_of_forall {w : List α} (hw : ∀ d ∈ w, p d = false) (hne : w ≠ []) :
    wordsOf p w = [w] := by
  rw [wordsOf, List.splitOnP_eq_singleton hw]
  simp [hne]

/-- What stands in front of the first separator is a word, if it is anything. -/
lemma wordsOf_append_cons {w : List α} {c : α} (hw : ∀ d ∈ w, p d = false) (hne : w ≠ [])
    (hc : p c = true) (l : List α) : wordsOf p (w ++ c :: l) = w :: wordsOf p l := by
  rw [wordsOf_append hc, wordsOf_of_forall hw hne]
  rfl

/-- A text is free of separators, or has a first one. -/
lemma forall_or_exists_append (p : α → Bool) (l : List α) :
    (∀ d ∈ l, p d = false) ∨
      ∃ w c r, l = w ++ c :: r ∧ (∀ d ∈ w, p d = false) ∧ p c = true := by
  by_cases h : ∃ c ∈ l, p c = true
  · obtain ⟨c, hmem, hc⟩ := h
    obtain ⟨a, w, r, hw, ha, hl, -⟩ := List.exists_of_eraseP hmem hc
    exact Or.inr ⟨w, a, r, hl, fun d hd => by simpa using hw d hd, ha⟩
  · push Not at h
    exact Or.inl fun d hd => by simpa using h d hd

/-- A text that begins with a letter is a word, or has a word in front of its first separator. -/
lemma forall_or_exists_word {c : α} (hc : p c = false) (l : List α) :
    (∀ d ∈ c :: l, p d = false) ∨ ∃ w d r, c :: l = w ++ d :: r ∧ p d = true ∧
      wordsOf p (c :: l) = w :: wordsOf p r := by
  rcases forall_or_exists_append p (c :: l) with hall | ⟨w, d, r, hl, hw, hd⟩
  · exact Or.inl hall
  · have hne : w ≠ [] := by
      rintro rfl
      obtain ⟨rfl, -⟩ := List.cons.inj hl
      rw [hc] at hd
      exact absurd hd Bool.false_ne_true
    exact Or.inr ⟨w, d, r, hl, hd, by rw [hl, wordsOf_append_cons hw hne hd]⟩

/-- A letter begins a word, which goes on to the first separator. -/
lemma wordsOf_cons_of_neg {c : α} (hc : p c = false) (l : List α) :
    wordsOf p (c :: l) =
      (c :: l.takeWhile fun d => !p d) :: wordsOf p (l.dropWhile fun d => !p d) := by
  rcases forall_or_exists_append p l with hall | ⟨w, d, r, rfl, hw, hd⟩
  · have hword : ∀ d ∈ c :: l, p d = false := List.forall_mem_cons.mpr ⟨hc, hall⟩
    rw [wordsOf_of_forall hword (List.cons_ne_nil c l), List.takeWhile_eq_self_iff.mpr,
      List.dropWhile_eq_nil_iff.mpr, wordsOf_nil] <;> simpa using hall
  · have hword : ∀ d ∈ c :: w, p d = false := List.forall_mem_cons.mpr ⟨hc, hw⟩
    have hskip : ∀ d ∈ w, (!p d) = true := fun d hmem => by rw [hw d hmem, Bool.not_false]
    rw [← List.cons_append, wordsOf_append_cons hword (List.cons_ne_nil c w) hd,
      List.takeWhile_append_of_pos hskip, List.dropWhile_append_of_pos hskip,
      List.takeWhile_cons_of_neg (by simp [hd]), List.dropWhile_cons_of_neg (by simp [hd]),
      List.append_nil, wordsOf_cons_of_pos hd]

/-- Reading a text from its front, separator by separator and word by word. -/
theorem wordsOf_induction (p : α → Bool) {motive : List α → Prop} (nil : motive [])
    (separator : ∀ c l, p c = true → motive l → motive (c :: l))
    (word : ∀ c l, p c = false → motive (l.dropWhile fun d => !p d) → motive (c :: l))
    (l : List α) : motive l := by
  induction hn : l.length using Nat.strong_induction_on generalizing l with
  | h n ih =>
      cases l with
      | nil => exact nil
      | cons c l =>
          rw [List.length_cons] at hn
          cases hc : p c with
          | true => exact separator c l hc (ih _ (by omega) l rfl)
          | false =>
              have hdrop := (List.dropWhile_suffix (l := l) fun d => !p d).length_le
              exact word c l hc (ih _ (by omega) _ rfl)

/-- A text has no more words than characters. -/
lemma length_wordsOf_le (p : α → Bool) (l : List α) : (wordsOf p l).length ≤ l.length := by
  induction l using wordsOf_induction p with
  | nil => exact Nat.zero_le _
  | separator c l hc ih =>
      rw [wordsOf_cons_of_pos hc, List.length_cons]
      omega
  | word c l hc ih =>
      have hdrop := (List.dropWhile_suffix (l := l) fun d => !p d).length_le
      rw [wordsOf_cons_of_neg hc, List.length_cons, List.length_cons]
      omega

/-- The characters of a word are those of the text. -/
lemma mem_of_mem_wordsOf {l w : List α} {d : α} (hw : w ∈ wordsOf p l) (hd : d ∈ w) : d ∈ l := by
  induction l using wordsOf_induction p with
  | nil => exact absurd hw List.not_mem_nil
  | separator c l hc ih =>
      rw [wordsOf_cons_of_pos hc] at hw
      exact List.mem_cons_of_mem c (ih hw)
  | word c l hc ih =>
      rw [wordsOf_cons_of_neg hc, List.mem_cons] at hw
      rcases hw with rfl | hw
      · rcases List.mem_cons.mp hd with rfl | hd
        · exact List.mem_cons_self
        · exact List.mem_cons_of_mem c ((List.takeWhile_prefix _).mem hd)
      · exact List.mem_cons_of_mem c ((List.dropWhile_suffix _).mem (ih hw))

lemma wordsOf_cons_ne_nil {c : α} (hc : p c = false) (l : List α) : wordsOf p (c :: l) ≠ [] := by
  rcases forall_or_exists_word hc l with hall | ⟨w, d, r, -, -, hwords⟩
  · rw [wordsOf_of_forall hall (List.cons_ne_nil c l)]
    exact List.cons_ne_nil _ _
  · rw [hwords]
    exact List.cons_ne_nil _ _

/-- The texts without a word. -/
theorem wordsOf_eq_nil_iff {l : List α} : wordsOf p l = [] ↔ ∀ c ∈ l, p c = true := by
  induction l with
  | nil => simp
  | cons c l ih =>
      cases hc : p c with
      | true => rw [wordsOf_cons_of_pos hc, ih, List.forall_mem_cons, and_iff_right hc]
      | false => simp [wordsOf_cons_ne_nil hc, hc]

/-- A text that begins with a letter begins with its first word. -/
lemma prefix_of_wordsOf_eq_cons {c : α} (hc : p c = false) {l w : List α} {ws : List (List α)}
    (h : wordsOf p (c :: l) = w :: ws) : w <+: c :: l := by
  rcases forall_or_exists_word hc l with hall | ⟨v, d, r, hl, -, hwords⟩
  · rw [wordsOf_of_forall hall (List.cons_ne_nil c l)] at h
    obtain ⟨rfl, -⟩ := List.cons.inj h
    exact List.prefix_rfl
  · rw [hwords] at h
    obtain ⟨rfl, -⟩ := List.cons.inj h
    exact ⟨d :: r, hl.symm⟩

/-- A text that begins with a letter is a word if it is its own first word. -/
lemma forall_eq_false_of_head {c : α} (hc : p c = false) {l : List α} {ws : List (List α)}
    (h : wordsOf p (c :: l) = (c :: l) :: ws) : ∀ d ∈ c :: l, p d = false := by
  rcases forall_or_exists_word hc l with hall | ⟨w, d, r, hl, -, hwords⟩
  · exact hall
  · rw [hwords] at h
    obtain ⟨hw, -⟩ := List.cons.inj h
    have hlen := congrArg List.length (hw.trans hl)
    simp at hlen

/-- A text that begins with a letter is a word if it has no second one and does not end with a
separator. -/
theorem forall_eq_false_iff {c : α} (hc : p c = false) (l : List α) :
    (∀ d ∈ c :: l, p d = false) ↔
      (wordsOf p (c :: l)).length = 1 ∧ ∀ d ∈ (c :: l).getLast?, p d = false := by
  constructor
  · intro h
    rw [wordsOf_of_forall h (List.cons_ne_nil c l)]
    exact ⟨rfl, fun d hd => h d (List.mem_of_getLast? hd)⟩
  · rintro ⟨hone, hlast⟩
    rcases forall_or_exists_word hc l with hall | ⟨w, d, r, hl, hd, hwords⟩
    · exact hall
    · rw [hwords, List.length_cons] at hone
      have hr : ∀ e ∈ r, p e = true :=
        wordsOf_eq_nil_iff.mp (List.length_eq_zero_iff.mp (Nat.succ.inj hone))
      obtain ⟨e, he⟩ : ∃ e, (d :: r).getLast? = some e := ⟨_, List.getLast?_cons⟩
      have hpe : p e = true := by
        rcases List.mem_cons.mp (List.mem_of_getLast? he) with rfl | hmem
        · exact hd
        · exact hr e hmem
      have hfalse := hlast e (by rw [hl, List.getLast?_append, he]; rfl)
      rw [hpe] at hfalse
      exact absurd hfalse.symm Bool.false_ne_true

/-! ### Lines -/

/-- The lines of a text: what the separators end, and what stands behind the last of them, if it is
anything. -/
def linesOf (p : α → Bool) (l : List α) : List (List α) :=
  (l.splitOnP p).dropLast ++ ((l.splitOnP p).getLast?.filter fun w => !w.isEmpty).toList

@[simp] lemma linesOf_nil : linesOf p [] = [] := rfl

/-- A text without separators is a line, if it is anything. -/
lemma linesOf_of_forall {w : List α} (hw : ∀ d ∈ w, p d = false) (hne : w ≠ []) :
    linesOf p w = [w] := by
  rw [linesOf, List.splitOnP_eq_singleton hw]
  simp [hne]

/-- The first separator ends the first line. -/
lemma linesOf_append_cons {w : List α} {c : α} (hw : ∀ d ∈ w, p d = false) (hc : p c = true)
    (l : List α) : linesOf p (w ++ c :: l) = w :: linesOf p l := by
  have hne : l.splitOnP p ≠ [] := List.splitOnP_ne_nil p l
  rw [linesOf, List.splitOnP_append_cons w l hc, List.splitOnP_eq_singleton hw,
    List.singleton_append, List.dropLast_cons_of_ne_nil hne, List.getLast?_cons_of_ne_nil hne,
    List.cons_append]
  rfl

end Editing
