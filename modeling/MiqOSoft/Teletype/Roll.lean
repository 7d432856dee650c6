import Mathlib.Tactic

/-!
A teletype, which writes on a roll of paper without end.

* `Roll α w`: rows of `w` cells, oldest first, and a cursor that stands in one of them.
* `Roll.newline`, `Roll.carriageReturn`, `Roll.write`: what the characters do.  The cursor leaves
  a row right after its last cell, and a row that nothing stands in yet is blank.
* `Window h t cells x y`: a screen of `h` rows, with the given cells and cursor, shows the end of
  the roll.
* `Window.write`, `Window.newline_of_lt`, `Window.newline_of_last`: what the screen has to do to
  show it still.
-/

namespace Teletype

variable {α : Type*} {w h : ℕ}

/-- Rows of `w` cells, oldest first, and a cursor. -/
structure Roll (α : Type*) (w : ℕ) where
  rows : List (Fin w → α)
  row : ℕ
  col : ℕ
  row_lt : row < rows.length
  col_lt : col < w

namespace Roll

/-- The roll that begins with the given rows. -/
def ofCells (h : ℕ) (cells : ℕ → ℕ → α) (x y : ℕ) (hx : x < w) (hy : y < h) : Roll α w where
  rows := List.ofFn fun (r : Fin h) (k : Fin w) => cells r k
  row := y
  col := x
  row_lt := by rwa [List.length_ofFn]
  col_lt := hx

/-- The cursor goes to the start of the next row, which is blank if it is a new one. -/
def newline (blank : α) (t : Roll α w) : Roll α w where
  rows := if t.row + 1 < t.rows.length then t.rows else t.rows ++ [fun _ => blank]
  row := t.row + 1
  col := 0
  row_lt := by
    have := t.row_lt
    split_ifs with hlt
    · exact hlt
    · rw [List.length_append, List.length_singleton]
      omega
  col_lt := (Nat.zero_le _).trans_lt t.col_lt

/-- The cursor goes to the start of its row. -/
def carriageReturn (t : Roll α w) : Roll α w :=
  { t with col := 0, col_lt := (Nat.zero_le _).trans_lt t.col_lt }

/-- A character is put where the cursor stands. -/
def mark (c : α) (t : Roll α w) : Roll α w :=
  { t with
    rows := t.rows.modify t.row fun cells => Function.update cells ⟨t.col, t.col_lt⟩ c
    row_lt := by rw [List.length_modify]; exact t.row_lt }

/-- A character is written, and the cursor goes on behind it. -/
def write (blank c : α) (t : Roll α w) : Roll α w :=
  if hlt : t.col + 1 < w then { t.mark c with col := t.col + 1, col_lt := hlt }
  else (t.mark c).newline blank

end Roll

/-! ### A screen at the end of the roll -/

/-- The cells of a screen of `h` rows, addressed by row and column, are the last rows of the roll,
and the cursor is at its place. -/
structure Window (h : ℕ) (t : Roll α w) (cells : ℕ → ℕ → α) (x y : ℕ) : Prop where
  enough : h ≤ t.rows.length
  shown : ∀ r < h, t.rows[t.rows.length - h + r]? = some fun k : Fin w => cells r k
  col : x = t.col
  row : t.rows.length - h + y = t.row

namespace Window

variable {t : Roll α w} {cells cells' : ℕ → ℕ → α} {x y : ℕ}

/-- The screen that the roll begins with. -/
lemma ofCells (cells : ℕ → ℕ → α) (hx : x < w) (hy : y < h) :
    Window h (Roll.ofCells h cells x y hx hy) cells x y where
  enough := by simp [Roll.ofCells]
  shown r hr := by simp [Roll.ofCells, hr]
  col := rfl
  row := by simp [Roll.ofCells]

lemma lt_height (hw : Window h t cells x y) : y < h := by
  have hrow := hw.row
  have hlt := t.row_lt
  have henough := hw.enough
  omega

lemma lt_width (hw : Window h t cells x y) : x < w := hw.col.trans_lt t.col_lt

/-- Only the cells on the screen count. -/
lemma congr (hw : Window h t cells x y) (heq : ∀ r < h, ∀ k < w, cells' r k = cells r k) :
    Window h t cells' x y where
  enough := hw.enough
  shown r hr := by
    rw [hw.shown r hr]
    exact congrArg some (funext fun k => (heq r hr k k.isLt).symm)
  col := hw.col
  row := hw.row

lemma carriageReturn (hw : Window h t cells x y) : Window h t.carriageReturn cells 0 y where
  enough := hw.enough
  shown := hw.shown
  col := rfl
  row := hw.row

/-- A character written at the cursor. -/
lemma mark (hw : Window h t cells x y) (c : α) :
    Window h (t.mark c) (fun r k => if r = y ∧ k = x then c else cells r k) x y := by
  have hlen : (t.mark c).rows.length = t.rows.length := List.length_modify _ _ _
  have hrow := hw.row
  refine ⟨hlen ▸ hw.enough, ?_, hw.col, hlen ▸ hrow⟩
  intro r hr
  have hiff : t.row = t.rows.length - h + r ↔ r = y := by omega
  rw [hlen, Roll.mark, List.getElem?_modify, hw.shown r hr]
  simp only [Option.map_eq_map, Option.map_some, hiff]
  congr 1
  funext k
  by_cases hry : r = y
  · simp only [hry, if_true, Function.update_apply, Fin.ext_iff, ← hw.col, true_and]
  · simp only [hry, if_false, false_and]

/-- The cursor leaves a row that is not the last one: nothing moves. -/
lemma newline_of_lt (hw : Window h t cells x y) (blank : α) (hy : y + 1 < h) :
    Window h (t.newline blank) cells 0 (y + 1) := by
  have hlt : t.row + 1 < t.rows.length := by
    have hrow := hw.row
    have henough := hw.enough
    omega
  have hrows : (t.newline blank).rows = t.rows := if_pos hlt
  exact
    { enough := hrows ▸ hw.enough
      shown := by simpa only [hrows] using hw.shown
      col := rfl
      row := by rw [hrows, ← add_assoc, hw.row]; rfl }

/-- The cursor leaves the last row: every row moves up, and the new one is blank. -/
lemma newline_of_last (hw : Window h t cells x y) (blank : α) (hy : y + 1 = h) :
    Window h (t.newline blank) (fun r k => if r + 1 < h then cells (r + 1) k else blank) 0 y := by
  have hrow := hw.row
  have henough := hw.enough
  have hrows : (t.newline blank).rows = t.rows ++ [fun _ => blank] := if_neg (by omega)
  have hlen : (t.newline blank).rows.length = t.rows.length + 1 := by simp [hrows]
  have hnext : (t.newline blank).row = t.row + 1 := rfl
  refine ⟨by omega, ?_, rfl, by omega⟩
  intro r hr
  have hplace : (t.newline blank).rows.length - h + r = t.rows.length - h + (r + 1) := by omega
  rw [hplace, hrows, List.getElem?_append]
  by_cases hlast : r + 1 < h
  · simp only [if_pos hlast]
    rw [if_pos (by omega), hw.shown (r + 1) hlast]
  · simp only [if_neg hlast]
    rw [if_neg (by omega), show t.rows.length - h + (r + 1) - t.rows.length = 0 by omega]
    rfl

/-- A character that is not put into the last cell of a row. -/
lemma write_of_lt (hw : Window h t cells x y) (blank c : α) (hx : x + 1 < w) :
    Window h (t.write blank c) (fun r k => if r = y ∧ k = x then c else cells r k) (x + 1) y := by
  have hlt : t.col + 1 < w := hw.col ▸ hx
  have hmark := hw.mark c
  rw [Roll.write, dif_pos hlt]
  exact ⟨hmark.enough, hmark.shown, by rw [hw.col], hmark.row⟩

/-- The character put into the last cell of a row is followed by a newline. -/
lemma write_of_last (hw : Window h t cells x y) (blank c : α) (hx : x + 1 = w) :
    t.write blank c = (t.mark c).newline blank := by
  rw [Roll.write, dif_neg]
  rw [← hw.col]
  omega

end Window

end Teletype
