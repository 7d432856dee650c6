import MiqOSoft.Common.Strings
import MiqOSoft.Teletype.Roll
import MiqOSoft.Transition.Loop

/-!
The console: `vga_text.c`, which keeps a screen of 80 by 25 cells in the memory of the display.

* `Vga`: the buffer of the screen, the cursor of the driver and the one of the hardware.  Beside
  the state, the accesses to cells are noted, and how many rows have left the screen.
* `vgaPutc`: what `VGA_putc` does.  A tab calls it again for spaces, in a loop whose bound is
  computed anew from the column each time.
* `char_vgaScrollback`: the copy in place moves every row up.
* `OnScreen`: the cursor is on the screen, and so was every cell accessed; `onScreen_vgaPutc`.
* `showsEnd_vgaPutc`: but for tabs, the screen goes on showing the end of a roll of paper;
  `console_vgaPuts` puts the two together.
* `tabsAligned_iff`: a tab never leads to a tab stop.
-/

namespace MiqOSoft

open Machine Teletype Transition

/-- `SCREEN_WIDTH`. -/
abbrev SCREEN_WIDTH : ℕ := 80

/-- `SCREEN_HEIGHT`. -/
abbrev SCREEN_HEIGHT : ℕ := 25

/-- `DEFAULT_COLOR`. -/
abbrev DEFAULT_COLOR : Byte := 7#8

/-- The functions that access a cell of the screen. -/
inductive CellFunction
  | putchr
  | putcolor
  | getchr
  | getcolor
deriving DecidableEq

/-- An access to a cell: by which function, and the column and row it was called with. -/
structure CellAccess where
  function : CellFunction
  x : ℕ
  y : ℕ
deriving DecidableEq

/-- `g_ScreenBuffer`, `g_ScreenX`, `g_ScreenY` and the cursor registers of the display.  The
driver has no use for `accesses`, the latest of which is first, and `scrolled`. -/
structure Vga where
  screenBuffer : ℕ → Byte
  screenX : ℕ
  screenY : ℕ
  cursor : ℕ
  accesses : List CellAccess
  scrolled : ℕ

namespace Vga

/-- The character shown in a cell. -/
def char (v : Vga) (x y : ℕ) : Byte := v.screenBuffer (2 * (y * SCREEN_WIDTH + x))

/-- The row of the cursor, counted from the first row that was ever on the screen. -/
def line (v : Vga) : ℕ := v.scrolled + v.screenY

/-- `g_ScreenX = 0`. -/
def rowStart (v : Vga) : Vga := { v with screenX := 0 }

/-- `g_ScreenX = 0` and `g_ScreenY++`. -/
def nextRow (v : Vga) : Vga := { v with screenX := 0, screenY := v.screenY + 1 }

end Vga

/-! ### The driver -/

/-- `VGA_putchr`. -/
def vgaPutchr (x y : ℕ) (c : Byte) (v : Vga) : Vga :=
  { v with
    screenBuffer := Function.update v.screenBuffer (2 * (y * SCREEN_WIDTH + x)) c
    accesses := ⟨.putchr, x, y⟩ :: v.accesses }

/-- `VGA_putcolor`. -/
def vgaPutcolor (x y : ℕ) (color : Byte) (v : Vga) : Vga :=
  { v with
    screenBuffer := Function.update v.screenBuffer (2 * (y * SCREEN_WIDTH + x) + 1) color
    accesses := ⟨.putcolor, x, y⟩ :: v.accesses }

/-- `VGA_getchr`. -/
def vgaGetchr (x y : ℕ) (v : Vga) : Byte × Vga :=
  (v.screenBuffer (2 * (y * SCREEN_WIDTH + x)),
    { v with accesses := ⟨.getchr, x, y⟩ :: v.accesses })

/-- `VGA_getcolor`. -/
def vgaGetcolor (x y : ℕ) (v : Vga) : Byte × Vga :=
  (v.screenBuffer (2 * (y * SCREEN_WIDTH + x) + 1),
    { v with accesses := ⟨.getcolor, x, y⟩ :: v.accesses })

/-- `VGA_setcursor`, which writes the two bytes of the position. -/
def vgaSetcursor (x y : ℕ) (v : Vga) : Vga :=
  { v with cursor := (y * SCREEN_WIDTH + x) % 65536 }

/-- The loops over the cells of the screen, from a row on. -/
def forCells (first : ℕ) (body : ℕ → ℕ → Vga → Vga) (v : Vga) : Vga :=
  (List.range' first (SCREEN_HEIGHT - first)).foldl
    (fun v y => (List.range' 0 SCREEN_WIDTH).foldl (fun v x => body x y v) v) v

/-- A cell is copied to the place `lines` rows above. -/
def copyCell (lines x y : ℕ) (v : Vga) : Vga :=
  let (c, v) := vgaGetchr x y v
  let v := vgaPutchr x (y - lines) c v
  let (color, v) := vgaGetcolor x y v
  vgaPutcolor x (y - lines) color v

/-- A cell is cleared. -/
def clearCell (x y : ℕ) (v : Vga) : Vga :=
  vgaPutcolor x y DEFAULT_COLOR (vgaPutchr x y 0#8 v)

/-- `VGA_clrscr`. -/
def vgaClrscr (v : Vga) : Vga :=
  vgaSetcursor 0 0 { forCells 0 clearCell v with screenX := 0, screenY := 0 }

/-- `VGA_scrollback`. -/
def vgaScrollback (lines : ℕ) (v : Vga) : Vga :=
  let v := forCells lines (copyCell lines) v
  let v := forCells (SCREEN_HEIGHT - lines) clearCell v
  { v with screenY := v.screenY - lines, scrolled := v.scrolled + lines }

/-- What follows the `switch` of `VGA_putc`. -/
def wrapAndScroll (v : Vga) : Vga :=
  let v := if SCREEN_WIDTH ≤ v.screenX then v.nextRow else v
  let v := if SCREEN_HEIGHT ≤ v.screenY then vgaScrollback 1 v else v
  vgaSetcursor v.screenX v.screenY v

/-- The default case of the `switch`. -/
def putAtCursor (c : Byte) (v : Vga) : Vga :=
  let v := vgaPutchr v.screenX v.screenY c v
  { v with screenX := v.screenX + 1 }

/-- `for (int i = 0; i < 4 - (g_ScreenX % 4); i++) VGA_putc(' ')`, from some `i` on.  A space falls
under the default case.  As the bound is at most 4, so is the number of turns. -/
def tabLoop : ℕ → ℕ → Vga → Vga
  | 0, _, v => v
  | turns + 1, i, v =>
      if i < 4 - v.screenX % 4 then
        tabLoop turns (i + 1) (wrapAndScroll (putAtCursor 32#8 v))
      else v

/-- `VGA_putc`. -/
def vgaPutc (c : Byte) (v : Vga) : Vga :=
  wrapAndScroll <|
    if c = 10#8 then v.nextRow
    else if c = 9#8 then tabLoop 4 0 v
    else if c = 13#8 then v.rowStart
    else putAtCursor c v

/-- A text printed character by character, as `printf` does it. -/
def vgaPuts (text : List Byte) (v : Vga) : Vga := text.foldl (fun v c => vgaPutc c v) v

lemma width_pos : 0 < SCREEN_WIDTH := by decide

lemma one_le_height : 1 ≤ SCREEN_HEIGHT := by decide

@[simp] lemma vgaPuts_nil (v : Vga) : vgaPuts [] v = v := rfl

@[simp] lemma vgaPuts_cons (c : Byte) (text : List Byte) (v : Vga) :
    vgaPuts (c :: text) v = vgaPuts text (vgaPutc c v) := rfl

lemma vgaPuts_append (text text' : List Byte) (v : Vga) :
    vgaPuts (text ++ text') v = vgaPuts text' (vgaPuts text v) :=
  List.foldl_append

/-! ### The loops over the cells -/

/-- **The rule for the loops over the cells**, which come in the order of their addresses. -/
theorem forCells_invariant {P : ℕ → Vga → Prop} {first : ℕ} (body : ℕ → ℕ → Vga → Vga) {v : Vga}
    (hbody : ∀ x y v, x < SCREEN_WIDTH → first ≤ y → y < SCREEN_HEIGHT →
      P (y * SCREEN_WIDTH + x) v → P (y * SCREEN_WIDTH + x + 1) (body x y v))
    (hfirst : first ≤ SCREEN_HEIGHT) (hv : P (first * SCREEN_WIDTH) v) :
    P (SCREEN_HEIGHT * SCREEN_WIDTH) (forCells first body v) := by
  have hrow : ∀ y v, first ≤ y → y < SCREEN_HEIGHT → P (y * SCREEN_WIDTH) v →
      P ((y + 1) * SCREEN_WIDTH)
        ((List.range' 0 SCREEN_WIDTH).foldl (fun v x => body x y v) v) := by
    intro y v hle hy hP
    have hturns : P (y * SCREEN_WIDTH + (0 + SCREEN_WIDTH))
        ((List.range' 0 SCREEN_WIDTH).foldl (fun v x => body x y v) v) :=
      foldl_range'_invariant (P := fun x v => P (y * SCREEN_WIDTH + x) v)
        (fun x v _ hx => hbody x y v (by omega) hle hy) hP
    rwa [Nat.zero_add, ← Nat.succ_mul] at hturns
  have hrows := foldl_range'_invariant (P := fun y v => P (y * SCREEN_WIDTH) v)
    (n := SCREEN_HEIGHT - first) (fun y v hle hy => hrow y v hle (by omega)) hv
  rwa [Nat.add_sub_cancel' hfirst] at hrows

/-- Every access, but for those noted before, was to a cell of the screen. -/
def Vga.Inside (noted : List CellAccess) (v : Vga) : Prop :=
  ∀ a ∈ v.accesses, a ∈ noted ∨ a.x < SCREEN_WIDTH ∧ a.y < SCREEN_HEIGHT

/-- Nothing but the cells, and accesses inside the screen, distinguishes the two states. -/
structure SameButCells (v v' : Vga) : Prop where
  screenX : v'.screenX = v.screenX
  screenY : v'.screenY = v.screenY
  cursor : v'.cursor = v.cursor
  scrolled : v'.scrolled = v.scrolled
  inside : ∀ noted, v.Inside noted → v'.Inside noted

lemma SameButCells.refl (v : Vga) : SameButCells v v := ⟨rfl, rfl, rfl, rfl, fun _ => id⟩

lemma SameButCells.trans {v v' v'' : Vga} (h : SameButCells v v') (h' : SameButCells v' v'') :
    SameButCells v v'' where
  screenX := h'.screenX.trans h.screenX
  screenY := h'.screenY.trans h.screenY
  cursor := h'.cursor.trans h.cursor
  scrolled := h'.scrolled.trans h.scrolled
  inside := fun noted hv => h'.inside noted (h.inside noted hv)

lemma sameButCells_copyCell {lines x y : ℕ} (v : Vga) (hx : x < SCREEN_WIDTH)
    (hy : y < SCREEN_HEIGHT) : SameButCells v (copyCell lines x y v) := by
  refine ⟨rfl, rfl, rfl, rfl, ?_⟩
  intro noted hv a ha
  simp only [copyCell, vgaGetchr, vgaPutchr, vgaGetcolor, vgaPutcolor, List.mem_cons] at ha
  rcases ha with rfl | rfl | rfl | rfl | ha
  · exact Or.inr ⟨hx, (Nat.sub_le y lines).trans_lt hy⟩
  · exact Or.inr ⟨hx, hy⟩
  · exact Or.inr ⟨hx, (Nat.sub_le y lines).trans_lt hy⟩
  · exact Or.inr ⟨hx, hy⟩
  · exact hv a ha

lemma sameButCells_clearCell {x y : ℕ} (v : Vga) (hx : x < SCREEN_WIDTH)
    (hy : y < SCREEN_HEIGHT) : SameButCells v (clearCell x y v) := by
  refine ⟨rfl, rfl, rfl, rfl, ?_⟩
  intro noted hv a ha
  simp only [clearCell, vgaPutchr, vgaPutcolor, List.mem_cons] at ha
  rcases ha with rfl | rfl | ha
  · exact Or.inr ⟨hx, hy⟩
  · exact Or.inr ⟨hx, hy⟩
  · exact hv a ha

lemma screenBuffer_copyCell (lines x y j : ℕ) (v : Vga) :
    (copyCell lines x y v).screenBuffer j =
      if j = 2 * ((y - lines) * SCREEN_WIDTH + x) then v.char x y
      else if j = 2 * ((y - lines) * SCREEN_WIDTH + x) + 1 then
        v.screenBuffer (2 * (y * SCREEN_WIDTH + x) + 1)
      else v.screenBuffer j := by
  simp only [copyCell, vgaGetchr, vgaPutchr, vgaGetcolor, vgaPutcolor, Function.update_apply,
    Vga.char]
  split_ifs <;> first | rfl | omega

lemma screenBuffer_clearCell (x y j : ℕ) (v : Vga) :
    (clearCell x y v).screenBuffer j =
      if j = 2 * (y * SCREEN_WIDTH + x) then 0#8
      else if j = 2 * (y * SCREEN_WIDTH + x) + 1 then DEFAULT_COLOR else v.screenBuffer j := by
  simp only [clearCell, vgaPutchr, vgaPutcolor, Function.update_apply]
  split_ifs <;> first | rfl | omega

/-- The copy in place: below the cell that is next, everything has moved up, and the cell to be
read has not been written yet. -/
lemma forCells_copyCell {lines : ℕ} (hlines : lines ≤ SCREEN_HEIGHT) (v : Vga) :
    SameButCells v (forCells lines (copyCell lines) v) ∧
      ∀ j, (forCells lines (copyCell lines) v).screenBuffer j =
        if j < 2 * ((SCREEN_HEIGHT - lines) * SCREEN_WIDTH) then
          v.screenBuffer (j + 2 * (lines * SCREEN_WIDTH))
        else v.screenBuffer j := by
  have hloop := forCells_invariant (copyCell lines) (v := v)
    (P := fun i u => SameButCells v u ∧ ∀ j, u.screenBuffer j =
      if j < 2 * (i - lines * SCREEN_WIDTH) then v.screenBuffer (j + 2 * (lines * SCREEN_WIDTH))
      else v.screenBuffer j) ?_ hlines ⟨SameButCells.refl v, by simp⟩
  · refine ⟨hloop.1, fun j => ?_⟩
    rw [hloop.2 j, Nat.sub_mul]
  · rintro x y u hx hfirst hy ⟨hsame, hcells⟩
    refine ⟨hsame.trans (sameButCells_copyCell u hx hy), fun j => ?_⟩
    simp only [SCREEN_WIDTH, SCREEN_HEIGHT] at *
    have hdest : (y - lines) * 80 + x = y * 80 + x - lines * 80 := by
      omega
    have hunread : ∀ k, 2 * (y * 80 + x) ≤ k → u.screenBuffer k = v.screenBuffer k :=
      fun k hk => (hcells k).trans (if_neg (by omega))
    rw [screenBuffer_copyCell, hdest, Vga.char, hunread _ le_rfl, hunread _ (Nat.le_succ _),
      hcells j]
    split_ifs <;> first | rfl | (congr 1; omega)

/-- The loop that clears the rows from one on. -/
lemma forCells_clearCell {first : ℕ} (hfirst : first ≤ SCREEN_HEIGHT) (v : Vga) :
    SameButCells v (forCells first clearCell v) ∧
      ∀ j, (forCells first clearCell v).screenBuffer j =
        if 2 * (first * SCREEN_WIDTH) ≤ j ∧ j < 2 * (SCREEN_HEIGHT * SCREEN_WIDTH) then
          if j % 2 = 0 then 0#8 else DEFAULT_COLOR
        else v.screenBuffer j := by
  refine forCells_invariant clearCell (v := v)
    (P := fun i u => SameButCells v u ∧ ∀ j, u.screenBuffer j =
      if 2 * (first * SCREEN_WIDTH) ≤ j ∧ j < 2 * i then
        if j % 2 = 0 then 0#8 else DEFAULT_COLOR
      else v.screenBuffer j) ?_ hfirst ⟨SameButCells.refl v, fun j => ?_⟩
  · rintro x y u hx hle hy ⟨hsame, hcells⟩
    refine ⟨hsame.trans (sameButCells_clearCell u hx hy), fun j => ?_⟩
    have hmul : first * SCREEN_WIDTH ≤ y * SCREEN_WIDTH := Nat.mul_le_mul_right _ hle
    rw [screenBuffer_clearCell, hcells j]
    split_ifs <;> first | rfl | omega
  · rw [if_neg (by omega)]

/-- **Scrolling** moves every row up by some rows, and leaves blank ones. -/
theorem char_vgaScrollback {lines : ℕ} (hlines : lines ≤ SCREEN_HEIGHT) (v : Vga) {x y : ℕ}
    (hx : x < SCREEN_WIDTH) (hy : y < SCREEN_HEIGHT) :
    (vgaScrollback lines v).char x y =
      if y + lines < SCREEN_HEIGHT then v.char x (y + lines) else 0#8 := by
  have hcopy := (forCells_copyCell hlines v).2 (2 * (y * SCREEN_WIDTH + x))
  have hclear := (forCells_clearCell (Nat.sub_le SCREEN_HEIGHT lines)
    (forCells lines (copyCell lines) v)).2 (2 * (y * SCREEN_WIDTH + x))
  have hchar : (vgaScrollback lines v).char x y = (forCells (SCREEN_HEIGHT - lines) clearCell
      (forCells lines (copyCell lines) v)).screenBuffer (2 * (y * SCREEN_WIDTH + x)) := rfl
  rw [hchar, hclear, hcopy]
  simp only [SCREEN_WIDTH, SCREEN_HEIGHT] at *
  by_cases hrow : y + lines < 25
  · rw [if_neg (by omega), if_pos (by omega), if_pos hrow, Vga.char]
    congr 1
    simp only [SCREEN_WIDTH]
    omega
  · rw [if_pos (by omega), if_pos (by omega), if_neg hrow]

/-- Scrolling accesses only the screen, and leaves the column alone. -/
lemma vgaScrollback_frame {lines : ℕ} (hlines : lines ≤ SCREEN_HEIGHT) (v : Vga) :
    (vgaScrollback lines v).screenX = v.screenX ∧
      (vgaScrollback lines v).screenY = v.screenY - lines ∧
      (vgaScrollback lines v).scrolled = v.scrolled + lines ∧
      (∀ noted, v.Inside noted → (vgaScrollback lines v).Inside noted) := by
  have hsame := (forCells_copyCell hlines v).1.trans
    (forCells_clearCell (Nat.sub_le SCREEN_HEIGHT lines) _).1
  exact ⟨hsame.screenX, congrArg (· - lines) hsame.screenY, congrArg (· + lines) hsame.scrolled,
    hsame.inside⟩

/-! ### The cursor stays on the screen -/

namespace Vga

/-- The cursor is on the screen. -/
structure InRange (v : Vga) : Prop where
  x_lt : v.screenX < SCREEN_WIDTH
  y_lt : v.screenY < SCREEN_HEIGHT

/-- The cursor is on the screen, and so was every cell that was accessed, but for the accesses
noted before. -/
structure OnScreen (noted : List CellAccess) (v : Vga) : Prop extends v.InRange where
  inside : v.Inside noted

lemma InRange.onScreen {v : Vga} (h : v.InRange) : v.OnScreen v.accesses :=
  ⟨h, fun _ ha => Or.inl ha⟩

end Vga

variable {v : Vga} {noted : List CellAccess}

@[simp] lemma screenX_vgaSetcursor (x y : ℕ) : (vgaSetcursor x y v).screenX = v.screenX := rfl

@[simp] lemma screenY_vgaSetcursor (x y : ℕ) : (vgaSetcursor x y v).screenY = v.screenY := rfl

@[simp] lemma char_vgaSetcursor (x y : ℕ) : (vgaSetcursor x y v).char = v.char := rfl

@[simp] lemma scrolled_vgaSetcursor (x y : ℕ) : (vgaSetcursor x y v).scrolled = v.scrolled := rfl

@[simp] lemma accesses_vgaSetcursor (x y : ℕ) : (vgaSetcursor x y v).accesses = v.accesses := rfl

/-- The cursor is on the screen already. -/
lemma wrapAndScroll_of_inRange (h : v.InRange) :
    wrapAndScroll v = vgaSetcursor v.screenX v.screenY v := by
  simp only [wrapAndScroll, if_neg (Nat.not_le.mpr h.x_lt), if_neg (Nat.not_le.mpr h.y_lt)]

/-- The cursor is in the row below the screen. -/
lemma wrapAndScroll_of_below (hx : v.screenX < SCREEN_WIDTH) (hy : v.screenY = SCREEN_HEIGHT) :
    wrapAndScroll v = vgaSetcursor (vgaScrollback 1 v).screenX (vgaScrollback 1 v).screenY
      (vgaScrollback 1 v) := by
  simp only [wrapAndScroll, if_neg (Nat.not_le.mpr hx), if_pos hy.ge]

/-- The cursor is behind the last cell of its row. -/
lemma wrapAndScroll_of_behind (hx : v.screenX = SCREEN_WIDTH) :
    wrapAndScroll v = wrapAndScroll v.nextRow := by
  have hnext : ¬SCREEN_WIDTH ≤ v.nextRow.screenX := Nat.not_le.mpr width_pos
  simp only [wrapAndScroll, if_pos hx.ge, if_neg hnext]

lemma screenX_wrapAndScroll (hx : v.screenX < SCREEN_WIDTH) :
    (wrapAndScroll v).screenX = v.screenX := by
  have hframe := vgaScrollback_frame one_le_height v
  simp only [wrapAndScroll, if_neg (Nat.not_le.mpr hx), screenX_vgaSetcursor]
  split_ifs with hscroll
  · exact hframe.1
  · rfl

/-- Scrolling does not change the line that the cursor is in. -/
lemma line_wrapAndScroll (hx : v.screenX < SCREEN_WIDTH) : (wrapAndScroll v).line = v.line := by
  obtain ⟨-, hrow, hscrolled, -⟩ := vgaScrollback_frame one_le_height v
  simp only [wrapAndScroll, if_neg (Nat.not_le.mpr hx), Vga.line, screenY_vgaSetcursor,
    scrolled_vgaSetcursor]
  split_ifs with hscroll
  · rw [hrow, hscrolled]
    simp only [SCREEN_HEIGHT] at hscroll
    omega
  · rfl

lemma screenX_putAtCursor (hx : v.screenX < SCREEN_WIDTH) (c : Byte) :
    (wrapAndScroll (putAtCursor c v)).screenX =
      if v.screenX + 1 = SCREEN_WIDTH then 0 else v.screenX + 1 := by
  split_ifs with heq
  · rw [wrapAndScroll_of_behind heq, screenX_wrapAndScroll width_pos]
    rfl
  · exact screenX_wrapAndScroll (v := putAtCursor c v) (Nat.lt_of_le_of_ne hx heq)

lemma line_putAtCursor (hx : v.screenX < SCREEN_WIDTH) (c : Byte) :
    (wrapAndScroll (putAtCursor c v)).line =
      if v.screenX + 1 = SCREEN_WIDTH then v.line + 1 else v.line := by
  split_ifs with heq
  · rw [wrapAndScroll_of_behind heq, line_wrapAndScroll width_pos]
    rfl
  · exact line_wrapAndScroll (v := putAtCursor c v) (Nat.lt_of_le_of_ne hx heq)

/-- A cursor in a column of the screen, and at most one row below it, is taken back. -/
lemma onScreen_wrapAndScroll (hx : v.screenX < SCREEN_WIDTH) (hy : v.screenY ≤ SCREEN_HEIGHT)
    (hinside : v.Inside noted) : (wrapAndScroll v).OnScreen noted := by
  rcases hy.lt_or_eq with hlt | heq
  · have hrange : v.InRange := ⟨hx, hlt⟩
    rw [wrapAndScroll_of_inRange hrange]
    exact ⟨⟨hx, hlt⟩, hinside⟩
  · obtain ⟨hcol, hrow, -, hin⟩ := vgaScrollback_frame one_le_height v
    rw [wrapAndScroll_of_below hx heq]
    generalize vgaScrollback 1 v = u at hcol hrow hin ⊢
    refine ⟨⟨hcol.trans_lt hx, hrow.trans_lt ?_⟩, hin noted hinside⟩
    rw [heq]
    exact Nat.sub_lt one_le_height one_pos

lemma onScreen_newline (h : v.OnScreen noted) : (wrapAndScroll v.nextRow).OnScreen noted :=
  onScreen_wrapAndScroll (v := v.nextRow) width_pos h.y_lt h.inside

/-- Any character that falls under the default case. -/
lemma onScreen_putAtCursor (h : v.OnScreen noted) (c : Byte) :
    (wrapAndScroll (putAtCursor c v)).OnScreen noted := by
  have hinside : (putAtCursor c v).Inside noted := by
    intro a ha
    simp only [putAtCursor, vgaPutchr, List.mem_cons] at ha
    rcases ha with rfl | ha
    · exact Or.inr ⟨h.x_lt, h.y_lt⟩
    · exact h.inside a ha
  rcases (Nat.succ_le_of_lt h.x_lt).lt_or_eq with hlt | heq
  · exact onScreen_wrapAndScroll hlt h.y_lt.le hinside
  · rw [wrapAndScroll_of_behind heq]
    exact onScreen_wrapAndScroll (v := (putAtCursor c v).nextRow) width_pos h.y_lt hinside

lemma onScreen_tabLoop (h : v.OnScreen noted) (turns i : ℕ) :
    (tabLoop turns i v).OnScreen noted := by
  induction turns generalizing i v with
  | zero => exact h
  | succ turns ih =>
      rw [tabLoop]
      split_ifs with hlt
      · exact ih (onScreen_putAtCursor h 32#8) (i + 1)
      · exact h

/-- **Every character** leaves the cursor on the screen, and accesses no cell outside of it. -/
theorem onScreen_vgaPutc (h : v.OnScreen noted) (c : Byte) : (vgaPutc c v).OnScreen noted := by
  rw [vgaPutc]
  split_ifs with hnewline htab hreturn
  · exact onScreen_newline h
  · have htabs := onScreen_tabLoop h 4 0
    exact onScreen_wrapAndScroll htabs.x_lt htabs.y_lt.le htabs.inside
  · exact onScreen_wrapAndScroll (v := v.rowStart) width_pos h.y_lt.le h.inside
  · exact onScreen_putAtCursor h c

/-- So does every text. -/
theorem onScreen_vgaPuts (h : v.OnScreen noted) (text : List Byte) :
    (vgaPuts text v).OnScreen noted := by
  induction text generalizing v with
  | nil => exact h
  | cons c text ih => exact ih (onScreen_vgaPutc h c)

/-- **Clearing the screen** brings any console into a state that it can be used in, whatever is
printed then. -/
theorem onScreen_vgaPuts_vgaClrscr (hinside : v.Inside noted) (text : List Byte) :
    (vgaPuts text (vgaClrscr v)).OnScreen noted := by
  have hcells := (forCells_clearCell (Nat.zero_le _) v).1.inside noted hinside
  have hclear : (vgaClrscr v).OnScreen noted := by
    rw [vgaClrscr]
    generalize forCells 0 clearCell v = u at hcells ⊢
    exact ⟨⟨width_pos, one_le_height⟩, hcells⟩
  exact onScreen_vgaPuts hclear text

/-! ### The screen shows the end of a roll -/

/-- What a character other than a tab does to a roll of paper. -/
def terminalPutc (c : Byte) (t : Roll Byte SCREEN_WIDTH) : Roll Byte SCREEN_WIDTH :=
  if c = 10#8 then t.newline 0#8
  else if c = 13#8 then t.carriageReturn
  else t.write 0#8 c

/-- A text written on a roll of paper. -/
def terminalPuts (text : List Byte) (t : Roll Byte SCREEN_WIDTH) : Roll Byte SCREEN_WIDTH :=
  text.foldl (fun t c => terminalPutc c t) t

/-- The screen shows the end of the roll. -/
def Vga.ShowsEnd (v : Vga) (t : Roll Byte SCREEN_WIDTH) : Prop :=
  Window SCREEN_HEIGHT t (fun r k => v.char k r) v.screenX v.screenY

variable {t : Roll Byte SCREEN_WIDTH}

lemma Vga.ShowsEnd.inRange (h : v.ShowsEnd t) : v.InRange := ⟨h.lt_width, h.lt_height⟩

lemma char_putAtCursor (h : v.InRange) (c : Byte) {x y : ℕ} (hx : x < SCREEN_WIDTH) :
    (putAtCursor c v).char x y = if y = v.screenY ∧ x = v.screenX then c else v.char x y := by
  have hx' := h.x_lt
  have hiff : 2 * (y * SCREEN_WIDTH + x) = 2 * (v.screenY * SCREEN_WIDTH + v.screenX) ↔
      y = v.screenY ∧ x = v.screenX := by
    simp only [SCREEN_WIDTH] at *
    omega
  simp only [putAtCursor, vgaPutchr, Vga.char, Function.update_apply, hiff]

/-- The cursor goes to the next row, and the screen follows it. -/
lemma showsEnd_newline (h : v.ShowsEnd t) :
    (wrapAndScroll v.nextRow).ShowsEnd (t.newline 0#8) := by
  have hy : v.screenY + 1 ≤ SCREEN_HEIGHT := h.lt_height
  rcases hy.lt_or_eq with hlt | heq
  · rw [wrapAndScroll_of_inRange (v := v.nextRow) ⟨width_pos, hlt⟩]
    exact h.newline_of_lt 0#8 hlt
  · have hlast := h.newline_of_last 0#8 heq
    have hframe := vgaScrollback_frame one_le_height v.nextRow
    rw [wrapAndScroll_of_below (v := v.nextRow) width_pos heq, Vga.ShowsEnd, screenX_vgaSetcursor,
      screenY_vgaSetcursor, char_vgaSetcursor, hframe.1, hframe.2.1]
    refine hlast.congr fun r hr k hk => ?_
    exact char_vgaScrollback one_le_height v.nextRow hk hr

/-- A character of the default case is written. -/
lemma showsEnd_putAtCursor (h : v.ShowsEnd t) (c : Byte) :
    (wrapAndScroll (putAtCursor c v)).ShowsEnd (t.write 0#8 c) := by
  have hx : v.screenX + 1 ≤ SCREEN_WIDTH := h.lt_width
  rcases hx.lt_or_eq with hlt | heq
  · rw [wrapAndScroll_of_inRange (v := putAtCursor c v) ⟨hlt, h.lt_height⟩]
    refine (h.write_of_lt 0#8 c hlt).congr fun r hr k hk => ?_
    exact char_putAtCursor h.inRange c hk
  · have hmark : (vgaPutchr v.screenX v.screenY c v).ShowsEnd (t.mark c) :=
      (h.mark c).congr fun r hr k hk => char_putAtCursor h.inRange c hk
    have hnext := showsEnd_newline hmark
    rw [h.write_of_last 0#8 c heq, wrapAndScroll_of_behind heq]
    exact hnext

/-- **A character other than a tab** does to the screen what it does to the roll. -/
theorem showsEnd_vgaPutc (h : v.ShowsEnd t) {c : Byte} (hc : c ≠ 9#8) :
    (vgaPutc c v).ShowsEnd (terminalPutc c t) := by
  rw [vgaPutc, terminalPutc]
  split_ifs with hnewline hreturn
  · exact showsEnd_newline h
  · rw [wrapAndScroll_of_inRange (v := v.rowStart) ⟨width_pos, h.lt_height⟩]
    exact h.carriageReturn
  · exact showsEnd_putAtCursor h c

lemma showsEnd_vgaPuts {text : List Byte} (h : v.ShowsEnd t) (htext : 9#8 ∉ text) :
    (vgaPuts text v).ShowsEnd (terminalPuts text t) := by
  induction text generalizing v t with
  | nil => exact h
  | cons c text ih =>
      obtain ⟨hc, hrest⟩ := not_or.mp (mt List.mem_cons.mpr htext)
      exact ih (showsEnd_vgaPutc h (Ne.symm hc)) hrest

lemma cursor_wrapAndScroll (v : Vga) : (wrapAndScroll v).cursor =
    ((wrapAndScroll v).screenY * SCREEN_WIDTH + (wrapAndScroll v).screenX) % 65536 := rfl

/-- The hardware's cursor is where the driver's is. -/
def Vga.CursorShown (v : Vga) : Prop := v.cursor = v.screenY * SCREEN_WIDTH + v.screenX

lemma cursorShown_vgaPutc (h : v.InRange) (c : Byte) : (vgaPutc c v).CursorShown := by
  obtain ⟨hx, hy⟩ := (onScreen_vgaPutc h.onScreen c).toInRange
  rw [vgaPutc] at hx hy ⊢
  rw [Vga.CursorShown, cursor_wrapAndScroll]
  simp only [SCREEN_WIDTH, SCREEN_HEIGHT] at *
  exact Nat.mod_eq_of_lt (by omega)

lemma cursorShown_vgaPuts (h : v.InRange) {text : List Byte} (htext : text ≠ []) :
    (vgaPuts text v).CursorShown := by
  obtain ⟨text, c, rfl⟩ := (List.eq_nil_or_concat text).resolve_left htext
  rw [List.concat_eq_append, vgaPuts_append]
  exact cursorShown_vgaPutc (onScreen_vgaPuts h.onScreen text).toInRange c

/-- The roll of paper that begins with the rows on the screen. -/
def Vga.roll (v : Vga) (h : v.InRange) : Roll Byte SCREEN_WIDTH :=
  Roll.ofCells SCREEN_HEIGHT (fun r k => v.char k r) v.screenX v.screenY h.x_lt h.y_lt

/-- **The console**: whatever is printed, after each character the cursor is on the screen, and
no access was to a cell outside of it.  A text without tabs leaves the screen with the last rows
of the roll of paper it would be written on, and with its cursor. -/
theorem console_vgaPuts (v : Vga) (h : v.InRange) (text : List Byte) :
    (∀ pre post, text = pre ++ post → (vgaPuts pre v).OnScreen v.accesses) ∧
      (9#8 ∉ text → (vgaPuts text v).ShowsEnd (terminalPuts text (v.roll h))) ∧
      (text ≠ [] → (vgaPuts text v).CursorShown) := by
  refine ⟨fun pre _ _ => onScreen_vgaPuts h.onScreen pre, fun htext => ?_,
    cursorShown_vgaPuts h⟩
  exact showsEnd_vgaPuts (Window.ofCells _ h.x_lt h.y_lt) htext

/-- The console before anything was printed. -/
def vgaBlank : Vga := ⟨fun _ => 0#8, 0, 0, 0, [], 0⟩

/-- The roll written on is a real one: it begins with the rows of the screen. -/
theorem console_vgaPuts_blank :
    vgaBlank.InRange ∧
      (vgaPuts (ascii "a\nb") vgaBlank).ShowsEnd
        (terminalPuts (ascii "a\nb") (vgaBlank.roll ⟨by decide, by decide⟩)) :=
  ⟨⟨by decide, by decide⟩, (console_vgaPuts vgaBlank ⟨by decide, by decide⟩ _).2.1 (by decide)⟩

/-! ### Plain text -/

/-- A character that is shown in a cell. -/
def Plain (c : Byte) : Prop := c ≠ 9#8 ∧ c ≠ 10#8 ∧ c ≠ 13#8

lemma vgaPutc_plain {c : Byte} (hc : Plain c) (v : Vga) :
    vgaPutc c v = wrapAndScroll (putAtCursor c v) := by
  rw [vgaPutc, if_neg hc.2.1, if_neg hc.1, if_neg hc.2.2]

/-- The place of the cursor, counted in cells from the first row that was ever on the screen. -/
def Vga.place (v : Vga) : ℕ := v.line * SCREEN_WIDTH + v.screenX

/-- **Plain text** takes the cursor on by one cell for each character, from row to row. -/
theorem place_vgaPuts (h : v.InRange) {text : List Byte} (htext : ∀ c ∈ text, Plain c) :
    (vgaPuts text v).place = v.place + text.length := by
  induction text generalizing v with
  | nil => rfl
  | cons c text ih =>
      have hput : (vgaPutc c v).place = v.place + 1 := by
        rw [vgaPutc_plain (htext c List.mem_cons_self), Vga.place, line_putAtCursor h.x_lt,
          screenX_putAtCursor h.x_lt, Vga.place]
        simp only [SCREEN_WIDTH]
        split_ifs <;> omega
      have hnext := (onScreen_vgaPutc h.onScreen c).toInRange
      rw [vgaPuts_cons, ih hnext fun d hd => htext d (List.mem_cons_of_mem c hd), hput,
        List.length_cons]
      omega

/-- Plain text that stays within the row of the cursor moves nothing, and shows in the cells from
the cursor on. -/
theorem vgaPuts_within_row (h : v.InRange) {text : List Byte} (htext : ∀ c ∈ text, Plain c)
    (hfit : v.screenX + text.length < SCREEN_WIDTH) :
    (vgaPuts text v).screenX = v.screenX + text.length ∧
      (vgaPuts text v).screenY = v.screenY ∧ (vgaPuts text v).scrolled = v.scrolled ∧
      ∀ x < SCREEN_WIDTH, ∀ y, (vgaPuts text v).char x y =
        if y = v.screenY ∧ v.screenX ≤ x ∧ x < v.screenX + text.length then
          text.getD (x - v.screenX) 0#8
        else v.char x y := by
  induction text generalizing v with
  | nil =>
      refine ⟨rfl, rfl, rfl, fun x _ y => ?_⟩
      rw [if_neg (by simp)]
      rfl
  | cons c text ih =>
      rw [List.length_cons] at hfit
      have hrange : (putAtCursor c v).InRange :=
        ⟨show v.screenX + 1 < SCREEN_WIDTH by omega, h.y_lt⟩
      have hput : vgaPutc c v = vgaSetcursor (v.screenX + 1) v.screenY (putAtCursor c v) := by
        rw [vgaPutc_plain (htext c List.mem_cons_self), wrapAndScroll_of_inRange hrange]
        rfl
      have hnext : (vgaPutc c v).InRange := hput ▸ ⟨hrange.x_lt, hrange.y_lt⟩
      have hcol : (vgaPutc c v).screenX = v.screenX + 1 := by rw [hput]; rfl
      have hrow : (vgaPutc c v).screenY = v.screenY := by rw [hput]; rfl
      have hscrolled : (vgaPutc c v).scrolled = v.scrolled := by rw [hput]; rfl
      obtain ⟨hx, hy, hs, hchar⟩ := ih hnext (fun d hd => htext d (List.mem_cons_of_mem c hd))
        (by rw [hcol]; omega)
      rw [vgaPuts_cons, List.length_cons]
      refine ⟨by rw [hx, hcol]; omega, hy.trans hrow, hs.trans hscrolled, fun x hxw y => ?_⟩
      rw [hchar x hxw y, hcol, hrow, hput, char_vgaSetcursor, char_putAtCursor h c hxw]
      by_cases hyv : y = v.screenY
      · rcases Nat.lt_trichotomy x v.screenX with hlt | heq | hgt
        · rw [if_neg (by omega), if_neg (by omega), if_neg (by omega)]
        · rw [if_neg (by omega), if_pos ⟨hyv, heq⟩, if_pos (by omega), heq, Nat.sub_self]
          rfl
        · have hsucc : x - v.screenX = x - (v.screenX + 1) + 1 := by omega
          by_cases hin : x < v.screenX + 1 + text.length
          · rw [if_pos (by omega), if_pos (by omega), hsucc, List.getD_cons_succ]
          · rw [if_neg (by omega), if_neg (by omega), if_neg (by omega)]
      · rw [if_neg (fun hboth => hyv hboth.1), if_neg (fun hboth => hyv hboth.1),
          if_neg (fun hboth => hyv hboth.1)]

/-! ### What a row shows -/

/-- A character as it looks on the screen, where an empty cell looks like a space. -/
def glyph (c : Byte) : Byte := if c = 0#8 then 32#8 else c

lemma glyph_of_ne {c : Byte} (hc : c ≠ 0#8) : glyph c = c := if_neg hc

/-- A row shows a text from its start on, and only blanks behind it. -/
def Vga.RowShows (v : Vga) (y : ℕ) (text : List Byte) : Prop :=
  ∀ x < SCREEN_WIDTH, glyph (v.char x y) = text.getD x 32#8

lemma getD_append_blanks (text : List Byte) (n x : ℕ) :
    (text ++ List.replicate n 32#8).getD x 32#8 = text.getD x 32#8 := by
  by_cases hx : x < text.length
  · exact List.getD_append _ _ _ _ hx
  · rw [List.getD_append_right _ _ _ _ (Nat.not_lt.mp hx),
      List.getD_eq_default _ _ (Nat.not_lt.mp hx), List.getD_eq_getElem?_getD,
      List.getElem?_getD_replicate_default_eq]

/-- Blanks at the end of the text cannot be seen. -/
lemma rowShows_append_blanks {y n : ℕ} {text : List Byte} :
    v.RowShows y (text ++ List.replicate n 32#8) ↔ v.RowShows y text := by
  simp only [Vga.RowShows, getD_append_blanks]

lemma rowShows_append_of_blank {y : ℕ} {text rest : List Byte} (hrest : ∀ d ∈ rest, d = 32#8) :
    v.RowShows y (text ++ rest) ↔ v.RowShows y text := by
  rw [List.eq_replicate_of_mem hrest]
  exact rowShows_append_blanks

/-- **Text written over a row** replaces what the row showed there. -/
theorem rowShows_vgaPuts (h : v.InRange) {head rest text : List Byte}
    (hrow : v.RowShows v.screenY (head ++ rest)) (hhead : v.screenX = head.length)
    (htext : ∀ c ∈ text, Plain c) (hnul : 0#8 ∉ text)
    (hfit : v.screenX + text.length < SCREEN_WIDTH) :
    (vgaPuts text v).RowShows v.screenY (head ++ (text ++ rest.drop text.length)) := by
  obtain ⟨-, -, -, hchar⟩ := vgaPuts_within_row h htext hfit
  intro x hx
  rw [hchar x hx]
  by_cases hlow : x < head.length
  · rw [if_neg (by omega), hrow x hx, List.getD_append _ _ _ _ hlow,
      List.getD_append _ _ _ _ hlow]
  · have hle : head.length ≤ x := Nat.not_lt.mp hlow
    rw [List.getD_append_right _ _ _ _ hle]
    by_cases hhigh : x - head.length < text.length
    · have hmem : text.getD (x - head.length) 0#8 ∈ text := by
        rw [List.getD_eq_getElem _ _ hhigh]
        exact List.getElem_mem hhigh
      rw [if_pos (by omega), hhead, glyph_of_ne (fun hzero => hnul (hzero ▸ hmem)),
        List.getD_append _ _ _ _ hhigh, List.getD_eq_getElem _ _ hhigh,
        List.getD_eq_getElem _ _ hhigh]
    · rw [if_neg (by omega), hrow x hx, List.getD_append_right _ _ _ _ hle,
        List.getD_append_right _ _ _ _ (Nat.not_lt.mp hhigh), List.getD_eq_getElem?_getD,
        List.getD_eq_getElem?_getD, List.getElem?_drop,
        Nat.add_sub_cancel' (Nat.not_lt.mp hhigh)]

/-! ### Tab stops -/

/-- The tab stop behind a column. -/
def nextStop (x : ℕ) : ℕ := 4 * (x / 4 + 1)

/-- The cursor has gone to the next tab stop.  That at the end of a row is the start of the next
one. -/
def AtNextStop (v v' : Vga) : Prop :=
  if nextStop v.screenX < SCREEN_WIDTH then v'.screenX = nextStop v.screenX ∧ v'.line = v.line
  else v'.screenX = 0 ∧ v'.line = v.line + 1

/-- Every tab of the text takes the cursor to the next stop. -/
def TabsAligned (text : List Byte) (v : Vga) : Prop :=
  ∀ pre post, text = pre ++ 9#8 :: post →
    AtNextStop (vgaPuts pre v) (vgaPutc 9#8 (vgaPuts pre v))

/-- The spaces that a tab prints: as the bound shrinks while `i` grows, the loop is left between two
tab stops. -/
def tabWidth (x : ℕ) : ℕ := if x % 4 = 2 then 1 else if x % 4 = 3 then 3 else 2

/-- The column, counted modulo the distance of the tab stops, which divides the width. -/
lemma screenX_vgaPuts_mod (h : v.InRange) {text : List Byte} (htext : ∀ c ∈ text, Plain c) :
    (vgaPuts text v).screenX % 4 = (v.screenX + text.length) % 4 := by
  have hplace := place_vgaPuts h htext
  simp only [Vga.place, SCREEN_WIDTH] at hplace
  omega

lemma plain_space : Plain 32#8 := by
  unfold Plain
  decide

lemma plain_spaces (n : ℕ) : ∀ d ∈ List.replicate n 32#8, Plain d := by
  intro d hd
  rw [List.eq_of_mem_replicate hd]
  exact plain_space

/-- **The loop for a tab**, turn by turn. -/
theorem tabLoop_eq (h : v.InRange) :
    tabLoop 4 0 v = vgaPuts (List.replicate (tabWidth v.screenX) 32#8) v := by
  have hput : ∀ n, vgaPuts (List.replicate (n + 1) 32#8) v =
      wrapAndScroll (putAtCursor 32#8 (vgaPuts (List.replicate n 32#8) v)) := by
    intro n
    rw [List.replicate_succ', vgaPuts_append, vgaPuts_cons, vgaPuts_nil, vgaPutc_plain plain_space]
  have hmod : ∀ n, (vgaPuts (List.replicate n 32#8) v).screenX % 4 = (v.screenX + n) % 4 := by
    intro n
    rw [screenX_vgaPuts_mod h (plain_spaces n), List.length_replicate]
  have hturn : ∀ turns n, n < 4 - (v.screenX + n) % 4 →
      tabLoop (turns + 1) n (vgaPuts (List.replicate n 32#8) v) =
        tabLoop turns (n + 1) (vgaPuts (List.replicate (n + 1) 32#8) v) := by
    intro turns n hlt
    rw [tabLoop, hmod, if_pos hlt, hput]
  have hstop : ∀ turns n, ¬n < 4 - (v.screenX + n) % 4 →
      tabLoop (turns + 1) n (vgaPuts (List.replicate n 32#8) v) =
        vgaPuts (List.replicate n 32#8) v := by
    intro turns n hge
    rw [tabLoop, hmod, if_neg hge]
  have hstart : tabLoop 4 0 v = tabLoop 3 1 (vgaPuts (List.replicate 1 32#8) v) :=
    hturn 3 0 (by omega)
  rw [hstart, tabWidth]
  split_ifs with htwo hthree
  · rw [hstop 2 1 (by omega)]
  · rw [hturn 2 1 (by omega), hturn 1 2 (by omega), hstop 0 3 (by omega)]
  · rw [hturn 2 1 (by omega), hstop 1 2 (by omega)]

/-- A tab in front of the last cell of a row blanks some cells of the row, the first of them where
the cursor stood. -/
lemma vgaPutc_tab_within_row (h : v.InRange) (hx : v.screenX + 1 < SCREEN_WIDTH) :
    (vgaPutc 9#8 v).scrolled = v.scrolled ∧ (vgaPutc 9#8 v).char v.screenX v.screenY = 32#8 := by
  have hfit : v.screenX + (List.replicate (tabWidth v.screenX) 32#8).length < SCREEN_WIDTH := by
    rw [List.length_replicate, tabWidth]
    simp only [SCREEN_WIDTH] at *
    split_ifs <;> omega
  obtain ⟨-, -, hscrolled, hchar⟩ := vgaPuts_within_row h (plain_spaces _) hfit
  have hrange := (onScreen_vgaPuts h.onScreen
    (List.replicate (tabWidth v.screenX) 32#8)).toInRange
  have htab : vgaPutc 9#8 v = wrapAndScroll (tabLoop 4 0 v) := rfl
  have hpos : 0 < tabWidth v.screenX := by
    rw [tabWidth]
    split_ifs <;> decide
  rw [htab, tabLoop_eq h, wrapAndScroll_of_inRange hrange, scrolled_vgaSetcursor,
    char_vgaSetcursor]
  refine ⟨hscrolled, ?_⟩
  rw [hchar _ h.x_lt, if_pos (by rw [List.length_replicate]; omega), Nat.sub_self]
  exact List.getD_replicate _ hpos

/-- No tab takes the cursor to a tab stop. -/
lemma not_atNextStop_tab (h : v.InRange) : ¬AtNextStop v (vgaPutc 9#8 v) := by
  have htabs := (onScreen_tabLoop h.onScreen 4 0).toInRange
  have hcol : (vgaPutc 9#8 v).screenX = (tabLoop 4 0 v).screenX := screenX_wrapAndScroll htabs.x_lt
  have hbetween : (tabLoop 4 0 v).screenX % 4 ≠ 0 := by
    rw [tabLoop_eq h, screenX_vgaPuts_mod h (plain_spaces _), List.length_replicate, tabWidth]
    split_ifs <;> omega
  intro hstop
  rw [AtNextStop, hcol] at hstop
  split_ifs at hstop with hlt
  · rw [hstop.1, nextStop, Nat.mul_mod_right] at hbetween
    exact hbetween rfl
  · rw [hstop.1] at hbetween
    exact hbetween rfl

/-- **Tab stops are never reached**: the tabs of a text take the cursor to the next stop exactly
if there is no tab in it. -/
theorem tabsAligned_iff (v : Vga) (h : v.InRange) (text : List Byte) :
    TabsAligned text v ↔ 9#8 ∉ text := by
  constructor
  · intro haligned htab
    obtain ⟨pre, post, htext⟩ := List.append_of_mem htab
    have hpre := (onScreen_vgaPuts h.onScreen pre).toInRange
    exact not_atNextStop_tab hpre (haligned pre post htext)
  · intro hnone pre post htext
    exact absurd (htext ▸ List.mem_append_right pre List.mem_cons_self) hnone

/-- On a blank console, the text `a`, tab, `b` takes the cursor to a tab stop exactly if it has no
tab. -/
theorem tabsAligned_iff_blank :
    vgaBlank.InRange ∧ (TabsAligned [97#8, 9#8, 98#8] vgaBlank ↔ 9#8 ∉ [97#8, 9#8, 98#8]) :=
  ⟨⟨by decide, by decide⟩, tabsAligned_iff vgaBlank ⟨by decide, by decide⟩ _⟩

/-- A tab at the start of a row leads to column 2. -/
theorem tab_at_start : vgaBlank.InRange ∧ (vgaPutc 9#8 vgaBlank).screenX = 2 ∧
    ¬TabsAligned [9#8] vgaBlank := by
  have hcol : (vgaPutc 9#8 vgaBlank).screenX = 2 := by decide
  refine ⟨⟨by decide, by decide⟩, hcol, fun haligned => ?_⟩
  have hstop := haligned [] [] rfl
  rw [vgaPuts_nil, AtNextStop, hcol] at hstop
  exact absurd hstop (by decide)

end MiqOSoft
