import MiqOSoft.Kernel.Vga
import MiqOSoft.Shell.CommandLine
import MiqOSoft.Transition.Run

/-!
The command line on the screen: what the calls made by `shell_run` do to the console.

* `ShellScreen`: the variables of the shell and the state of the console; beside them, the line
  of the screen that the prompt was printed in is noted.
* `keyCalls`, `calls_shellKey`: the calls that a key leads to, as the line editor sees them.
* `cursor_on_screen_iff`: between two Enters the cursor stays on the screen, as long as no key
  takes it on from the last column.
* `prompt_row_iff`: the row of the prompt shows the line, as long as each key is one that the
  shell can draw in its state.
-/

namespace MiqOSoft

open Machine Editing Transition

/-! ### The calls on the console -/

/-- What a call does to the console, given what the commands do. -/
def runCall (process : List Byte → Vga → Vga) (v : Vga) : ShellCall → Vga
  | .printf text => vgaPuts text v
  | .setColumn x => vgaSetcursor x v.screenY { v with screenX := x }
  | .columnLeft =>
      if SHELL_PROMPT.length < v.screenX then
        vgaSetcursor (v.screenX - 1) v.screenY { v with screenX := v.screenX - 1 }
      else v
  | .columnRight => vgaSetcursor (v.screenX + 1) v.screenY { v with screenX := v.screenX + 1 }
  | .printfAhead text =>
      let u := vgaPuts text v
      vgaSetcursor (v.screenX + 1) u.screenY { u with screenX := v.screenX + 1 }
  | .processCommand line => process line v

/-- Calls made one after another. -/
def runCalls (process : List Byte → Vga → Vga) (calls : List ShellCall) (v : Vga) : Vga :=
  calls.foldl (runCall process) v

/-- The shell and the console.  The shell has no use for `promptLine`. -/
structure ShellScreen where
  line : ShellLine
  screen : Vga
  promptLine : ℕ

/-- A key popped by `shell_run`, with what it does to the screen.  The prompt is the last that
Enter prints. -/
def shellScreenKey (process : List Byte → Vga → Vga) (w : ShellScreen) (c : Byte) :
    Option ShellScreen := do
  let s ← shellKey w.line c
  let calls := s.calls.drop w.line.calls.length
  some
    { line := s
      screen := runCalls process calls w.screen
      promptLine :=
        if c = 10#8 then (runCalls process calls.dropLast w.screen).line else w.promptLine }

/-! ### The calls of a key -/

/-- What backspace draws before it places the cursor. -/
def redrawCalls (e : LineEditor) : List ShellCall :=
  .setColumn SHELL_PROMPT.length ::
    List.replicate (e.line.erase.text.length + 2) (.printf [32#8]) ++
      [.setColumn SHELL_PROMPT.length, .printf e.line.erase.text]

/-- The calls that a key leads to. -/
def keyCalls (e : LineEditor) (c : Byte) : List ShellCall :=
  if c = 10#8 then
    [.printf [10#8]] ++ (if e.line.text = [] then [] else [.processCommand e.line.text]) ++
      [.printf SHELL_PROMPT]
  else if c = 8#8 then
    if e.line.before = [] then []
    else redrawCalls e ++ [.setColumn (SHELL_PROMPT.length + e.line.erase.before.length)]
  else if c = 3#8 then if e.line.before = [] then [] else [.columnLeft]
  else if c = 4#8 then if e.line.after = [] then [] else [.columnRight]
  else if c = 0#8 ∨ c = 1#8 ∨ c = 2#8 then []
  else if e.line.text.length < SHELL_BUFFER_SIZE - 1 then
    if 32 ≤ c.toInt ∧ c.toInt ≤ 126 then [.printfAhead (c :: e.line.after)] else [.printf [c]]
  else []

section Calls

variable {s s' : ShellLine} {e : LineEditor} {c : Byte}

/-- The buffer holds every end of the line as a string. -/
lemma Shows.bufferText_drop (h : Shows s e) {k : ℕ} (hk : k ≤ e.line.text.length) :
    bufferText s.commandBuffer k = e.line.text.drop k := by
  have hlen : e.line.text.length < SHELL_BUFFER_SIZE := e.line.length_text.trans_lt e.length_lt
  refine textOf_eq (fun hmem => h.noNul (List.mem_of_mem_drop hmem)) ?_ ?_
  · rw [List.length_drop, List.length_drop, Vector.length_toList]
    omega
  · intro j hj
    rw [List.length_drop] at hj
    rw [List.getD_eq_getElem?_getD, List.getElem?_drop, Vector.getElem?_toList,
      h.buffer (k + j) (by omega), Option.getD_some, List.getD_eq_getElem?_getD,
      List.getD_eq_getElem?_getD, List.getElem?_drop]

lemma calls_insertAtCursor (h : insertAtCursor c s = some s') : s'.calls = s.calls := by
  obtain ⟨gap, -, hgap⟩ := Option.bind_eq_some_iff.mp h
  obtain ⟨buf, -, hbuf⟩ := Option.bind_eq_some_iff.mp hgap
  rw [← Option.some.inj hbuf]

lemma calls_eraseAtCursor (h : eraseAtCursor s = some s') : s'.calls = s.calls := by
  obtain ⟨closed, -, hclosed⟩ := Option.bind_eq_some_iff.mp h
  obtain ⟨buf, -, hbuf⟩ := Option.bind_eq_some_iff.mp hclosed
  rw [← Option.some.inj hbuf]

lemma calls_shellEnter (h : Shows s e) (hs : shellEnter s = some s') :
    s'.calls = s.calls ++ keyCalls e 10#8 := by
  have hpos : s.commandPos < SHELL_BUFFER_SIZE := h.pos.trans_lt e.length_lt
  have hstore := store_of_lt s.commandBuffer 0#8 hpos
  have htext : bufferText (s.commandBuffer.set s.commandPos 0#8 hpos) 0 = e.line.text :=
    (h.terminated hpos).bufferText_eq
  have hnil := h.text_eq_nil_iff
  rw [shellEnter] at hs
  simp only [ShellLine.call, hstore, Option.bind_eq_bind, Option.bind_some] at hs
  obtain rfl := Option.some.inj hs
  rw [keyCalls, if_pos rfl]
  by_cases hline : 0 < s.commandPos
  · have hne : ¬e.line.text = [] := mt hnil.mp (not_not.mpr hline)
    simp [hline, hne, htext]
  · simp [hline, hnil.mpr hline]

lemma calls_shellBackspace (h : Shows s e) (hs : shellBackspace s = some s') :
    s'.calls = s.calls ++ keyCalls e 8#8 := by
  have hbefore : e.line.before = [] ↔ ¬0 < s.cursorPosition := by
    rw [h.cursor, Nat.not_lt, Nat.le_zero, List.length_eq_zero_iff]
  have hkey : keyCalls e 8#8 = if e.line.before = [] then [] else
      redrawCalls e ++ [.setColumn (SHELL_PROMPT.length + e.line.erase.before.length)] := rfl
  rw [shellBackspace] at hs
  by_cases hcursor : 0 < s.cursorPosition
  · have hpos : 0 < s.commandPos := by
      have hle : e.line.before.length ≤ s.commandPos := h.pos ▸ Nat.le_add_right _ _
      exact (h.cursor ▸ hcursor).trans_le hle
    obtain ⟨s₁, herase, hs₁⟩ := shows_eraseAtCursor h hcursor
    have hlen : s₁.commandPos = e.line.erase.text.length := by rw [hs₁.pos, Line.length_text]
    have hcol : s₁.cursorPosition = e.line.erase.before.length := hs₁.cursor
    rw [if_pos ⟨hcursor, hpos⟩, herase] at hs
    obtain rfl := Option.some.inj hs
    rw [hkey, if_neg (mt hbefore.mp (not_not.mpr hcursor))]
    simp only [ShellLine.call, hs₁.bufferText_eq, calls_eraseAtCursor herase, hlen, hcol]
    simp [redrawCalls]
  · rw [if_neg fun hboth => hcursor hboth.1] at hs
    obtain rfl := Option.some.inj hs
    rw [hkey, if_pos (hbefore.mpr hcursor), List.append_nil]

/-- Both branches that insert a character, on the calls that they make. -/
lemma calls_insert (h : Shows s e) (hc : c ≠ 0#8) {calls : ShellLine → List ShellCall}
    {drawn : List ShellCall}
    (hdrawn : ∀ s₁, Shows s₁ { e with line := e.line.insert c } →
      e.line.text.length < SHELL_BUFFER_SIZE - 1 → calls s₁ = drawn)
    (hs : (if s.commandPos < SHELL_BUFFER_SIZE - 1 then
      (insertAtCursor c s).bind fun s => some (s.call (calls s)) else some s) = some s') :
    s'.calls = s.calls ++ if e.line.text.length < SHELL_BUFFER_SIZE - 1 then drawn else [] := by
  have hpos : s.commandPos = e.line.text.length := by rw [h.pos, Line.length_text]
  rw [hpos] at hs
  split_ifs at hs ⊢ with hroom
  · obtain ⟨s₁, hins, hs₁⟩ := shows_insertAtCursor h hc (Line.length_text _ ▸ hroom)
    rw [hins, Option.bind_some] at hs
    obtain rfl := Option.some.inj hs
    rw [← hdrawn s₁ hs₁ hroom, ShellLine.call, calls_insertAtCursor hins]
  · obtain rfl := Option.some.inj hs
    rw [List.append_nil]

lemma calls_shellPrintable (h : Shows s e) (hc : c ≠ 0#8) (hs : shellPrintable c s = some s') :
    s'.calls = s.calls ++ if e.line.text.length < SHELL_BUFFER_SIZE - 1 then
      [.printfAhead (c :: e.line.after)] else [] := by
  refine calls_insert h hc (fun s₁ hs₁ hroom => ?_) hs
  have hline := e.line.insert_of_lt c (Line.length_text _ ▸ hroom)
  have hbehind : s₁.cursorPosition - 1 = e.line.before.length := by
    rw [hs₁.cursor, hline]
    simp
  have htext : (e.line.insert c).text = e.line.before ++ c :: e.line.after := by
    rw [hline]
    simp [Line.text]
  rw [hbehind, hs₁.bufferText_drop (by simp [htext]), htext, List.drop_left]

lemma calls_shellSpecial (h : Shows s e) (hc : c ≠ 0#8) (hs : shellSpecial c s = some s') :
    s'.calls = s.calls ++ if e.line.text.length < SHELL_BUFFER_SIZE - 1 then
      [.printf [c]] else [] :=
  calls_insert h hc (fun _ _ _ => rfl) hs

/-- **The calls of a key** are those that the line editor expects. -/
theorem calls_shellKey (h : Shows s e) (hs : shellKey s c = some s') :
    s'.calls = s.calls ++ keyCalls e c := by
  rw [shellKey] at hs
  split_ifs at hs with henter hback hup hdown hleft hright hprintable hnul
  · exact henter ▸ calls_shellEnter h hs
  · exact hback ▸ calls_shellBackspace h hs
  · obtain rfl := Option.some.inj hs
    simp [hup, keyCalls]
  · obtain rfl := Option.some.inj hs
    simp [hdown, keyCalls]
  · obtain rfl := Option.some.inj hs
    have hbefore : 0 < s.cursorPosition ↔ ¬e.line.before = [] := by
      rw [h.cursor, List.length_pos_iff]
    simp only [hleft, shellMoveCursorLeft, keyCalls, hbefore]
    by_cases hnil : e.line.before = [] <;> simp [hnil, ShellLine.call]
  · obtain rfl := Option.some.inj hs
    have hafter : s.cursorPosition < s.commandPos ↔ ¬e.line.after = [] := by
      rw [h.cursor, h.pos, Nat.lt_add_right_iff_pos, List.length_pos_iff]
    simp only [hright, shellMoveCursorRight, keyCalls, hafter]
    by_cases hnil : e.line.after = [] <;> simp [hnil, ShellLine.call]
  · have hnul : c ≠ 0#8 := by
      rintro rfl
      exact absurd hprintable (by decide)
    rw [calls_shellPrintable h hnul hs]
    simp only [keyCalls, henter, hback, hleft, hright, hnul, hup, hdown, hprintable, if_true,
      if_false, or_self, and_self]
  · rw [calls_shellSpecial h hnul hs]
    simp only [keyCalls, henter, hback, hleft, hright, hnul, hup, hdown, hprintable, if_false,
      or_self]
  · obtain rfl := Option.some.inj hs
    simp [not_not.mp hnul, keyCalls]

end Calls

section Steps

variable {process : List Byte → Vga → Vga} {w w' : ShellScreen} {e : LineEditor} {c : Byte}

/-- **One key** on the screen: the shell's variables are those of the editor again, and the calls
were run. -/
theorem shellScreenKey_eq (process : List Byte → Vga → Vga) (h : Shows w.line e) (c : Byte) :
    ∃ s, Shows s (e.key c) ∧ shellScreenKey process w c = some
      { line := s
        screen := runCalls process (keyCalls e c) w.screen
        promptLine := if c = 10#8 then (runCalls process (keyCalls e c).dropLast w.screen).line
          else w.promptLine } := by
  obtain ⟨s, hkey, hs⟩ := shows_key h c
  have hcalls : s.calls.drop w.line.calls.length = keyCalls e c := by
    rw [calls_shellKey h hkey, List.drop_left]
  refine ⟨s, hs, ?_⟩
  rw [shellScreenKey, hkey]
  simp only [Option.bind_eq_bind, Option.bind_some, hcalls]

lemma shows_of_shellScreenKey (h : Shows w.line e) (hstep : shellScreenKey process w c = some w') :
    Shows w'.line (e.key c) ∧ w'.screen = runCalls process (keyCalls e c) w.screen ∧
      w'.promptLine = if c = 10#8 then (runCalls process (keyCalls e c).dropLast w.screen).line
        else w.promptLine := by
  obtain ⟨s, hs, hkey⟩ := shellScreenKey_eq process h c
  obtain rfl := Option.some.inj (hkey.symm.trans hstep)
  exact ⟨hs, rfl, rfl⟩

end Steps

/-- A prompt that has just been printed, and an empty line behind it. -/
def atPrompt (calls : List ShellCall) (v : Vga) : ShellScreen where
  line := ⟨Vector.replicate SHELL_BUFFER_SIZE 0#8, 0, 0, calls⟩
  screen := vgaPuts SHELL_PROMPT v
  promptLine := v.line

/-- The editor that a fresh prompt belongs to. -/
def promptEditor (calls : List ShellCall) : LineEditor :=
  ⟨Line.empty, calls.filterMap ShellCall.command?⟩

lemma shows_atPrompt (calls : List ShellCall) (v : Vga) :
    Shows (atPrompt calls v).line (promptEditor calls) where
  buffer := Holds.replicate
  pos := rfl
  cursor := rfl
  noNul := List.not_mem_nil
  commands := rfl

/-! ### The cursor stays on the screen -/

/-- A key that is drawn as if there was room in the row: a printable character, which is put into
the line, or a move to the right. -/
def MovesOn (w : ShellScreen) (c : Byte) : Prop :=
  32 ≤ c.toInt ∧ c.toInt ≤ 126 ∧ w.line.commandPos < SHELL_BUFFER_SIZE - 1 ∨
    c = 4#8 ∧ w.line.cursorPosition < w.line.commandPos

/-- No key takes the cursor on from the last column, and backspace leaves it within the row. -/
def StaysInRow (w : ShellScreen) (c : Byte) : Prop :=
  (MovesOn w c → w.screen.screenX + 1 < SCREEN_WIDTH) ∧
    (c = 8#8 → SHELL_PROMPT.length + (w.line.cursorPosition - 1) < SCREEN_WIDTH)

/-- The cursor is on the screen, and so was every cell that a character was put into, but for the
accesses noted before. -/
def CursorOnScreen (noted : List CellAccess) (w : ShellScreen) : Prop :=
  w.screen.InRange ∧ ∀ a ∈ w.screen.accesses, a.function = .putchr →
    a ∈ noted ∨ a.x < SCREEN_WIDTH ∧ a.y < SCREEN_HEIGHT

section CursorOnScreen

variable {process : List Byte → Vga → Vga} {w w' : ShellScreen} {e : LineEditor} {c : Byte}
  {noted : List CellAccess} {v : Vga}

/-- Placing the cursor in a column of the screen. -/
lemma onScreen_setColumn (h : v.OnScreen noted) {x : ℕ} (hx : x < SCREEN_WIDTH) :
    (vgaSetcursor x v.screenY { v with screenX := x }).OnScreen noted :=
  ⟨⟨hx, h.y_lt⟩, h.inside⟩

lemma onScreen_runCalls_printf (process : List Byte → Vga → Vga) (h : v.OnScreen noted) (n : ℕ)
    (text : List Byte) :
    (runCalls process (List.replicate n (.printf text)) v).OnScreen noted := by
  induction n generalizing v with
  | zero => exact h
  | succ n ih => exact ih (onScreen_vgaPuts h text)

lemma runCalls_append (calls calls' : List ShellCall) (v : Vga) :
    runCalls process (calls ++ calls') v = runCalls process calls' (runCalls process calls v) :=
  List.foldl_append

lemma onScreen_redrawCalls (h : v.OnScreen noted) :
    (runCalls process (redrawCalls e) v).OnScreen noted := by
  have hprompt : SHELL_PROMPT.length < SCREEN_WIDTH := by decide
  have hspaces := onScreen_runCalls_printf process (onScreen_setColumn h hprompt)
    (e.line.erase.text.length + 2) [32#8]
  have htext := onScreen_vgaPuts (onScreen_setColumn hspaces hprompt) e.line.erase.text
  rw [redrawCalls, runCalls_append]
  simp only [runCalls, List.foldl_cons, List.foldl_nil, runCall] at htext ⊢
  exact htext

/-- **A key that stays in its row** leaves the cursor on the screen. -/
lemma onScreen_key (h : Shows w.line e) (hv : w.screen.OnScreen noted) (hc : c ≠ 10#8)
    (hstay : StaysInRow w c) : (runCalls process (keyCalls e c) w.screen).OnScreen noted := by
  have hroom : w.line.commandPos = e.line.text.length := by rw [h.pos, Line.length_text]
  rw [keyCalls, if_neg hc]
  split_ifs with hback hbefore hleft hbefore hright hafter hnothing hfull hprintable
  · exact hv
  · have hcol := hstay.2 hback
    rw [h.cursor, ← List.length_dropLast] at hcol
    rw [runCalls_append]
    exact onScreen_setColumn (onScreen_redrawCalls hv) hcol
  · exact hv
  · simp only [runCalls, List.foldl_cons, List.foldl_nil, runCall]
    split_ifs with hprompt
    · exact onScreen_setColumn hv ((Nat.sub_le _ _).trans_lt hv.x_lt)
    · exact hv
  · exact hv
  · have hmoves : MovesOn w c := by
      refine Or.inr ⟨hright, ?_⟩
      rw [h.cursor, h.pos, Nat.lt_add_right_iff_pos, List.length_pos_iff]
      exact hafter
    exact onScreen_setColumn hv (hstay.1 hmoves)
  · exact hv
  · have hmoves : MovesOn w c := Or.inl ⟨hprintable.1, hprintable.2, hroom ▸ hfull⟩
    exact onScreen_setColumn (onScreen_vgaPuts hv (c :: e.line.after)) (hstay.1 hmoves)
  · exact onScreen_vgaPuts hv [c]
  · exact hv

/-- Any other key takes the cursor out of the screen. -/
lemma width_le_of_key (process : List Byte → Vga → Vga) (h : Shows w.line e)
    (hstay : ¬StaysInRow w c) :
    SCREEN_WIDTH ≤ (runCalls process (keyCalls e c) w.screen).screenX := by
  have hroom : w.line.commandPos = e.line.text.length := by rw [h.pos, Line.length_text]
  rw [StaysInRow, Classical.not_and_iff_not_or_not, Classical.not_imp, Classical.not_imp,
    Nat.not_lt, Nat.not_lt] at hstay
  rcases hstay with ⟨hmoves, hcol⟩ | ⟨rfl, hcol⟩
  · rcases hmoves with ⟨hlow, hhigh, hfull⟩ | ⟨rfl, hend⟩
    · have hcalls : keyCalls e c = [.printfAhead (c :: e.line.after)] := by
        rw [keyCalls, if_neg (by rintro rfl; exact absurd hlow (by decide)),
          if_neg (by rintro rfl; exact absurd hlow (by decide)),
          if_neg (by rintro rfl; exact absurd hlow (by decide)),
          if_neg (by rintro rfl; exact absurd hlow (by decide)),
          if_neg (by rintro (rfl | rfl | rfl) <;> exact absurd hlow (by decide)),
          if_pos (hroom ▸ hfull), if_pos ⟨hlow, hhigh⟩]
      rw [hcalls]
      exact hcol
    · have hafter : ¬e.line.after = [] := by
        rwa [h.cursor, h.pos, Nat.lt_add_right_iff_pos, List.length_pos_iff] at hend
      have hcalls : keyCalls e 4#8 = [.columnRight] := if_neg hafter
      rw [hcalls]
      exact hcol
  · have hprompt : SHELL_PROMPT.length < SCREEN_WIDTH := by decide
    have hbefore : ¬e.line.before = [] := by
      intro hnil
      rw [h.cursor, hnil] at hcol
      exact absurd hcol (Nat.not_le.mpr hprompt)
    have hcalls : keyCalls e 8#8 =
        redrawCalls e ++ [.setColumn (SHELL_PROMPT.length + e.line.erase.before.length)] :=
      if_neg hbefore
    rw [h.cursor, ← List.length_dropLast] at hcol
    rw [hcalls, runCalls_append]
    exact hcol

/-- The keys between two Enters. -/
def NotEnter (_ : ShellScreen) (c : Byte) : Prop := c ≠ 10#8

/-- **The cursor on the screen**: from a prompt printed anywhere on the screen, whatever is typed
up to the next Enter, the cursor stays on the screen, and every character is put into a cell of
it, exactly if each key stays in its row. -/
theorem cursor_on_screen_iff (process : List Byte → Vga → Vga) (calls : List ShellCall) (v : Vga)
    (hv : v.InRange) (keys : List Byte) (w : ShellScreen)
    (hrun : Run (shellScreenKey process) NotEnter (atPrompt calls v) keys w) :
    (∀ pre c post u, keys = pre ++ c :: post →
        Run (shellScreenKey process) NotEnter (atPrompt calls v) pre u → StaysInRow u c) ↔
      ∀ pre post u, keys = pre ++ post →
        Run (shellScreenKey process) NotEnter (atPrompt calls v) pre u →
          CursorOnScreen v.accesses u := by
  refine Run.forall_prefix_iff
    (P := fun u => (∃ e, Shows u.line e) ∧ u.screen.OnScreen v.accesses) ?_ ?_ ?_ ?_ hrun
  · rintro u ⟨-, hu⟩
    exact ⟨hu.toInRange, fun a ha _ => hu.inside a ha⟩
  · rintro u c u' ⟨⟨e, he⟩, hu⟩ hc hstay hstep
    obtain ⟨hs, hscreen, -⟩ := shows_of_shellScreenKey he hstep
    exact ⟨⟨_, hs⟩, hscreen ▸ onScreen_key he hu hc hstay⟩
  · rintro u c u' ⟨⟨e, he⟩, hu⟩ - hstay hstep hQ
    obtain ⟨-, hscreen, -⟩ := shows_of_shellScreenKey he hstep
    have hout := width_le_of_key process he hstay
    rw [← hscreen] at hout
    exact absurd hQ.1.x_lt (Nat.not_lt.mpr hout)
  · exact ⟨⟨_, shows_atPrompt calls v⟩, onScreen_vgaPuts hv.onScreen SHELL_PROMPT⟩

/-- No key is refused. -/
lemma exists_run_shellScreen (process : List Byte → Vga → Vga) {keys : List Byte}
    (hkeys : 10#8 ∉ keys) (h : Shows w.line e) :
    ∃ w', Run (shellScreenKey process) NotEnter w keys w' := by
  induction keys generalizing w e with
  | nil => exact ⟨w, Run.nil w⟩
  | cons c keys ih =>
      obtain ⟨s, hs, hkey⟩ := shellScreenKey_eq process h c
      obtain ⟨hc, hrest⟩ := not_or.mp (mt List.mem_cons.mpr hkeys)
      obtain ⟨w', hrun⟩ := ih hrest (show Shows (ShellScreen.mk s _ _).line _ from hs)
      exact ⟨w', Run.cons (Ne.symm hc) hkey hrun⟩

/-- On a blank console the keys `a`, `b` and backspace make such a run. -/
theorem cursor_on_screen_iff_blank :
    vgaBlank.InRange ∧ ∃ w, Run (shellScreenKey fun _ => id) NotEnter (atPrompt [] vgaBlank)
        [97#8, 98#8, 8#8] w ∧
      ((∀ pre c post u, [97#8, 98#8, 8#8] = pre ++ c :: post →
          Run (shellScreenKey fun _ => id) NotEnter (atPrompt [] vgaBlank) pre u →
            StaysInRow u c) ↔
        ∀ pre post u, [97#8, 98#8, 8#8] = pre ++ post →
          Run (shellScreenKey fun _ => id) NotEnter (atPrompt [] vgaBlank) pre u →
            CursorOnScreen vgaBlank.accesses u) := by
  have hblank : vgaBlank.InRange := ⟨by decide, by decide⟩
  have hkeys : 10#8 ∉ [97#8, 98#8, 8#8] := by decide
  obtain ⟨w, hrun⟩ := exists_run_shellScreen (fun _ => id) hkeys (shows_atPrompt [] vgaBlank)
  exact ⟨hblank, w, hrun, cursor_on_screen_iff _ [] vgaBlank hblank _ w hrun⟩

/-- Behind the prompt, 73 printable characters take the cursor to column 80. -/
theorem cursor_leaves_screen :
    vgaBlank.InRange ∧ ∃ w, Run (shellScreenKey fun _ => id) NotEnter (atPrompt [] vgaBlank)
        (List.replicate 73 97#8) w ∧ ¬CursorOnScreen vgaBlank.accesses w := by
  have hkeys : 10#8 ∉ List.replicate 73 97#8 := by decide
  obtain ⟨w, hrun⟩ := exists_run_shellScreen (fun _ => id) hkeys (shows_atPrompt [] vgaBlank)
  have hcol : ((List.replicate 73 97#8).foldlM (shellScreenKey fun _ => id)
      (atPrompt [] vgaBlank)).map (fun u => u.screen.screenX) = some 80 := by decide +kernel
  rw [hrun.foldlM_eq] at hcol
  have hout : w.screen.screenX = SCREEN_WIDTH := Option.some.inj hcol
  exact ⟨⟨by decide, by decide⟩, w, hrun, fun hscreen => hscreen.1.x_lt.ne hout⟩

end CursorOnScreen

/-! ### The row of the prompt -/

/-- The console is ready for a prompt: the cursor stands at the start of a row, and the row is
blank behind the place of the prompt. -/
structure PromptReady (v : Vga) : Prop where
  column : v.screenX = 0
  blank : ∀ x < SCREEN_WIDTH, SHELL_PROMPT.length ≤ x → glyph (v.char x v.screenY) = 32#8

/-- The console when Enter has run the command, and is going to print the prompt. -/
def beforePrompt (process : List Byte → Vga → Vga) (w : ShellScreen) : Vga :=
  let v := vgaPuts [10#8] w.screen
  if 0 < w.line.commandPos then process (bufferText w.line.commandBuffer 0) v else v

/-- The characters of the last branch of `shell_run`. -/
def Special (c : Byte) : Prop :=
  c ≠ 10#8 ∧ c ≠ 8#8 ∧ c ≠ 3#8 ∧ c ≠ 4#8 ∧ ¬(c = 0#8 ∨ c = 1#8 ∨ c = 2#8) ∧
    ¬(32 ≤ c.toInt ∧ c.toInt ≤ 126)

/-- A key that the shell draws as it should: Enter leads to a row that is ready for the prompt,
backspace clears cells of the row only, and a special character is one that is shown, with
nothing but spaces behind it. -/
structure DrawnRight (process : List Byte → Vga → Vga) (w : ShellScreen) (c : Byte) : Prop where
  enter : c = 10#8 → PromptReady (beforePrompt process w)
  backspace : c = 8#8 → 0 < w.line.cursorPosition →
    SHELL_PROMPT.length + w.line.commandPos + 1 < SCREEN_WIDTH
  special : Special c → Plain c ∧
    ∀ d ∈ (bufferText w.line.commandBuffer 0).drop w.line.cursorPosition, d = 32#8

/-- After the key the prompt and the line take at most 79 columns. -/
def FitsRow (process : List Byte → Vga → Vga) (w : ShellScreen) (c : Byte) : Prop :=
  ∀ w', shellScreenKey process w c = some w' →
    SHELL_PROMPT.length + w'.line.commandPos < SCREEN_WIDTH

/-- The row that the prompt was printed in shows the prompt, the line and blanks, and the cursor
is at its place in it. -/
def PromptRowShown (w : ShellScreen) : Prop :=
  ∃ y < SCREEN_HEIGHT, w.screen.scrolled + y = w.promptLine ∧
    w.screen.RowShows y (SHELL_PROMPT ++ bufferText w.line.commandBuffer 0) ∧
    w.screen.cursor = y * SCREEN_WIDTH + (SHELL_PROMPT.length + w.line.cursorPosition)

/-- The state of the console that goes with a state of the editor. -/
structure RowOf (e : LineEditor) (line : ℕ) (v : Vga) : Prop where
  inRange : v.InRange
  plain : ∀ c ∈ e.line.text, Plain c
  fits : SHELL_PROMPT.length + e.line.text.length < SCREEN_WIDTH
  column : v.screenX = SHELL_PROMPT.length + e.line.before.length
  line : v.line = line
  row : v.RowShows v.screenY (SHELL_PROMPT ++ e.line.text)
  cursor : v.CursorShown

section PromptRow

variable {process : List Byte → Vga → Vga} {w w' : ShellScreen} {e : LineEditor} {c : Byte}
  {v : Vga} {line : ℕ}

lemma plain_prompt : ∀ c ∈ SHELL_PROMPT, Plain c := by
  unfold Plain
  decide

lemma nul_notMem_prompt : 0#8 ∉ SHELL_PROMPT := by decide

/-- Such a row is what the prompt's row should look like. -/
lemma RowOf.shown (h : Shows w.line e) (hv : RowOf e w.promptLine w.screen) :
    PromptRowShown w := by
  refine ⟨w.screen.screenY, hv.inRange.y_lt, hv.line, ?_, ?_⟩
  · rw [h.bufferText_eq]
    exact hv.row
  · rw [h.cursor, ← hv.column]
    exact hv.cursor

/-- Placing the cursor in the row of the prompt. -/
lemma cursorShown_setColumn (h : v.InRange) {x : ℕ} (hx : x < SCREEN_WIDTH) :
    (vgaSetcursor x v.screenY { v with screenX := x }).CursorShown := by
  have hy := h.y_lt
  have hplace : v.screenY * SCREEN_WIDTH + x < 65536 := by
    simp only [SCREEN_WIDTH, SCREEN_HEIGHT] at *
    omega
  exact Nat.mod_eq_of_lt hplace

/-- A prompt printed where the console is ready for it. -/
lemma rowOf_prompt (h : v.InRange) (hready : PromptReady v) (entered : List (List Byte)) :
    RowOf ⟨Line.empty, entered⟩ v.line (vgaPuts SHELL_PROMPT v) := by
  have hfit : v.screenX + SHELL_PROMPT.length < SCREEN_WIDTH := by
    rw [hready.column]
    decide
  obtain ⟨hx, hy, hscrolled, hchar⟩ := vgaPuts_within_row h plain_prompt hfit
  refine
    { inRange := (onScreen_vgaPuts h.onScreen SHELL_PROMPT).toInRange
      plain := fun c hc => absurd hc List.not_mem_nil
      fits := by rw [Line.text_empty]; decide
      column := by rw [hx, hready.column]; rfl
      line := by rw [Vga.line, hy, hscrolled]; rfl
      row := ?_
      cursor := cursorShown_vgaPuts h (by decide) }
  intro x hxw
  rw [hy, hchar x hxw, hready.column, Line.text_empty, List.append_nil]
  by_cases hlow : x < SHELL_PROMPT.length
  · have hmem : SHELL_PROMPT.getD x 0#8 ∈ SHELL_PROMPT := by
      rw [List.getD_eq_getElem _ _ hlow]
      exact List.getElem_mem hlow
    rw [if_pos (by omega), Nat.sub_zero,
      glyph_of_ne (fun hzero => nul_notMem_prompt (hzero ▸ hmem)), List.getD_eq_getElem _ _ hlow,
      List.getD_eq_getElem _ _ hlow]
  · rw [if_neg (by omega), hready.blank x hxw (Nat.not_lt.mp hlow),
      List.getD_eq_default _ _ (Nat.not_lt.mp hlow)]

/-- The text printed from the cursor on, over the row of the prompt. -/
lemma RowOf.vgaPuts (hv : RowOf e line v) {text : List Byte} (htext : ∀ d ∈ text, Plain d)
    (hnul : 0#8 ∉ text) (hfit : v.screenX + text.length < SCREEN_WIDTH) :
    (vgaPuts text v).InRange ∧ (vgaPuts text v).screenX = v.screenX + text.length ∧
      (vgaPuts text v).line = line ∧
      (vgaPuts text v).RowShows (vgaPuts text v).screenY
        (SHELL_PROMPT ++ (e.line.before ++ (text ++ e.line.after.drop text.length))) := by
  obtain ⟨hx, hy, hscrolled, -⟩ := vgaPuts_within_row hv.inRange htext hfit
  have hrow : v.RowShows v.screenY (SHELL_PROMPT ++ e.line.before ++ e.line.after) := by
    rw [List.append_assoc]
    exact hv.row
  have hhead : v.screenX = (SHELL_PROMPT ++ e.line.before).length := by
    rw [hv.column, List.length_append]
  have hover := rowShows_vgaPuts hv.inRange hrow hhead htext hnul hfit
  refine ⟨(onScreen_vgaPuts hv.inRange.onScreen text).toInRange, hx, ?_, ?_⟩
  · rw [Vga.line, hscrolled, hy]
    exact hv.line
  · rw [hy, ← List.append_assoc]
    exact hover

lemma insert_eq (hfits : SHELL_PROMPT.length + (e.line.text.length + 1) < SCREEN_WIDTH) (c : Byte) :
    (e.line.insert c).before = e.line.before ++ [c] ∧ (e.line.insert c).after = e.line.after := by
  have hroom : e.line.before.length + e.line.after.length < SHELL_BUFFER_SIZE - 1 := by
    rw [Line.length_text] at hfits
    simp only [SCREEN_WIDTH, SHELL_BUFFER_SIZE] at *
    omega
  rw [e.line.insert_of_lt c hroom]
  exact ⟨rfl, rfl⟩

/-- **A character and what stands behind it**, printed from the cursor on. -/
lemma rowOf_printfAhead (process : List Byte → Vga → Vga) (hv : RowOf e line v)
    (hnul : 0#8 ∉ e.line.text) (hc : Plain c)
    (hc' : c ≠ 0#8) (hfits : SHELL_PROMPT.length + (e.line.text.length + 1) < SCREEN_WIDTH) :
    RowOf { e with line := e.line.insert c } line
      (runCall process v (.printfAhead (c :: e.line.after))) := by
  obtain ⟨hbefore, hafter⟩ := insert_eq hfits c
  have hlen : (c :: e.line.after).length = e.line.after.length + 1 := rfl
  have htext : ∀ d ∈ c :: e.line.after, Plain d := by
    intro d hd
    rcases List.mem_cons.mp hd with rfl | hd
    · exact hc
    · exact hv.plain d (List.mem_append_right _ hd)
  have hnul' : 0#8 ∉ c :: e.line.after := by
    simp only [List.mem_cons, not_or]
    exact ⟨Ne.symm hc', fun hmem => hnul (List.mem_append_right _ hmem)⟩
  have hfit : v.screenX + (c :: e.line.after).length < SCREEN_WIDTH := by
    rw [hv.column, hlen]
    rw [Line.length_text] at hfits
    omega
  have hcol : v.screenX + 1 < SCREEN_WIDTH := by omega
  obtain ⟨hrange, -, hline, hrow⟩ := hv.vgaPuts htext hnul' hfit
  have hinserted : (e.line.insert c).text = e.line.before ++ (c :: e.line.after) := by
    rw [Line.text, hbefore, hafter, List.append_assoc]
    rfl
  refine
    { inRange := ⟨hcol, hrange.y_lt⟩
      plain := ?_
      fits := ?_
      column := ?_
      line := hline
      row := ?_
      cursor := cursorShown_setColumn hrange hcol }
  · rw [hinserted]
    intro d hd
    rcases List.mem_append.mp hd with hd | hd
    · exact hv.plain d (List.mem_append_left _ hd)
    · exact htext d hd
  · rw [hinserted, List.length_append, hlen]
    rw [Line.length_text] at hfits
    omega
  · have hcolumn : (runCall process v (.printfAhead (c :: e.line.after))).screenX =
        v.screenX + 1 := rfl
    rw [hcolumn, hv.column, hbefore, List.length_append, List.length_singleton]
    rfl
  · rw [List.drop_eq_nil_of_le (by rw [hlen]; omega), List.append_nil] at hrow
    rw [hinserted]
    exact hrow

/-- A special character with nothing but spaces behind it. -/
lemma rowOf_special (hv : RowOf e line v) (hc : Plain c) (hc' : c ≠ 0#8)
    (hspaces : ∀ d ∈ e.line.after, d = 32#8)
    (hfits : SHELL_PROMPT.length + (e.line.text.length + 1) < SCREEN_WIDTH) :
    RowOf { e with line := e.line.insert c } line (vgaPuts [c] v) := by
  obtain ⟨hbefore, hafter⟩ := insert_eq hfits c
  have hinserted : (e.line.insert c).text = e.line.before ++ [c] ++ e.line.after := by
    rw [Line.text, hbefore, hafter]
  have hfit : v.screenX + [c].length < SCREEN_WIDTH := by
    rw [hv.column, List.length_singleton]
    rw [Line.length_text] at hfits
    omega
  have hplain : ∀ d ∈ [c], Plain d := by simpa using hc
  obtain ⟨hrange, hcol, hline, hrow⟩ :=
    hv.vgaPuts hplain (by simpa using Ne.symm hc') hfit
  refine
    { inRange := hrange
      plain := ?_
      fits := ?_
      column := ?_
      line := hline
      row := ?_
      cursor := cursorShown_vgaPuts hv.inRange (List.cons_ne_nil c []) }
  · rw [hinserted]
    intro d hd
    rcases List.mem_append.mp hd with hd | hd
    · rcases List.mem_append.mp hd with hd | hd
      · exact hv.plain d (List.mem_append_left _ hd)
      · exact hplain d hd
    · exact hv.plain d (List.mem_append_right _ hd)
  · rw [hinserted, List.length_append, List.length_append, List.length_singleton]
    rw [Line.length_text] at hfits
    omega
  · rw [hcol, hv.column, hbefore, List.length_append, List.length_singleton]
    rfl
  · have hrest : ∀ d ∈ e.line.after.drop 1, d = 32#8 :=
      fun d hd => hspaces d (List.mem_of_mem_drop hd)
    rw [List.length_singleton, ← List.append_assoc, ← List.append_assoc,
      rowShows_append_of_blank hrest] at hrow
    rw [hinserted, ← List.append_assoc, rowShows_append_of_blank hspaces, ← List.append_assoc]
    exact hrow

lemma runCalls_replicate_printf (n : ℕ) (v : Vga) :
    runCalls process (List.replicate n (.printf [32#8])) v = vgaPuts (List.replicate n 32#8) v := by
  induction n generalizing v with
  | zero => rfl
  | succ n ih => exact ih (vgaPutc 32#8 v)

/-- What backspace draws: spaces over the line and one cell more, then the new line. -/
lemma runCalls_redrawCalls (v : Vga) : runCalls process (redrawCalls e) v =
    vgaPuts e.line.erase.text (runCall process
      (vgaPuts (List.replicate (e.line.erase.text.length + 2) 32#8)
        (runCall process v (.setColumn SHELL_PROMPT.length)))
      (.setColumn SHELL_PROMPT.length)) := by
  rw [redrawCalls, List.cons_append, runCalls, List.foldl_cons]
  change runCalls process (_ ++ _) _ = _
  rw [runCalls_append, runCalls_replicate_printf]
  rfl

lemma length_erase (hbefore : e.line.before ≠ []) :
    e.line.erase.text.length + 1 = e.line.text.length := by
  have hpos : 0 < e.line.before.length := List.length_pos_iff.mpr hbefore
  rw [Line.length_text, Line.length_text]
  simp only [Line.erase, List.length_dropLast]
  omega

/-- A text printed over the line, from behind the prompt. -/
lemma rowShows_printf_at_prompt (process : List Byte → Vga → Vga) {rest text : List Byte}
    (hrange : v.InRange)
    (hrow : v.RowShows v.screenY (SHELL_PROMPT ++ rest)) (htext : ∀ d ∈ text, Plain d)
    (hnul : 0#8 ∉ text) (hfit : SHELL_PROMPT.length + text.length < SCREEN_WIDTH) :
    let u := vgaPuts text (runCall process v (.setColumn SHELL_PROMPT.length))
    u.InRange ∧ u.line = v.line ∧
      u.RowShows u.screenY (SHELL_PROMPT ++ (text ++ rest.drop text.length)) := by
  have hprompt : SHELL_PROMPT.length < SCREEN_WIDTH := by decide
  have hrange' : (runCall process v (.setColumn SHELL_PROMPT.length)).InRange :=
    ⟨hprompt, hrange.y_lt⟩
  obtain ⟨-, hy, hscrolled, -⟩ := vgaPuts_within_row hrange' htext hfit
  refine ⟨(onScreen_vgaPuts hrange'.onScreen text).toInRange, ?_, ?_⟩
  · rw [Vga.line, hy, hscrolled]
    rfl
  · rw [hy]
    exact rowShows_vgaPuts hrange' hrow rfl htext hnul hfit

/-- The line drawn anew by backspace, which must not fill its row. -/
lemma rowOf_backspace (hv : RowOf e line v) (hnul : 0#8 ∉ e.line.text)
    (hbefore : e.line.before ≠ [])
    (hroom : SHELL_PROMPT.length + e.line.text.length + 1 < SCREEN_WIDTH) :
    RowOf { e with line := e.line.erase } line (runCalls process
      (redrawCalls e ++ [.setColumn (SHELL_PROMPT.length + e.line.erase.before.length)]) v) := by
  have hlen := length_erase hbefore
  have hsub : ∀ d ∈ e.line.erase.text, d ∈ e.line.text := by
    intro d hd
    rcases List.mem_append.mp hd with hd | hd
    · exact List.mem_append_left _ (List.mem_of_mem_dropLast hd)
    · exact List.mem_append_right _ hd
  have hplain : ∀ d ∈ e.line.erase.text, Plain d := fun d hd => hv.plain d (hsub d hd)
  -- spaces go over the line, and the new line over the spaces
  obtain ⟨hrange₁, hline₁, hrow₁⟩ := rowShows_printf_at_prompt process hv.inRange
    hv.row (plain_spaces (e.line.erase.text.length + 2)) (by simp)
    (by rw [List.length_replicate]; omega)
  rw [List.drop_eq_nil_of_le (by rw [List.length_replicate]; omega), List.append_nil] at hrow₁
  obtain ⟨hrange₂, hline₂, hrow₂⟩ := rowShows_printf_at_prompt process hrange₁ hrow₁
    hplain (fun hmem => hnul (hsub _ hmem)) (by omega)
  rw [List.drop_replicate, ← List.append_assoc, rowShows_append_blanks] at hrow₂
  have hcol : SHELL_PROMPT.length + e.line.erase.before.length < SCREEN_WIDTH := by
    rw [← hlen, Line.length_text] at hroom
    omega
  rw [runCalls_append, runCalls_redrawCalls]
  exact
    { inRange := ⟨hcol, hrange₂.y_lt⟩
      plain := hplain
      fits := by show SHELL_PROMPT.length + e.line.erase.text.length < SCREEN_WIDTH; omega
      column := rfl
      line := (hline₂.trans hline₁).trans hv.line
      row := hrow₂
      cursor := cursorShown_setColumn hrange₂ hcol }

/-- A move of the cursor within the line. -/
lemma rowOf_setColumn {l : Line Byte (SHELL_BUFFER_SIZE - 1)} (hv : RowOf e line v)
    (htext : l.text = e.line.text) :
    RowOf { e with line := l } line (vgaSetcursor (SHELL_PROMPT.length + l.before.length) v.screenY
      { v with screenX := SHELL_PROMPT.length + l.before.length }) := by
  have hcol : SHELL_PROMPT.length + l.before.length < SCREEN_WIDTH := by
    have hfits := hv.fits
    rw [← htext, Line.length_text] at hfits
    omega
  exact
    { inRange := ⟨hcol, hv.inRange.y_lt⟩
      plain := by simpa only [htext] using hv.plain
      fits := by simpa only [htext] using hv.fits
      column := rfl
      line := hv.line
      row := by
        change v.RowShows v.screenY (SHELL_PROMPT ++ l.text)
        rw [htext]
        exact hv.row
      cursor := cursorShown_setColumn hv.inRange hcol }

lemma runCalls_printf (text : List Byte) (v : Vga) :
    runCalls process [.printf text] v = vgaPuts text v := rfl

/-- Enter runs the command, and prints the prompt. -/
lemma runCalls_enter (process : List Byte → Vga → Vga) (h : Shows w.line e) :
    runCalls process (keyCalls e 10#8).dropLast w.screen = beforePrompt process w ∧
      runCalls process (keyCalls e 10#8) w.screen =
        vgaPuts SHELL_PROMPT (beforePrompt process w) := by
  have hkey : keyCalls e 10#8 = [.printf [10#8]] ++
      (if e.line.text = [] then [] else [.processCommand e.line.text]) ++
        [.printf SHELL_PROMPT] := rfl
  have hfront : runCalls process ([.printf [10#8]] ++
      (if e.line.text = [] then [] else [.processCommand e.line.text])) w.screen =
        beforePrompt process w := by
    rw [beforePrompt, h.bufferText_eq]
    by_cases hpos : 0 < w.line.commandPos
    · rw [if_pos hpos, if_neg (mt h.text_eq_nil_iff.mp (not_not.mpr hpos))]
      rfl
    · rw [if_neg hpos, if_pos (h.text_eq_nil_iff.mpr hpos)]
      rfl
  rw [hkey, List.dropLast_concat, runCalls_append _ [ShellCall.printf SHELL_PROMPT], hfront]
  exact ⟨rfl, runCalls_printf _ _⟩

/-- An inserted character makes the line longer, as long as it fits into the row. -/
lemma length_insert (hv : RowOf e line v) (c : Byte) :
    (e.line.insert c).text.length = e.line.text.length + 1 := by
  have hfits := hv.fits
  have hroom : e.line.before.length + e.line.after.length < SHELL_BUFFER_SIZE - 1 := by
    rw [Line.length_text] at hfits
    simp only [SCREEN_WIDTH, SHELL_BUFFER_SIZE] at *
    omega
  simp only [e.line.insert_of_lt c hroom, Line.length_text, List.length_append,
    List.length_singleton]
  omega

/-- The console that the prompt is printed on. -/
lemma inRange_beforePrompt (hprocess : ∀ text u, u.InRange → (process text u).InRange)
    (hv : w.screen.InRange) : (beforePrompt process w).InRange := by
  have hnext := (onScreen_vgaPuts hv.onScreen [10#8]).toInRange
  rw [beforePrompt]
  split_ifs
  · exact hprocess _ _ hnext
  · exact hnext

/-- **A key that is drawn as it should** leaves the row of the prompt with the line. -/
theorem rowOf_key (hprocess : ∀ text u, u.InRange → (process text u).InRange)
    (h : Shows w.line e) (hv : RowOf e w.promptLine w.screen) (hfits : FitsRow process w c)
    (hdrawn : DrawnRight process w c) (hstep : shellScreenKey process w c = some w') :
    RowOf (e.key c) w'.promptLine w'.screen := by
  obtain ⟨hs, hscreen, hline⟩ := shows_of_shellScreenKey h hstep
  have hfit := hfits w' hstep
  rw [hs.pos, ← Line.length_text] at hfit
  rw [hscreen, hline]
  by_cases henter : c = 10#8
  · subst henter
    obtain ⟨hfront, hall⟩ := runCalls_enter process h
    rw [if_pos rfl, hfront, hall]
    exact rowOf_prompt (inRange_beforePrompt hprocess hv.inRange) (hdrawn.enter rfl) _
  rw [if_neg henter]
  by_cases hback : c = 8#8
  · subst hback
    have hkey : e.key 8#8 = { e with line := e.line.erase } := rfl
    have hcalls : keyCalls e 8#8 = if e.line.before = [] then [] else
        redrawCalls e ++ [.setColumn (SHELL_PROMPT.length + e.line.erase.before.length)] := rfl
    rw [hkey, hcalls]
    split_ifs with hbefore
    · rw [e.line.erase_of_nil hbefore]
      exact hv
    · have hroom := hdrawn.backspace rfl (by rwa [h.cursor, List.length_pos_iff])
      rw [h.pos, ← Line.length_text] at hroom
      exact rowOf_backspace hv h.noNul hbefore hroom
  by_cases hleft : c = 3#8
  · subst hleft
    have hkey : e.key 3#8 = { e with line := e.line.left } := rfl
    have hcalls : keyCalls e 3#8 = if e.line.before = [] then [] else [.columnLeft] := rfl
    rw [hkey, hcalls]
    split_ifs with hbefore
    · rw [e.line.left_of_nil hbefore]
      exact hv
    · have hpos : 0 < e.line.before.length := List.length_pos_iff.mpr hbefore
      have hmove := rowOf_setColumn hv e.line.text_left
      have hcol : w.screen.screenX - 1 = SHELL_PROMPT.length + e.line.left.before.length := by
        rw [hv.column, Line.length_before_left]
        omega
      have hif : SHELL_PROMPT.length < w.screen.screenX := by
        rw [hv.column]
        omega
      rw [← hcol] at hmove
      simp only [runCalls, List.foldl_cons, List.foldl_nil, runCall, if_pos hif]
      exact hmove
  by_cases hright : c = 4#8
  · subst hright
    have hkey : e.key 4#8 = { e with line := e.line.right } := rfl
    have hcalls : keyCalls e 4#8 = if e.line.after = [] then [] else [.columnRight] := rfl
    rw [hkey, hcalls]
    split_ifs with hafter
    · rw [e.line.right_of_nil hafter]
      exact hv
    · have hmove := rowOf_setColumn hv e.line.text_right
      have hcol : w.screen.screenX + 1 = SHELL_PROMPT.length + e.line.right.before.length := by
        rw [hv.column, Line.length_before_right, if_neg hafter]
        rfl
      rw [← hcol] at hmove
      exact hmove
  rw [LineEditor.key, if_neg henter, if_neg hback, if_neg hleft, if_neg hright] at hfit ⊢
  rw [keyCalls, if_neg henter, if_neg hback, if_neg hleft, if_neg hright]
  split_ifs at hfit ⊢ with hnothing hroom hprintable
  · exact hv
  · rw [length_insert hv] at hfit
    have hplain : Plain c := by
      refine ⟨?_, henter, ?_⟩ <;> rintro rfl <;> exact absurd hprintable.1 (by decide)
    exact rowOf_printfAhead process hv h.noNul hplain (fun hnul => hnothing (Or.inl hnul)) hfit
  · rw [length_insert hv] at hfit
    obtain ⟨hplain, hspaces⟩ :=
      hdrawn.special ⟨henter, hback, hleft, hright, hnothing, hprintable⟩
    rw [h.bufferText_eq, h.cursor, Line.text, List.drop_left] at hspaces
    exact rowOf_special hv hplain (fun hnul => hnothing (Or.inl hnul)) hspaces hfit
  · have hfits' := hv.fits
    simp only [SCREEN_WIDTH, SHELL_BUFFER_SIZE] at *
    omega

/-! ### Keys that are not drawn right -/

/-- Where the cursor is when the row of the prompt is shown. -/
lemma PromptRowShown.place (hw : PromptRowShown w) (hcursor : w.screen.CursorShown) :
    w.screen.place =
      w.promptLine * SCREEN_WIDTH + (SHELL_PROMPT.length + w.line.cursorPosition) := by
  obtain ⟨y, -, hline, -, hplace⟩ := hw
  rw [hcursor] at hplace
  rw [Vga.place, Vga.line, ← hline, Nat.add_mul, Nat.add_mul]
  omega

/-- The row of the prompt, on a screen that has not scrolled. -/
lemma PromptRowShown.row (hw : PromptRowShown w) (h : Shows w.line e) (hv : v.line = w.promptLine)
    (hscrolled : w.screen.scrolled = v.scrolled) :
    w.screen.RowShows v.screenY (SHELL_PROMPT ++ e.line.text) := by
  obtain ⟨y, -, hline, hrow, -⟩ := hw
  have hy : y = v.screenY := by
    rw [Vga.line] at hv
    omega
  rwa [hy, h.bufferText_eq] at hrow

/-- Enter, where the console is not ready for the prompt. -/
lemma promptReady_of_shown (hv : v.InRange) (hscreen : w.screen = vgaPuts SHELL_PROMPT v)
    (hline : w.promptLine = v.line) (hs : Shows w.line e) (hempty : e.line.text = [])
    (hshown : PromptRowShown w) : PromptReady v := by
  have hcursor : w.line.cursorPosition = 0 := by
    have hbefore : e.line.before = [] := (List.append_eq_nil_iff.mp hempty).1
    rw [hs.cursor, hbefore]
    rfl
  have hplace := hshown.place (hscreen ▸ cursorShown_vgaPuts hv (by decide))
  have hcol : v.screenX = 0 := by
    rw [hscreen, place_vgaPuts hv plain_prompt, hline, hcursor, Vga.place] at hplace
    omega
  have hfit : v.screenX + SHELL_PROMPT.length < SCREEN_WIDTH := by
    rw [hcol]
    decide
  obtain ⟨-, -, hscrolled, hchar⟩ := vgaPuts_within_row hv plain_prompt hfit
  have hrow := hshown.row hs hline.symm (hscreen ▸ hscrolled)
  rw [hempty, List.append_nil] at hrow
  refine ⟨hcol, fun x hx hle => ?_⟩
  have hglyph := hrow x hx
  rwa [hscreen, hchar x hx, if_neg (by omega), List.getD_eq_default _ _ hle] at hglyph

/-- Backspace on a line that fills the row: the spaces take the cursor to the next one. -/
lemma not_shown_backspace (hv : RowOf e w.promptLine w.screen) (hbefore : e.line.before ≠ [])
    (hfull : SHELL_PROMPT.length + e.line.text.length + 1 = SCREEN_WIDTH)
    (hs : Shows w'.line { e with line := e.line.erase }) (hline : w'.promptLine = w.promptLine)
    (hscreen : w'.screen = runCalls process
      (redrawCalls e ++ [.setColumn (SHELL_PROMPT.length + e.line.erase.before.length)])
        w.screen) : ¬PromptRowShown w' := by
  intro hshown
  have hlen := length_erase hbefore
  have hprompt : SHELL_PROMPT.length < SCREEN_WIDTH := by decide
  have hplain : ∀ d ∈ e.line.erase.text, Plain d := by
    intro d hd
    rcases List.mem_append.mp hd with hd | hd
    · exact hv.plain d (List.mem_append_left _ (List.mem_of_mem_dropLast hd))
    · exact hv.plain d (List.mem_append_right _ hd)
  rw [runCalls_append, runCalls_redrawCalls] at hscreen
  -- the spaces
  have hrange₁ : (runCall process w.screen (.setColumn SHELL_PROMPT.length)).InRange :=
    ⟨hprompt, hv.inRange.y_lt⟩
  have hplace₁ := place_vgaPuts hrange₁ (plain_spaces (e.line.erase.text.length + 2))
  have hrange₂ := (onScreen_vgaPuts hrange₁.onScreen
    (List.replicate (e.line.erase.text.length + 2) 32#8)).toInRange
  have hstart : (runCall process w.screen (.setColumn SHELL_PROMPT.length)).place =
      w.promptLine * SCREEN_WIDTH + SHELL_PROMPT.length :=
    congrArg (· * SCREEN_WIDTH + SHELL_PROMPT.length) hv.line
  rw [hstart, List.length_replicate, Vga.place] at hplace₁
  generalize vgaPuts (List.replicate (e.line.erase.text.length + 2) 32#8)
    (runCall process w.screen (.setColumn SHELL_PROMPT.length)) = v₂ at *
  have hline₂ : v₂.line = w.promptLine + 1 := by
    have hx := hrange₂.x_lt
    simp only [SCREEN_WIDTH] at *
    omega
  -- the text
  have hrange₃ : (runCall process v₂ (.setColumn SHELL_PROMPT.length)).InRange :=
    ⟨hprompt, hrange₂.y_lt⟩
  have hplace₃ := place_vgaPuts hrange₃ hplain
  have hrange₄ := (onScreen_vgaPuts hrange₃.onScreen e.line.erase.text).toInRange
  have hstart₃ : (runCall process v₂ (.setColumn SHELL_PROMPT.length)).place =
      (w.promptLine + 1) * SCREEN_WIDTH + SHELL_PROMPT.length :=
    congrArg (· * SCREEN_WIDTH + SHELL_PROMPT.length) hline₂
  rw [hstart₃, Vga.place] at hplace₃
  generalize vgaPuts e.line.erase.text
    (runCall process v₂ (.setColumn SHELL_PROMPT.length)) = v₄ at *
  have hline₄ : v₄.line = w.promptLine + 1 := by
    have hx := hrange₄.x_lt
    simp only [SCREEN_WIDTH] at *
    omega
  -- the cursor
  have hcol : SHELL_PROMPT.length + e.line.erase.before.length < SCREEN_WIDTH := by
    rw [← hlen, Line.length_text] at hfull
    omega
  have hcursor : w'.screen.CursorShown := by
    rw [hscreen]
    exact cursorShown_setColumn hrange₄ hcol
  have hend : w'.screen.place = (w.promptLine + 1) * SCREEN_WIDTH +
      (SHELL_PROMPT.length + e.line.erase.before.length) := by
    rw [hscreen]
    exact congrArg (· * SCREEN_WIDTH + _) hline₄
  have hplace := hshown.place hcursor
  rw [hend, hline, hs.cursor] at hplace
  simp only [SCREEN_WIDTH] at hplace
  omega

/-- A text whose characters read the same when the first of them is left out is blank. -/
lemma blank_of_getD_succ {l : List Byte} {n : ℕ} (hn : l.length ≤ n)
    (h : ∀ k < n, l.getD (k + 1) 32#8 = l.getD k 32#8) : ∀ d ∈ l, d = 32#8 := by
  induction l generalizing n with
  | nil => exact fun d hd => absurd hd List.not_mem_nil
  | cons c l ih =>
      rw [List.length_cons] at hn
      have hrest : ∀ d ∈ l, d = 32#8 := by
        refine ih (n := n - 1) (by omega) fun k hk => ?_
        exact h (k + 1) (by omega)
      have hfirst : l.getD 0 32#8 = c := h 0 (by omega)
      intro d hd
      rcases List.mem_cons.mp hd with rfl | hd
      · rw [← hfirst]
        cases l with
        | nil => rfl
        | cons b l => exact hrest b List.mem_cons_self
      · exact hrest d hd

/-- A special character, when the row is shown after it. -/
lemma special_of_shown (hv : RowOf e w.promptLine w.screen) (hc : Special c)
    (hfits : SHELL_PROMPT.length + (e.line.text.length + 1) < SCREEN_WIDTH)
    (hs : Shows w'.line { e with line := e.line.insert c }) (hline : w'.promptLine = w.promptLine)
    (hscreen : w'.screen = vgaPuts [c] w.screen) (hshown : PromptRowShown w') :
    Plain c ∧ ∀ d ∈ e.line.after, d = 32#8 := by
  obtain ⟨hbefore, hafter⟩ := insert_eq hfits c
  have hlen := Line.length_text e.line
  have hcol := hv.column
  have hinserted : SHELL_PROMPT ++ (e.line.insert c).text =
      SHELL_PROMPT ++ e.line.before ++ c :: e.line.after := by
    rw [Line.text, hbefore, hafter]
    simp
  have hhead : (SHELL_PROMPT ++ e.line.before).length = w.screen.screenX := by
    rw [List.length_append, hcol]
  have hroom : w.screen.screenX + 1 < SCREEN_WIDTH := by omega
  have hexpected : (SHELL_PROMPT ++ e.line.before ++ c :: e.line.after).getD w.screen.screenX
      32#8 = c := by
    rw [← hhead, List.getD_append_right _ _ _ _ le_rfl, Nat.sub_self, List.getD_cons_zero]
  have hold : ∀ k, w.screen.screenX + k < SCREEN_WIDTH →
      glyph (w.screen.char (w.screen.screenX + k) w.screen.screenY) =
        e.line.after.getD k 32#8 := by
    intro k hk
    rw [hv.row _ hk, Line.text, ← List.append_assoc, ← hhead,
      List.getD_append_right _ _ _ _ (Nat.le_add_right _ _), Nat.add_sub_cancel_left]
  have hrow : (vgaPuts [c] w.screen).scrolled = w.screen.scrolled →
      (vgaPuts [c] w.screen).RowShows w.screen.screenY
        (SHELL_PROMPT ++ e.line.before ++ c :: e.line.after) := by
    intro hscrolled
    have hrow := hshown.row hs (hv.line.trans hline.symm) (by rw [hscreen, hscrolled])
    rwa [hscreen, hinserted] at hrow
  have htab : c ≠ 9#8 := by
    rintro rfl
    obtain ⟨hscrolled, hcell⟩ := vgaPutc_tab_within_row hv.inRange hroom
    have hglyph := hrow hscrolled _ hv.inRange.x_lt
    rw [hexpected, vgaPuts_cons, vgaPuts_nil, hcell] at hglyph
    exact absurd hglyph (by decide)
  have hreturn : c ≠ 13#8 := by
    rintro rfl
    have hput : vgaPuts [13#8] w.screen = vgaSetcursor 0 w.screen.screenY w.screen.rowStart :=
      wrapAndScroll_of_inRange ⟨width_pos, hv.inRange.y_lt⟩
    have hglyph := hrow (by rw [hput]; rfl) _ hv.inRange.x_lt
    have hcell := hold 0 hv.inRange.x_lt
    rw [hexpected, hput] at hglyph
    have hthirteen : e.line.after.getD 0 32#8 = 13#8 := hcell.symm.trans hglyph
    have hplain := hv.plain
    cases hnil : e.line.after with
    | nil =>
        rw [hnil] at hthirteen
        exact absurd hthirteen (by decide)
    | cons d rest =>
        rw [hnil] at hthirteen
        have hmem : d ∈ e.line.text := by
          rw [Line.text, hnil]
          exact List.mem_append_right _ List.mem_cons_self
        exact (hplain d hmem).2.2 hthirteen
  have hplain : Plain c := ⟨htab, hc.1, hreturn⟩
  refine ⟨hplain, ?_⟩
  have hone : ∀ d ∈ [c], Plain d := by simpa using hplain
  obtain ⟨-, -, hscrolled, hchar⟩ := vgaPuts_within_row hv.inRange hone hroom
  refine blank_of_getD_succ (n := e.line.after.length) le_rfl fun k hk => ?_
  have hin : w.screen.screenX + (k + 1) < SCREEN_WIDTH := by omega
  have hglyph := hrow hscrolled _ hin
  rw [hchar _ hin, if_neg (by rw [List.length_singleton]; omega), hold _ hin, ← hhead,
    List.getD_append_right _ _ _ _ (Nat.le_add_right _ _), Nat.add_sub_cancel_left,
    List.getD_cons_succ] at hglyph
  exact hglyph

/-- **A key after which the row is shown** was drawn as it should be. -/
theorem drawnRight_of_shown (hprocess : ∀ text u, u.InRange → (process text u).InRange)
    (h : Shows w.line e) (hv : RowOf e w.promptLine w.screen) (hfits : FitsRow process w c)
    (hstep : shellScreenKey process w c = some w') (hshown : PromptRowShown w') :
    DrawnRight process w c := by
  obtain ⟨hs, hscreen, hline⟩ := shows_of_shellScreenKey h hstep
  have hfit := hfits w' hstep
  rw [hs.pos, ← Line.length_text] at hfit
  refine ⟨?_, ?_, ?_⟩
  · rintro rfl
    obtain ⟨hfront, hall⟩ := runCalls_enter process h
    rw [if_pos rfl, hfront] at hline
    rw [hall] at hscreen
    exact promptReady_of_shown (inRange_beforePrompt hprocess hv.inRange) hscreen hline hs rfl
      hshown
  · rintro rfl hcursor
    by_contra hfull
    have hbefore : e.line.before ≠ [] := by rwa [h.cursor, List.length_pos_iff] at hcursor
    have hcalls : keyCalls e 8#8 =
        redrawCalls e ++ [.setColumn (SHELL_PROMPT.length + e.line.erase.before.length)] :=
      if_neg hbefore
    have hfits' := hv.fits
    rw [hcalls] at hscreen
    rw [h.pos, ← Line.length_text] at hfull
    exact not_shown_backspace hv hbefore (by omega) hs hline hscreen hshown
  · intro hc
    obtain ⟨henter, hback, hleft, hright, hnothing, hprintable⟩ := id hc
    have hkey : e.key c = { e with line := e.line.insert c } := by
      rw [LineEditor.key, if_neg henter, if_neg hback, if_neg hleft, if_neg hright,
        if_neg hnothing]
    have hroom : e.line.text.length < SHELL_BUFFER_SIZE - 1 := by
      have hfits' := hv.fits
      simp only [SCREEN_WIDTH, SHELL_BUFFER_SIZE] at *
      omega
    rw [keyCalls, if_neg henter, if_neg hback, if_neg hleft, if_neg hright, if_neg hnothing,
      if_pos hroom, if_neg hprintable, runCalls_printf] at hscreen
    rw [if_neg henter] at hline
    rw [hkey] at hs hfit
    have hlen : SHELL_PROMPT.length + (e.line.insert c).text.length < SCREEN_WIDTH := hfit
    rw [length_insert hv] at hlen
    have hspecial := special_of_shown hv hc hlen hs hline hscreen hshown
    rwa [h.bufferText_eq, h.cursor, Line.text, List.drop_left]

/-- **The row of the prompt**: from a prompt on a console that was ready for it, whatever is typed,
as long as the prompt and the line take at most 79 columns, the row of the prompt shows the line,
and the cursor is at its place in it, exactly if each key is drawn as it should. -/
theorem prompt_row_iff (process : List Byte → Vga → Vga)
    (hprocess : ∀ text u, u.InRange → (process text u).InRange) (calls : List ShellCall) (v : Vga)
    (hv : v.InRange) (hready : PromptReady v) (keys : List Byte) (w : ShellScreen)
    (hrun : Run (shellScreenKey process) (FitsRow process) (atPrompt calls v) keys w) :
    (∀ pre c post u, keys = pre ++ c :: post →
        Run (shellScreenKey process) (FitsRow process) (atPrompt calls v) pre u →
          DrawnRight process u c) ↔
      ∀ pre post u, keys = pre ++ post →
        Run (shellScreenKey process) (FitsRow process) (atPrompt calls v) pre u →
          PromptRowShown u := by
  refine Run.forall_prefix_iff
    (P := fun u => ∃ e, Shows u.line e ∧ RowOf e u.promptLine u.screen) ?_ ?_ ?_ ?_ hrun
  · rintro u ⟨e, he, hu⟩
    exact hu.shown he
  · rintro u c u' ⟨e, he, hu⟩ hfits hdrawn hstep
    exact ⟨_, (shows_of_shellScreenKey he hstep).1, rowOf_key hprocess he hu hfits hdrawn hstep⟩
  · rintro u c u' ⟨e, he, hu⟩ hfits hdrawn hstep hshown
    exact hdrawn (drawnRight_of_shown hprocess he hu hfits hstep hshown)
  · exact ⟨_, shows_atPrompt calls v, rowOf_prompt hv hready _⟩

/-- A key makes the line longer by at most one character. -/
lemma length_key_le (e : LineEditor) (c : Byte) :
    (e.key c).line.text.length ≤ e.line.text.length + 1 := by
  have hinsert : (e.line.insert c).text.length ≤ e.line.text.length + 1 := by
    by_cases hroom : e.line.before.length + e.line.after.length < SHELL_BUFFER_SIZE - 1
    · simp only [e.line.insert_of_lt c hroom, Line.length_text, List.length_append,
        List.length_singleton]
      omega
    · rw [e.line.insert_of_full c hroom]
      exact Nat.le_succ _
  have herase : e.line.erase.text.length ≤ e.line.text.length + 1 := by
    simp only [Line.length_text, Line.erase, List.length_dropLast]
    omega
  rw [LineEditor.key]
  split_ifs
  · exact Nat.zero_le _
  · exact herase
  · exact (congrArg List.length e.line.text_left).trans_le (Nat.le_succ _)
  · exact (congrArg List.length e.line.text_right).trans_le (Nat.le_succ _)
  · exact Nat.le_succ _
  · exact hinsert

/-- Few keys fit into the row. -/
lemma exists_run_fitsRow (process : List Byte → Vga → Vga) {keys : List Byte}
    (h : Shows w.line e)
    (hfit : SHELL_PROMPT.length + e.line.text.length + keys.length < SCREEN_WIDTH) :
    ∃ w', Run (shellScreenKey process) (FitsRow process) w keys w' := by
  induction keys generalizing w e with
  | nil => exact ⟨w, Run.nil w⟩
  | cons c keys ih =>
      rw [List.length_cons] at hfit
      have hle := length_key_le e c
      obtain ⟨s, hs, hkey⟩ := shellScreenKey_eq process h c
      obtain ⟨w', hrun⟩ := ih (show Shows (ShellScreen.mk s _ _).line _ from hs) (by omega)
      refine ⟨w', Run.cons (fun u hu => ?_) hkey hrun⟩
      rw [(shows_of_shellScreenKey h hu).1.pos, ← Line.length_text]
      omega

lemma promptReady_vgaBlank : PromptReady vgaBlank := ⟨rfl, fun _ _ _ => rfl⟩

/-- On a blank console, with commands that print nothing, the keys `a` and Enter make such a
run. -/
theorem prompt_row_iff_blank :
    vgaBlank.InRange ∧ PromptReady vgaBlank ∧
      ∃ w, Run (shellScreenKey fun _ => id) (FitsRow fun _ => id) (atPrompt [] vgaBlank)
        [97#8, 10#8] w ∧
      ((∀ pre c post u, [97#8, 10#8] = pre ++ c :: post →
          Run (shellScreenKey fun _ => id) (FitsRow fun _ => id) (atPrompt [] vgaBlank) pre u →
            DrawnRight (fun _ => id) u c) ↔
        ∀ pre post u, [97#8, 10#8] = pre ++ post →
          Run (shellScreenKey fun _ => id) (FitsRow fun _ => id) (atPrompt [] vgaBlank) pre u →
            PromptRowShown u) := by
  have hblank : vgaBlank.InRange := ⟨by decide, by decide⟩
  have hfit : SHELL_PROMPT.length + (promptEditor []).line.text.length + [97#8, 10#8].length <
      SCREEN_WIDTH := by decide
  obtain ⟨w, hrun⟩ := exists_run_fitsRow (fun _ => id) (shows_atPrompt [] vgaBlank) hfit
  exact ⟨hblank, promptReady_vgaBlank, w, hrun, prompt_row_iff _ (fun _ _ hu => hu) [] vgaBlank
    hblank promptReady_vgaBlank _ w hrun⟩

/-- A special character typed in front of an `a` is drawn over it. -/
theorem special_hides_line :
    vgaBlank.InRange ∧ PromptReady vgaBlank ∧
      ∃ w, Run (shellScreenKey fun _ => id) (FitsRow fun _ => id) (atPrompt [] vgaBlank)
        [97#8, 3#8, 164#8] w ∧ ¬PromptRowShown w := by
  have hfit : SHELL_PROMPT.length + (promptEditor []).line.text.length +
      [97#8, 3#8, 164#8].length < SCREEN_WIDTH := by decide
  obtain ⟨w, hrun⟩ := exists_run_fitsRow (fun _ => id) (shows_atPrompt [] vgaBlank) hfit
  have hstate : ([97#8, 3#8, 164#8].foldlM (shellScreenKey fun _ => id)
      (atPrompt [] vgaBlank)).map (fun u => (u.screen.scrolled, u.promptLine,
        bufferText u.line.commandBuffer 0, glyph (u.screen.char 8 0))) =
          some (0, 0, [164#8, 97#8], 32#8) := by decide +kernel
  rw [hrun.foldlM_eq] at hstate
  obtain ⟨hscrolled, hline, htext, hcell⟩ : w.screen.scrolled = 0 ∧ w.promptLine = 0 ∧
      bufferText w.line.commandBuffer 0 = [164#8, 97#8] ∧ glyph (w.screen.char 8 0) = 32#8 := by
    simpa using hstate
  refine ⟨⟨by decide, by decide⟩, promptReady_vgaBlank, w, hrun, ?_⟩
  rintro ⟨y, -, hy, hrow, -⟩
  have hzero : y = 0 := by omega
  have hglyph := hrow 8 (by decide)
  rw [hzero, hcell, htext] at hglyph
  exact absurd hglyph (by decide)

end PromptRow

end MiqOSoft
