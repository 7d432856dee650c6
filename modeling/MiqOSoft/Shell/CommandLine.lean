import MiqOSoft.Editing.Line
import MiqOSoft.Common.Strings

/-!
The command line of the shell: `shell_run` of `shell.c`, which pops the typed characters and edits
`command_buffer` with them.

* `ShellLine`: the variables of the line, and the calls made while it is edited, oldest first.
  A character is a byte, compared as a signed one where the code does so.
* `shellKey`, `shellRun`: the loop body and the loop, over the characters popped.  Every access to
  `command_buffer` is checked.
* `LineEditor`: what the line is for, a text with a cursor and the lines entered.
* `Shows`: the variables of the shell show the state of the editor; `shows_key` is the step.
-/

namespace MiqOSoft

open Machine Editing

/-- `SHELL_BUFFER_SIZE`. -/
abbrev SHELL_BUFFER_SIZE : ℕ := 256

/-- `SHELL_PROMPT`. -/
def SHELL_PROMPT : List Byte := ascii "MiqOs> "

/-! ### The shell's line -/

/-- What `shell_run` does to the screen, and the commands it hands over. -/
inductive ShellCall
  /-- `printf` of a text -/
  | printf (text : List Byte)
  /-- `g_ScreenX = x`, and the cursor is set there -/
  | setColumn (x : ℕ)
  /-- `g_ScreenX--` if it lies behind the prompt, and the cursor is set -/
  | columnLeft
  /-- `g_ScreenX++`, and the cursor is set -/
  | columnRight
  /-- `printf` of a text, after which the cursor is set one column behind where it began -/
  | printfAhead (text : List Byte)
  /-- `shell_process_command` of a line -/
  | processCommand (line : List Byte)
deriving DecidableEq

/-- The line handed to `shell_process_command`. -/
def ShellCall.command? : ShellCall → Option (List Byte)
  | .processCommand line => some line
  | _ => none

/-- `command_buffer`, `command_pos`, `cursor_position`, and the calls made. -/
structure ShellLine where
  commandBuffer : Vector Byte SHELL_BUFFER_SIZE
  commandPos : ℕ
  cursorPosition : ℕ
  calls : List ShellCall

namespace ShellLine

/-- The state that `shell_init` leaves. -/
def init : ShellLine := ⟨Vector.replicate SHELL_BUFFER_SIZE 0#8, 0, 0, []⟩

/-- More calls are made. -/
def call (s : ShellLine) (cs : List ShellCall) : ShellLine := { s with calls := s.calls ++ cs }

/-- The lines handed to `shell_process_command`, in order. -/
def commands (s : ShellLine) : List (List Byte) := s.calls.filterMap ShellCall.command?

end ShellLine

/-- The string that starts at place `k` of `command_buffer`. -/
def bufferText (buf : Vector Byte SHELL_BUFFER_SIZE) (k : ℕ) : List Byte :=
  textOf (buf.toList.drop k)

/-- `shell_move_cursor_left`. -/
def shellMoveCursorLeft (s : ShellLine) : ShellLine :=
  if 0 < s.cursorPosition then
    { s with cursorPosition := s.cursorPosition - 1 }.call [.columnLeft]
  else s

/-- `shell_move_cursor_right`. -/
def shellMoveCursorRight (s : ShellLine) : ShellLine :=
  if s.cursorPosition < s.commandPos then
    { s with cursorPosition := s.cursorPosition + 1 }.call [.columnRight]
  else s

/-- The branch of `shell_run` for Enter.  A command may use the screen, but has no access to the
variables of the line. -/
def shellEnter (s : ShellLine) : Option ShellLine := do
  let s := s.call [.printf [10#8]]
  let buf ← store s.commandBuffer s.commandPos 0#8
  let s := { s with commandBuffer := buf }
  let s :=
    if 0 < s.commandPos then s.call [.processCommand (bufferText s.commandBuffer 0)] else s
  let s := { s with
    commandBuffer := Vector.replicate SHELL_BUFFER_SIZE 0#8, commandPos := 0, cursorPosition := 0 }
  some (s.call [.printf SHELL_PROMPT])

/-- `command_buffer` after what stands from the cursor on has moved one place down. -/
def closeGap (s : ShellLine) : Option (Vector Byte SHELL_BUFFER_SIZE) :=
  if s.cursorPosition < s.commandPos then
    shiftDown (s.commandPos - 1 - (s.cursorPosition - 1)) (s.cursorPosition - 1) s.commandBuffer
  else some s.commandBuffer

/-- The character in front of the cursor is taken out of the line. -/
def eraseAtCursor (s : ShellLine) : Option ShellLine := do
  let buf ← closeGap s
  let buf ← store buf (s.commandPos - 1) 0#8
  some { s with
    commandBuffer := buf, commandPos := s.commandPos - 1, cursorPosition := s.cursorPosition - 1 }

/-- The branch for backspace, which draws the line anew. -/
def shellBackspace (s : ShellLine) : Option ShellLine :=
  if 0 < s.cursorPosition ∧ 0 < s.commandPos then do
    let s ← eraseAtCursor s
    let s := s.call [.setColumn SHELL_PROMPT.length]
    let s := s.call (List.replicate (s.commandPos + 2) (.printf [32#8]))
    some (s.call [.setColumn SHELL_PROMPT.length, .printf (bufferText s.commandBuffer 0),
      .setColumn (SHELL_PROMPT.length + s.cursorPosition)])
  else some s

/-- `command_buffer` after what stands from the cursor on has moved one place up. -/
def openGap (s : ShellLine) : Option (Vector Byte SHELL_BUFFER_SIZE) :=
  if s.cursorPosition < s.commandPos then
    shiftUp (s.commandPos - s.cursorPosition) s.commandPos s.commandBuffer
  else some s.commandBuffer

/-- A character is put into the line at the cursor, as both branches below do it. -/
def insertAtCursor (c : Byte) (s : ShellLine) : Option ShellLine := do
  let buf ← openGap s
  let buf ← store buf s.cursorPosition c
  some { s with
    commandBuffer := buf, commandPos := s.commandPos + 1, cursorPosition := s.cursorPosition + 1 }

/-- The branch for printable characters, which redraws the line from the character on. -/
def shellPrintable (c : Byte) (s : ShellLine) : Option ShellLine :=
  if s.commandPos < SHELL_BUFFER_SIZE - 1 then do
    let s ← insertAtCursor c s
    some (s.call [.printfAhead (bufferText s.commandBuffer (s.cursorPosition - 1))])
  else some s

/-- The branch for the other characters, which draws just the character. -/
def shellSpecial (c : Byte) (s : ShellLine) : Option ShellLine :=
  if s.commandPos < SHELL_BUFFER_SIZE - 1 then do
    let s ← insertAtCursor c s
    some (s.call [.printf [c]])
  else some s

/-- The body of the loop of `shell_run`, for the character popped. -/
def shellKey (s : ShellLine) (c : Byte) : Option ShellLine :=
  if c = 10#8 then shellEnter s
  else if c = 8#8 then shellBackspace s
  else if c = 1#8 then some s
  else if c = 2#8 then some s
  else if c = 3#8 then some (shellMoveCursorLeft s)
  else if c = 4#8 then some (shellMoveCursorRight s)
  else if 32 ≤ c.toInt ∧ c.toInt ≤ 126 then shellPrintable c s
  else if c ≠ 0#8 then shellSpecial c s
  else some s

/-- `shell_run` on the characters it pops. -/
def shellRun (keys : List Byte) (s : ShellLine) : Option ShellLine := keys.foldlM shellKey s

/-! ### The editor -/

/-- A line being edited, and the lines entered before. -/
structure LineEditor where
  line : Line Byte (SHELL_BUFFER_SIZE - 1)
  entered : List (List Byte)

namespace LineEditor

/-- Nothing typed yet. -/
def empty : LineEditor := ⟨Line.empty, []⟩

/-- Enter: a line with text in it is entered, and a new one begins. -/
def enter (e : LineEditor) : LineEditor :=
  ⟨Line.empty, if e.line.text = [] then e.entered else e.entered ++ [e.line.text]⟩

/-- The meaning of a key. -/
def key (e : LineEditor) (c : Byte) : LineEditor :=
  if c = 10#8 then e.enter
  else if c = 8#8 then { e with line := e.line.erase }
  else if c = 3#8 then { e with line := e.line.left }
  else if c = 4#8 then { e with line := e.line.right }
  else if c = 0#8 ∨ c = 1#8 ∨ c = 2#8 then e
  else { e with line := e.line.insert c }

/-- The keys typed one after another. -/
def typed (keys : List Byte) (e : LineEditor) : LineEditor := keys.foldl key e

end LineEditor

/-! ### The refinement -/

/-- The shell's variables show the state of the editor. -/
structure Shows (s : ShellLine) (e : LineEditor) : Prop where
  buffer : Holds s.commandBuffer 0#8 e.line.text
  pos : s.commandPos = e.line.before.length + e.line.after.length
  cursor : s.cursorPosition = e.line.before.length
  noNul : 0#8 ∉ e.line.text
  commands : s.commands = e.entered

lemma commands_call (s : ShellLine) (cs : List ShellCall) :
    (s.call cs).commands = s.commands ++ cs.filterMap ShellCall.command? :=
  List.filterMap_append

/-- Calls that hand over no command do not concern the editor. -/
lemma Shows.call {s : ShellLine} {e : LineEditor} (h : Shows s e) {cs : List ShellCall}
    (hcs : cs.filterMap ShellCall.command? = []) : Shows (s.call cs) e where
  buffer := h.buffer
  pos := h.pos
  cursor := h.cursor
  noNul := h.noNul
  commands := by rw [commands_call, hcs, List.append_nil, h.commands]

section Keys

variable {s : ShellLine} {e : LineEditor}

/-- A line leaves room for its terminator. -/
lemma LineEditor.length_lt (e : LineEditor) :
    e.line.before.length + e.line.after.length < SHELL_BUFFER_SIZE :=
  Nat.lt_of_le_sub_one (by decide) e.line.fits

/-- The buffer holds the line as a string. -/
lemma Shows.bufferText_eq (h : Shows s e) : bufferText s.commandBuffer 0 = e.line.text := by
  have hlen : e.line.text.length < SHELL_BUFFER_SIZE := e.line.length_text.trans_lt e.length_lt
  refine textOf_eq h.noNul (by simpa using hlen) ?_
  intro k hk
  rw [List.drop_zero, List.getD_eq_getElem?_getD, Vector.getElem?_toList,
    h.buffer k (hk.trans_lt hlen), Option.getD_some]

/-- The line is empty when the shell counts no character in it. -/
lemma Shows.text_eq_nil_iff (h : Shows s e) : e.line.text = [] ↔ ¬0 < s.commandPos := by
  rw [h.pos, ← Line.length_text, Nat.not_lt, Nat.le_zero, List.length_eq_zero_iff]

/-- The calls made by Enter hand over the line, unless it is empty. -/
lemma Shows.commands_enter (h : Shows s e) :
    ((if 0 < s.commandPos then s.call [.processCommand (bufferText s.commandBuffer 0)]
      else s).call [.printf SHELL_PROMPT]).commands = e.enter.entered := by
  rw [commands_call, h.bufferText_eq, LineEditor.enter]
  by_cases hpos : 0 < s.commandPos
  · have htext : e.line.text ≠ [] := fun hnil => h.text_eq_nil_iff.mp hnil hpos
    rw [if_pos hpos, if_neg htext, commands_call, h.commands]
    simp [ShellCall.command?]
  · rw [if_neg hpos, if_pos (h.text_eq_nil_iff.mpr hpos), h.commands]
    simp [ShellCall.command?]

/-- Enter terminates the text in the buffer, which changes nothing. -/
lemma Shows.terminated (h : Shows s e) (hpos : s.commandPos < SHELL_BUFFER_SIZE) :
    Shows { s with commandBuffer := s.commandBuffer.set s.commandPos 0#8 hpos } e :=
  { h with
    buffer := by
      have hlen : s.commandPos = e.line.text.length := by rw [h.pos, Line.length_text]
      simpa only [hlen] using h.buffer.set_length (hlen ▸ hpos) }

/-- Enter hands over the line, unless it is empty, and begins a new one. -/
lemma shows_enter (h : Shows s e) : ∃ s', shellEnter s = some s' ∧ Shows s' e.enter := by
  have hpos : s.commandPos < SHELL_BUFFER_SIZE := h.pos.trans_lt e.length_lt
  have hstore := store_of_lt s.commandBuffer 0#8 hpos
  have hclosed := (h.terminated hpos).call
    (rfl : [ShellCall.printf [10#8]].filterMap ShellCall.command? = [])
  refine ⟨_, by rw [shellEnter]; simp only [ShellLine.call, hstore]; rfl, ?_⟩
  exact
    { buffer := Holds.replicate
      pos := rfl
      cursor := rfl
      noNul := List.not_mem_nil
      commands := hclosed.commands_enter }

/-- The cursor is never beyond the end of the line, where the shift would move nothing. -/
lemma closeGap_eq (s : ShellLine) : closeGap s =
    shiftDown (s.commandPos - 1 - (s.cursorPosition - 1)) (s.cursorPosition - 1)
      s.commandBuffer := by
  rw [closeGap]
  split_ifs with hlt
  · rfl
  · rw [show s.commandPos - 1 - (s.cursorPosition - 1) = 0 by omega]
    rfl

lemma openGap_eq (s : ShellLine) : openGap s =
    shiftUp (s.commandPos - s.cursorPosition) s.commandPos s.commandBuffer := by
  rw [openGap]
  split_ifs with hlt
  · rfl
  · rw [show s.commandPos - s.cursorPosition = 0 by omega]
    rfl

lemma shows_eraseAtCursor (h : Shows s e) (hcursor : 0 < s.cursorPosition) :
    ∃ s', eraseAtCursor s = some s' ∧ Shows s' { e with line := e.line.erase } := by
  obtain ⟨xs, c, hxs⟩ : ∃ xs c, e.line.before = xs ++ [c] := by
    rcases List.eq_nil_or_concat e.line.before with hnil | ⟨xs, c, hxs⟩
    · rw [h.cursor, hnil] at hcursor
      exact absurd hcursor (lt_irrefl 0)
    · exact ⟨xs, c, by simpa using hxs⟩
  have htext : e.line.text = xs ++ c :: e.line.after := by simp [Line.text, hxs]
  have herase : e.line.erase.text = xs ++ e.line.after := by simp [Line.text, Line.erase, hxs]
  have hcur : s.cursorPosition - 1 = xs.length := by
    rw [h.cursor, hxs, List.length_append]
    rfl
  have hpos : s.commandPos - 1 = xs.length + e.line.after.length := by
    rw [h.pos, ← Line.length_text, htext, List.length_append, List.length_cons]
    rfl
  have hroom : xs.length + e.line.after.length + 1 < SHELL_BUFFER_SIZE := by
    have hlt : e.line.text.length < SHELL_BUFFER_SIZE := e.line.length_text.trans_lt e.length_lt
    rwa [htext, List.length_append, List.length_cons] at hlt
  obtain ⟨closed, buf, hshift, hstore, hbuf⟩ := holds_erase (htext ▸ h.buffer) hroom
  refine ⟨⟨buf, s.commandPos - 1, s.cursorPosition - 1, s.calls⟩, ?_, ?_⟩
  · rw [eraseAtCursor, closeGap_eq, hcur, hpos, Nat.add_sub_cancel_left, hshift]
    simp only [Option.bind_eq_bind, Option.bind_some, hstore]
  · exact
      { buffer := by rw [herase]; exact hbuf
        pos := by rw [← Line.length_text, herase, List.length_append, hpos]
        cursor := by simp [Line.erase, hxs, hcur]
        noNul := by
          have hnul := h.noNul
          simp only [htext, List.mem_append, List.mem_cons, not_or] at hnul
          simp [herase, hnul]
        commands := h.commands }

/-- Backspace removes the character in front of the cursor. -/
lemma shows_backspace (h : Shows s e) :
    ∃ s', shellBackspace s = some s' ∧ Shows s' { e with line := e.line.erase } := by
  by_cases hcursor : 0 < s.cursorPosition
  · have hpos : 0 < s.commandPos := by
      rw [h.pos]
      rw [h.cursor] at hcursor
      omega
    obtain ⟨s', herase, hs'⟩ := shows_eraseAtCursor h hcursor
    refine ⟨_, by rw [shellBackspace, if_pos ⟨hcursor, hpos⟩, herase]; rfl, ?_⟩
    exact ((hs'.call rfl).call (by simp [ShellCall.command?])).call rfl
  · have hnil : e.line.before = [] := by
      rw [h.cursor] at hcursor
      exact List.length_eq_zero_iff.mp (Nat.eq_zero_of_not_pos hcursor)
    refine ⟨s, if_neg fun hboth => hcursor hboth.1, ?_⟩
    rw [e.line.erase_of_nil hnil]
    exact h

/-- A character other than NUL is put in at the cursor. -/
lemma shows_insertAtCursor {c : Byte} (h : Shows s e) (hc : c ≠ 0#8)
    (hroom : e.line.before.length + e.line.after.length < SHELL_BUFFER_SIZE - 1) :
    ∃ s', insertAtCursor c s = some s' ∧ Shows s' { e with line := e.line.insert c } := by
  obtain ⟨gap, buf, hshift, hstore, hbuf⟩ := holds_insert h.buffer e.length_lt c
  have hinsert : (e.line.insert c).text = e.line.before ++ c :: e.line.after := by
    rw [e.line.insert_of_lt c hroom]
    simp [Line.text]
  refine ⟨⟨buf, s.commandPos + 1, s.cursorPosition + 1, s.calls⟩, ?_, ?_⟩
  · rw [insertAtCursor, openGap_eq, h.cursor, h.pos, Nat.add_sub_cancel_left, hshift]
    simp only [Option.bind_eq_bind, Option.bind_some, hstore]
  · exact
      { buffer := by rw [hinsert]; exact hbuf
        pos := by rw [← Line.length_text, hinsert, h.pos, List.length_append]; rfl
        cursor := by simp [e.line.insert_of_lt c hroom, h.cursor]
        noNul := by
          have hnul := h.noNul
          simp only [Line.text, List.mem_append, not_or] at hnul
          simp [hinsert, hnul, Ne.symm hc]
        commands := h.commands }

/-- Both branches that insert a character insert it at the cursor, or drop it if the line is
full. -/
lemma shows_insert {c : Byte} (h : Shows s e) (branch : ShellLine → Option ShellLine)
    (hc : c ≠ 0#8) {calls : ShellLine → List ShellCall}
    (hcalls : ∀ s, (calls s).filterMap ShellCall.command? = [])
    (hbranch : branch s = if s.commandPos < SHELL_BUFFER_SIZE - 1 then
      (insertAtCursor c s).bind fun s => some (s.call (calls s)) else some s) :
    ∃ s', branch s = some s' ∧ Shows s' { e with line := e.line.insert c } := by
  by_cases hroom : e.line.before.length + e.line.after.length < SHELL_BUFFER_SIZE - 1
  · obtain ⟨s', hins, hs'⟩ := shows_insertAtCursor h hc hroom
    refine ⟨s'.call (calls s'), ?_, hs'.call (hcalls s')⟩
    rw [hbranch, if_pos (by rwa [h.pos]), hins, Option.bind_some]
  · refine ⟨s, ?_, ?_⟩
    · rw [hbranch, if_neg (by rwa [h.pos])]
    · rw [e.line.insert_of_full c hroom]
      exact h

lemma shows_left (h : Shows s e) :
    Shows (shellMoveCursorLeft s) { e with line := e.line.left } := by
  rw [shellMoveCursorLeft]
  split_ifs with hcursor
  · refine Shows.call ?_ rfl
    exact
      { buffer := by rw [Line.text_left]; exact h.buffer
        pos := by rw [← Line.length_text, Line.text_left, Line.length_text, h.pos]
        cursor := by rw [Line.length_before_left, h.cursor]
        noNul := by rw [Line.text_left]; exact h.noNul
        commands := h.commands }
  · have hnil : e.line.before = [] := by
      rw [h.cursor] at hcursor
      exact List.length_eq_zero_iff.mp (Nat.eq_zero_of_not_pos hcursor)
    rw [e.line.left_of_nil hnil]
    exact h

lemma shows_right (h : Shows s e) :
    Shows (shellMoveCursorRight s) { e with line := e.line.right } := by
  have hend : s.cursorPosition < s.commandPos ↔ e.line.after ≠ [] := by
    rw [h.cursor, h.pos, Nat.lt_add_right_iff_pos, List.length_pos_iff]
  rw [shellMoveCursorRight]
  split_ifs with hcursor
  · refine Shows.call ?_ rfl
    exact
      { buffer := by rw [Line.text_right]; exact h.buffer
        pos := by rw [← Line.length_text, Line.text_right, Line.length_text, h.pos]
        cursor := by rw [Line.length_before_right, if_neg (hend.mp hcursor), h.cursor]
        noNul := by rw [Line.text_right]; exact h.noNul
        commands := h.commands }
  · rw [e.line.right_of_nil (not_not.mp (mt hend.mpr hcursor))]
    exact h

/-- **One key**: the shell handles every key without leaving the buffer, and its variables show
the editor's state again. -/
theorem shows_key (h : Shows s e) (c : Byte) :
    ∃ s', shellKey s c = some s' ∧ Shows s' (e.key c) := by
  by_cases henter : c = 10#8
  · rw [shellKey, if_pos henter, LineEditor.key, if_pos henter]
    exact shows_enter h
  by_cases hback : c = 8#8
  · rw [shellKey, if_neg henter, if_pos hback, LineEditor.key, if_neg henter, if_pos hback]
    exact shows_backspace h
  by_cases hleft : c = 3#8
  · subst hleft
    exact ⟨_, rfl, shows_left h⟩
  by_cases hright : c = 4#8
  · subst hright
    exact ⟨_, rfl, shows_right h⟩
  by_cases hnothing : c = 0#8 ∨ c = 1#8 ∨ c = 2#8
  · -- the history keys are not implemented, and a NUL is not a character
    rcases hnothing with rfl | rfl | rfl <;> exact ⟨s, rfl, h⟩
  obtain ⟨hnul, hup, hdown⟩ : c ≠ 0#8 ∧ c ≠ 1#8 ∧ c ≠ 2#8 := by
    simpa only [not_or] using hnothing
  rw [LineEditor.key, if_neg henter, if_neg hback, if_neg hleft, if_neg hright, if_neg hnothing,
    shellKey, if_neg henter, if_neg hback, if_neg hup, if_neg hdown, if_neg hleft, if_neg hright]
  split_ifs with hprintable
  · exact shows_insert h (shellPrintable c) hnul (fun s => by rfl) rfl
  · exact shows_insert h (shellSpecial c) hnul (fun s => by rfl) rfl

/-- **A stream of keys.** -/
theorem shows_run (keys : List Byte) (h : Shows s e) :
    ∃ s', shellRun keys s = some s' ∧ Shows s' (e.typed keys) := by
  induction keys generalizing s e with
  | nil => exact ⟨s, rfl, h⟩
  | cons c keys ih =>
      obtain ⟨s₁, hkey, hs₁⟩ := shows_key h c
      obtain ⟨s', hrun, hs'⟩ := ih hs₁
      refine ⟨s', ?_, hs'⟩
      rw [shellRun, List.foldlM_cons, hkey]
      exact hrun

end Keys

lemma shows_init : Shows ShellLine.init LineEditor.empty where
  buffer := Holds.replicate
  pos := rfl
  cursor := rfl
  noNul := List.not_mem_nil
  commands := rfl

/-- **`shell_run` is a line editor**: whatever is typed after `shell_init`, the loop handles every
key, and its variables are those of the editor on which the same keys were typed.  The buffer
holds the editor's text up to `command_pos` and NULs from there on, the cursor stands where the
editor's does, and `shell_process_command` was called with the lines entered, in order. -/
theorem shellRun_edits_line (keys : List Byte) :
    ∃ s, shellRun keys ShellLine.init = some s ∧
      s.commandBuffer.toList.take s.commandPos = (LineEditor.empty.typed keys).line.text ∧
      s.commandPos = (LineEditor.empty.typed keys).line.text.length ∧
      s.cursorPosition = (LineEditor.empty.typed keys).line.before.length ∧
      (∀ k, s.commandPos ≤ k → k < SHELL_BUFFER_SIZE → s.commandBuffer[k]? = some 0#8) ∧
      s.commands = (LineEditor.empty.typed keys).entered := by
  obtain ⟨s, hrun, hs⟩ := shows_run keys shows_init
  have hpos : s.commandPos = (LineEditor.empty.typed keys).line.text.length := by
    rw [hs.pos, Line.length_text]
  refine ⟨s, hrun, ?_, hpos, hs.cursor, ?_, hs.commands⟩
  · rw [hpos]
    exact hs.buffer.take_toList (Line.length_text _ |>.trans_le (LineEditor.length_lt _).le)
  · intro k hle hk
    rw [hs.buffer k hk, List.getD_eq_default _ _ (hpos ▸ hle)]

end MiqOSoft
