import MiqOSoft.Shell.Grep

/-!
The command `cmd_edit` of `shell_commands.c`: a line editor that appends to a file.

* `editLine`: the loop that reads a line of keys, which come from `shell_getc`; `editLoop`: the loop
  over the lines.  What the command prints, echoes and writes is noted.
* `keyed`: the characters that the keys of a line leave, minus those erased; `typedLine`: the same
  without the arrow keys.
* `LineKept`: the arrow keys leave nothing in the line, and it does not get to 255 characters.
* `editLine_cases`: a line is read up to Enter, or cut at 255 characters.
* `editLoop_save_cases`: what the loop saves has more lines than were typed, unless each line was
  read up to Enter.
* `cmdEdit_saves_iff`: the editor saves what was typed exactly if the file is below the limit and
  every line is kept.
-/

namespace MiqOSoft

open Machine Editing

/-! ### The command -/

/-- What the command does to the outside: a call of `printf` or of `putc`, the character in front
of the cursor, unless that stands in the first column, is blanked on the screen, or a call of
`ramfs_write_file`. -/
inductive EditEvent
  | printf (fmt : CString) (args : VaList)
  | putc (c : Byte)
  | rubOut
  | write (filename : CString) (data : List Byte)

/-- How the loop over the lines is left: the content is to be saved, or not, or the file has
reached its limit. -/
inductive EditEnd
  | save (content : List Byte)
  | quit
  | full
deriving DecidableEq

/-- `"Usage: edit <filename>\n"`. -/
def editUsage : CString := ⟨ascii "Usage: edit <filename>\n", by decide⟩

/-- `"Editing existing file '%s' (%d bytes)\n"`. -/
def editExisting : CString := ⟨ascii "Editing existing file '%s' (%d bytes)\n", by decide⟩

/-- `"Current content:\n%s\n"`. -/
def editCurrent : CString := ⟨ascii "Current content:\n%s\n", by decide⟩

/-- `"Creating new file '%s'\n"`. -/
def editCreating : CString := ⟨ascii "Creating new file '%s'\n", by decide⟩

/-- `"\n=== Simple Editor ===\n"`. -/
def editTitle : CString := ⟨ascii "\n=== Simple Editor ===\n", by decide⟩

/-- `"Enter text (type 'SAVE' on new line to save, 'QUIT' to exit):\n\n"`. -/
def editHelp : CString :=
  ⟨ascii "Enter text (type 'SAVE' on new line to save, 'QUIT' to exit):\n\n", by decide⟩

/-- `"> "`. -/
def editPrompt : CString := ⟨ascii "> ", by decide⟩

/-- `"SAVE"`. -/
def editSave : CString := ⟨ascii "SAVE", by decide⟩

/-- `"QUIT"`. -/
def editQuit : CString := ⟨ascii "QUIT", by decide⟩

/-- `"File '%s' saved (%d bytes)\n"`. -/
def editSaved : CString := ⟨ascii "File '%s' saved (%d bytes)\n", by decide⟩

/-- `"Error saving file: %d\n"`. -/
def editError : CString := ⟨ascii "Error saving file: %d\n", by decide⟩

/-- `"Editor exited without saving\n"`. -/
def editExited : CString := ⟨ascii "Editor exited without saving\n", by decide⟩

/-- `"Error: File size limit reached (%d bytes)\n"`. -/
def editLimit : CString := ⟨ascii "Error: File size limit reached (%d bytes)\n", by decide⟩

/-- The loop that reads a line: the characters in front of `i` in `line_buffer`, the keys that are
left, and the echo; `none` if it waits for more keys. -/
def editLine : List Byte → List Byte → Option (List Byte × List Byte × List EditEvent)
  | [], line => if line.length < 255 then none else some (line, [], [])
  | c :: keys, line =>
      if line.length < 255 then
        if c = 10#8 then some (line, keys, [.putc 10#8])
        else if c = 8#8 then
          (editLine keys line.dropLast).map fun r =>
            (r.1, r.2.1, (if line = [] then [] else [.rubOut]) ++ r.2.2)
        else
          (editLine keys (line ++ [c])).map fun r =>
            (r.1, r.2.1, (if 32 ≤ c.toInt ∧ c.toInt ≤ 126 then [.putc c] else []) ++ r.2.2)
      else some (line, c :: keys, [])

/-- The string in `line_buffer` once its terminator is set. -/
def lineText (line : List Byte) : CString := ⟨textOf line, zero_notMem_textOf line⟩

/-- The loop over the lines: how it is left, the keys that are left, and what it printed and echoed;
`none` if it waits for more keys or takes more turns than given. -/
def editLoop : ℕ → List Byte → List Byte → Option (EditEnd × List Byte × List EditEvent)
  | 0, _, _ => none
  | turns + 1, content, keys => do
      let (line, keys, echo) ← editLine keys []
      let text := lineText line
      let out := .printf editPrompt [] :: echo
      if shellStrcmp text.byte editSave = 0 then some (.save content, keys, out)
      else if shellStrcmp text.byte editQuit = 0 then some (.quit, keys, out)
      else if content.length + text.chars.length + 2 < MAX_FILE_SIZE then
        (editLoop turns (content ++ text.chars ++ [10#8]) keys).map fun r =>
          (r.1, r.2.1, out ++ r.2.2)
      else some (.full, keys, out)

/-- `cmd_edit`: the result, what it did to the outside, the state, and the keys that are left. -/
def cmdEdit {σ : Type} (S : SysCalls σ) (argv : List CString) (keys : List Byte) (s : Shell σ) :
    Option (Word × List EditEvent × Shell σ × List Byte) :=
  match argv with
  | _ :: filename :: _ => do
      let s := ramfsInit s
      let (bytesRead, bytes) := ramfsReadFile filename 4095#32 s
      let head :=
        if 0 ≤ bytesRead.toInt then
          [EditEvent.printf editExisting [.text filename, .word bytesRead],
            .printf editCurrent [.text (lineText bytes)]]
        else [.printf editCreating [.text filename]]
      let content := if 0 < bytesRead.toInt then bytes else []
      let (left, keys, out) ← editLoop (keys.length + 1) content keys
      let out := head ++ [.printf editTitle [], .printf editHelp []] ++ out
      match left with
      | .save content =>
          let (result, s) := ramfsWriteFile S filename (fun k => content.getD k 0#8)
            (BitVec.ofNat 32 content.length) s
          let text :=
            if 0 ≤ result.toInt then EditEvent.printf editSaved [.text filename, .word result]
            else .printf editError [.word result]
          some (0#32, out ++ [.write filename content, text], s, keys)
      | .quit => some (0#32, out ++ [.printf editExited []], s, keys)
      | .full =>
          some (0#32, out ++ [.printf editLimit [.word (BitVec.ofNat 32 MAX_FILE_SIZE)]], s, keys)
  | _ => some (1#32, [.printf editUsage []], s, keys)

/-- The calls of `ramfs_write_file`. -/
def editWrites (out : List EditEvent) : List (CString × List Byte) :=
  out.filterMap fun
    | .write filename data => some (filename, data)
    | _ => none

@[simp] lemma editWrites_nil : editWrites [] = [] := rfl

@[simp] lemma editWrites_printf (fmt : CString) (args : VaList) (out : List EditEvent) :
    editWrites (.printf fmt args :: out) = editWrites out := rfl

@[simp] lemma editWrites_append (out out' : List EditEvent) :
    editWrites (out ++ out') = editWrites out ++ editWrites out' :=
  List.filterMap_append

/-! ### What is typed -/

/-- The characters that keys leave behind those of a line: a backspace takes the last one away. -/
def keyedFrom : List Byte → List Byte → List Byte
  | line, [] => line
  | line, c :: keys => keyedFrom (if c = 8#8 then line.dropLast else line ++ [c]) keys

/-- The characters that the keys of a line leave, minus those erased. -/
def keyed (keys : List Byte) : List Byte := keyedFrom [] keys

/-- The codes that the keyboard pushes for the arrow keys. -/
def IsArrow (c : Byte) : Prop := c = 1#8 ∨ c = 2#8 ∨ c = 3#8 ∨ c = 4#8

instance : DecidablePred IsArrow := fun _ => inferInstanceAs (Decidable (_ ∨ _))

/-- What is typed with the keys of a line: the arrow keys add nothing. -/
def typedLine (keys : List Byte) : List Byte := keyed (keys.filter fun c => ¬IsArrow c)

/-- Lines, each of them ended by Enter or by a newline. -/
def entered (lines : List (List Byte)) : List Byte := lines.flatMap fun l => l ++ [10#8]

/-- The arrow keys leave nothing in the line, and it does not get to 255 characters. -/
def LineKept (keys : List Byte) : Prop :=
  keyed keys = typedLine keys ∧ ∀ p, p <+: keys → (keyed p).length < 255

/-- **The lines of a session**: the last is `SAVE`, those in front of it are not, nor are they
`QUIT`, and what is typed stays below the limit. -/
structure EditSession (old : List Byte) (body : List (List Byte)) (last : List Byte) : Prop where
  key : ∀ l ∈ body ++ [last], ∀ c ∈ l, c ≠ 0#8 ∧ c ≠ 10#8
  save : typedLine last = editSave.chars
  text : ∀ l ∈ body, typedLine l ≠ editSave.chars ∧ typedLine l ≠ editQuit.chars
  limit : body ≠ [] → (old ++ entered (body.map typedLine)).length + 1 < MAX_FILE_SIZE

lemma entered_cons (l : List Byte) (lines : List (List Byte)) :
    entered (l :: lines) = l ++ 10#8 :: entered lines := by
  rw [entered, List.flatMap_cons, List.append_assoc]
  rfl

lemma length_le_length_entered (lines : List (List Byte)) :
    lines.length ≤ (entered lines).length := by
  induction lines with
  | nil => exact Nat.zero_le _
  | cons l lines ih =>
      rw [entered_cons, List.length_append, List.length_cons, List.length_cons]
      omega

/-- A character in a line was in front of it or is one of its keys. -/
lemma mem_keyedFrom {keys line : List Byte} {c : Byte} (h : c ∈ keyedFrom line keys) :
    c ∈ line ∨ c ∈ keys := by
  induction keys generalizing line with
  | nil => exact Or.inl h
  | cons d keys ih =>
      rw [keyedFrom] at h
      rcases ih h with hline | hkeys
      · split_ifs at hline with hd
        · exact Or.inl (List.mem_of_mem_dropLast hline)
        · rcases List.mem_append.mp hline with hmem | hmem
          · exact Or.inl hmem
          · exact Or.inr (List.mem_cons.mpr (Or.inl (List.mem_singleton.mp hmem)))
      · exact Or.inr (List.mem_cons_of_mem d hkeys)

lemma notMem_keyed {keys : List Byte} {c : Byte} (h : c ∉ keys) : c ∉ keyed keys := fun hmem =>
  (mem_keyedFrom hmem).elim List.not_mem_nil h

lemma notMem_typedLine {keys : List Byte} {c : Byte} (h : c ∉ keys) : c ∉ typedLine keys :=
  notMem_keyed fun hmem => h (List.mem_of_mem_filter hmem)

lemma length_keyedFrom_le (line keys : List Byte) :
    (keyedFrom line keys).length ≤ line.length + keys.length := by
  induction keys generalizing line with
  | nil => exact Nat.le_refl _
  | cons c keys ih =>
      refine (ih _).trans ?_
      split_ifs
      · rw [List.length_dropLast, List.length_cons]
        omega
      · rw [List.length_append, List.length_singleton, List.length_cons]
        omega

/-- A line without arrow keys is kept if it has fewer than 255 keys. -/
lemma lineKept_of_length_lt {keys : List Byte} (harrow : ∀ c ∈ keys, ¬IsArrow c)
    (hlen : keys.length < 255) : LineKept keys := by
  refine ⟨?_, fun p hp => ?_⟩
  · rw [typedLine, List.filter_eq_self.mpr fun c hc => decide_eq_true (harrow c hc)]
  · have hle := length_keyedFrom_le [] p
    rw [List.length_nil, Nat.zero_add] at hle
    exact (hle.trans hp.length_le).trans_lt hlen

lemma count_entered {lines : List (List Byte)} (h : ∀ l ∈ lines, 10#8 ∉ l) :
    (entered lines).count 10#8 = lines.length := by
  induction lines with
  | nil => rfl
  | cons l lines ih =>
      rw [List.forall_mem_cons] at h
      rw [entered_cons, List.count_append, List.count_eq_zero.mpr h.1, List.count_cons_self,
        ih h.2, List.length_cons, Nat.zero_add]

/-- The lines can be read back. -/
lemma linesOf_entered {lines : List (List Byte)} (h : ∀ l ∈ lines, 10#8 ∉ l) :
    linesOf (fun c => decide (c = 10#8)) (entered lines) = lines := by
  induction lines with
  | nil => rfl
  | cons l lines ih =>
      rw [List.forall_mem_cons] at h
      rw [entered_cons, linesOf_append_cons
        (fun d hd => decide_eq_false fun heq : d = 10#8 => h.1 (heq ▸ hd)) (decide_eq_true rfl),
        ih h.2]

/-! ### A line is read -/

variable {turns : ℕ} {content d line keys rest : List Byte}

/-- What a key other than Enter does to a line. -/
lemma editLine_cons (hline : line.length < 255) {c : Byte} (hc : c ≠ 10#8) :
    ∃ echo, editWrites echo = [] ∧ ∀ keys, editLine (c :: keys) line =
      (editLine keys (if c = 8#8 then line.dropLast else line ++ [c])).map fun r =>
        (r.1, r.2.1, echo ++ r.2.2) := by
  by_cases h8 : c = 8#8
  · refine ⟨if line = [] then [] else [.rubOut], ?_, fun keys => ?_⟩
    · split_ifs <;> rfl
    · rw [editLine, if_pos hline, if_neg hc, if_pos h8, if_pos h8]
  · refine ⟨if 32 ≤ c.toInt ∧ c.toInt ≤ 126 then [.putc c] else [], ?_, fun keys => ?_⟩
    · split_ifs <;> rfl
    · rw [editLine, if_pos hline, if_neg hc, if_neg h8, if_neg h8]

/-- A line with 255 characters is at its end. -/
lemma editLine_of_full (hline : line.length = 255) (keys : List Byte) :
    editLine keys line = some (line, keys, []) := by
  have hend : ¬line.length < 255 := by omega
  cases keys with
  | nil => rw [editLine, if_neg hend]
  | cons c keys => rw [editLine, if_neg hend]

/-- Nothing is written while a line is read. -/
lemma editWrites_editLine {keys line : List Byte} {r : List Byte × List Byte × List EditEvent}
    (h : editLine keys line = some r) : editWrites r.2.2 = [] := by
  induction keys generalizing line r with
  | nil =>
      rw [editLine] at h
      split_ifs at h
      obtain rfl := Option.some.inj h
      rfl
  | cons c keys ih =>
      by_cases hline : line.length < 255
      · by_cases hc : c = 10#8
        · rw [editLine, if_pos hline, if_pos hc] at h
          obtain rfl := Option.some.inj h
          rfl
        · obtain ⟨echo, hecho, hstep⟩ := editLine_cons hline hc
          rw [hstep] at h
          obtain ⟨r', hr', rfl⟩ := Option.map_eq_some_iff.mp h
          rw [editWrites_append, hecho, ih hr', List.append_nil]
      · rw [editLine, if_neg hline] at h
        obtain rfl := Option.some.inj h
        rfl

/-- Nothing is written while lines are read. -/
lemma editWrites_editLoop {r : EditEnd × List Byte × List EditEvent}
    (h : editLoop turns content keys = some r) : editWrites r.2.2 = [] := by
  induction turns generalizing content keys r with
  | zero => simp [editLoop] at h
  | succ turns ih =>
      rw [editLoop] at h
      obtain ⟨⟨line, rest, echo⟩, hread, h⟩ := Option.bind_eq_some_iff.mp h
      have hout : editWrites (.printf editPrompt [] :: echo) = [] := editWrites_editLine hread
      dsimp only at h
      split_ifs at h
      · obtain rfl := Option.some.inj h
        exact hout
      · obtain rfl := Option.some.inj h
        exact hout
      · obtain ⟨r', hr', rfl⟩ := Option.map_eq_some_iff.mp h
        rw [editWrites_append, hout, ih hr', List.append_nil]
      · obtain rfl := Option.some.inj h
        exact hout

/-- **A line is read** up to Enter, or it is cut where it gets to 255 characters. -/
theorem editLine_cases {l : List Byte} (hl : 10#8 ∉ l) (hline : line.length ≤ 255)
    (rest : List Byte) :
    (∃ echo, (∀ p, p <+: l → (keyedFrom line p).length < 255) ∧
      editLine (l ++ 10#8 :: rest) line = some (keyedFrom line l, rest, echo)) ∨
    ∃ p q echo, l = p ++ q ∧ (keyedFrom line p).length = 255 ∧
      editLine (l ++ 10#8 :: rest) line = some (keyedFrom line p, q ++ 10#8 :: rest, echo) := by
  induction l generalizing line with
  | nil =>
      rcases Nat.lt_or_eq_of_le hline with hlt | hfull
      · refine Or.inl ⟨[.putc 10#8], fun p hp => ?_, ?_⟩
        · rw [List.prefix_nil.mp hp]
          exact hlt
        · rw [List.nil_append, editLine, if_pos hlt, if_pos rfl]
          rfl
      · exact Or.inr ⟨[], [], [], rfl, hfull, editLine_of_full hfull _⟩
  | cons c l ih =>
      rcases Nat.lt_or_eq_of_le hline with hlt | hfull
      · obtain ⟨hc, hl⟩ := not_or.mp (mt List.mem_cons.mpr hl)
        obtain ⟨echo, -, hstep⟩ := editLine_cons hlt (Ne.symm hc)
        have hle : (if c = 8#8 then line.dropLast else line ++ [c]).length ≤ 255 := by
          split_ifs
          · rw [List.length_dropLast]
            omega
          · rw [List.length_append, List.length_singleton]
            exact hlt
        rcases ih hl hle with ⟨tail, hshort, heq⟩ | ⟨p, q, tail, rfl, hlen, heq⟩
        · refine Or.inl ⟨echo ++ tail, fun p hp => ?_, ?_⟩
          · rcases List.prefix_cons_iff.mp hp with rfl | ⟨p, rfl, htail⟩
            · exact hlt
            · exact hshort p htail
          · rw [List.cons_append, hstep, heq]
            rfl
        · refine Or.inr ⟨c :: p, q, echo ++ tail, rfl, hlen, ?_⟩
          rw [List.cons_append, hstep, heq]
          rfl
      · exact Or.inr ⟨[], c :: l, [], rfl, hfull, editLine_of_full hfull _⟩

/-- The same for a line with no character in it yet. -/
lemma editLine_start {l : List Byte} (hl : 10#8 ∉ l) (rest : List Byte) :
    (∃ echo, (∀ p, p <+: l → (keyed p).length < 255) ∧
      editLine (l ++ 10#8 :: rest) [] = some (keyed l, rest, echo)) ∨
    ∃ p q echo, l = p ++ q ∧ (keyed p).length = 255 ∧
      editLine (l ++ 10#8 :: rest) [] = some (keyed p, q ++ 10#8 :: rest, echo) :=
  editLine_cases hl (by simp) rest

/-- A line that does not get to 255 characters is read up to Enter. -/
lemma editLine_of_short {l : List Byte} (hl : 10#8 ∉ l)
    (hshort : ∀ p, p <+: l → (keyed p).length < 255) (rest : List Byte) :
    ∃ echo, editLine (l ++ 10#8 :: rest) [] = some (keyed l, rest, echo) := by
  rcases editLine_start hl rest with ⟨echo, -, hread⟩ | ⟨p, q, -, rfl, hlen, -⟩
  · exact ⟨echo, hread⟩
  · exact absurd hlen (Nat.ne_of_lt (hshort p (List.prefix_append p q)))

lemma chars_lineText (hnul : 0#8 ∉ line) : (lineText line).chars = line :=
  List.takeWhile_eq_self_iff.mpr fun _ hc => decide_eq_true fun h => hnul (h ▸ hc)

lemma shellStrcmp_lineText (hnul : 0#8 ∉ line) (s : CString) :
    shellStrcmp (lineText line).byte s = 0 ↔ line = s.chars := by
  refine strcmp_eq_zero_iff hnul s.noNul fun k _ => ?_
  rw [CString.byte, chars_lineText hnul]

/-- **A turn of the loop**, once the line is read. -/
theorem editLoop_of_editLine {echo : List EditEvent} (hnul : 0#8 ∉ line)
    (hread : editLine keys [] = some (line, rest, echo)) :
    editLoop (turns + 1) content keys =
      if line = editSave.chars then some (.save content, rest, .printf editPrompt [] :: echo)
      else if line = editQuit.chars then some (.quit, rest, .printf editPrompt [] :: echo)
      else if content.length + line.length + 2 < MAX_FILE_SIZE then
        (editLoop turns (content ++ line ++ [10#8]) rest).map fun r =>
          (r.1, r.2.1, .printf editPrompt [] :: echo ++ r.2.2)
      else some (.full, rest, .printf editPrompt [] :: echo) := by
  rw [editLoop, hread]
  simp only [Option.bind_eq_bind, Option.bind_some, shellStrcmp_lineText hnul, chars_lineText hnul]

/-! ### A session -/

variable {body : List (List Byte)} {last old left : List Byte} {echo out : List EditEvent}

/-- If every line is kept, the loop ends with what was typed. -/
theorem editLoop_of_kept (hkeys : ∀ l ∈ body ++ [last], 0#8 ∉ l ∧ 10#8 ∉ l)
    (hkept : ∀ l ∈ body ++ [last], LineKept l) (hlast : typedLine last = editSave.chars)
    (htext : ∀ l ∈ body, typedLine l ≠ editSave.chars ∧ typedLine l ≠ editQuit.chars)
    (hlimit : body ≠ [] → (content ++ entered (body.map typedLine)).length + 1 < MAX_FILE_SIZE)
    (hturns : body.length < turns) :
    ∃ out, editLoop turns content (entered (body ++ [last])) =
      some (.save (content ++ entered (body.map typedLine)), [], out) := by
  induction body generalizing content turns with
  | nil =>
      obtain ⟨turns, rfl⟩ := Nat.exists_eq_succ_of_ne_zero (Nat.ne_of_gt hturns)
      obtain ⟨hnul, hnl⟩ := hkeys last (by simp)
      obtain ⟨heq, hshort⟩ := hkept last (by simp)
      obtain ⟨echo, hread⟩ := editLine_of_short hnl hshort (entered [])
      refine ⟨.printf editPrompt [] :: echo, ?_⟩
      rw [List.nil_append, entered_cons, Nat.succ_eq_add_one,
        editLoop_of_editLine (notMem_keyed hnul) hread, if_pos (heq.trans hlast), List.map_nil,
        entered, List.flatMap_nil, List.append_nil]
  | cons b body ih =>
      obtain ⟨turns, rfl⟩ := Nat.exists_eq_succ_of_ne_zero (Nat.ne_of_gt (Nat.zero_lt_of_lt hturns))
      obtain ⟨⟨hnul, hnl⟩, hkeys⟩ := List.forall_mem_cons.mp hkeys
      obtain ⟨⟨heq, hshort⟩, hkept⟩ := List.forall_mem_cons.mp hkept
      obtain ⟨⟨hsave, hquit⟩, htext⟩ := List.forall_mem_cons.mp htext
      have hlimit := hlimit (List.cons_ne_nil b body)
      have hsplit : content ++ entered ((b :: body).map typedLine) =
          content ++ typedLine b ++ [10#8] ++ entered (body.map typedLine) := by
        rw [List.map_cons, entered_cons]
        simp
      rw [hsplit] at hlimit ⊢
      have hroom : content.length + (typedLine b).length + 2 < MAX_FILE_SIZE := by
        simp only [List.length_append, List.length_singleton] at hlimit
        omega
      obtain ⟨out, hrest⟩ := ih hkeys hkept htext (fun _ => hlimit) (Nat.lt_of_succ_lt_succ hturns)
      obtain ⟨echo, hread⟩ := editLine_of_short hnl hshort (entered (body ++ [last]))
      refine ⟨.printf editPrompt [] :: echo ++ out, ?_⟩
      rw [heq] at hread
      rw [List.cons_append, entered_cons, Nat.succ_eq_add_one,
        editLoop_of_editLine (notMem_typedLine hnul) hread, if_neg hsave, if_neg hquit,
        if_pos hroom, hrest]
      rfl

/-- A turn of a loop that saves in the end. -/
lemma editLoop_save_turn (hnul : 0#8 ∉ line)
    (hread : editLine keys [] = some (line, rest, echo))
    (hsave : editLoop turns content keys = some (.save d, left, out)) :
    (line = editSave.chars ∧ d = content ∧ left = rest) ∨
      ∃ turns' out', turns = turns' + 1 ∧ line ≠ editSave.chars ∧
        content.length + line.length + 2 < MAX_FILE_SIZE ∧
        editLoop turns' (content ++ line ++ [10#8]) rest = some (.save d, left, out') := by
  cases turns with
  | zero => simp [editLoop] at hsave
  | succ turns =>
      rw [editLoop_of_editLine hnul hread] at hsave
      split_ifs at hsave with hline hquit hroom
      · simp only [Option.some.injEq, Prod.mk.injEq, EditEnd.save.injEq] at hsave
        exact Or.inl ⟨hline, hsave.1.symm, hsave.2.1.symm⟩
      · simp at hsave
      · obtain ⟨⟨e, left', out'⟩, hrest, heq⟩ := Option.map_eq_some_iff.mp hsave
        simp only [Prod.mk.injEq] at heq
        obtain ⟨rfl, rfl, -⟩ := heq
        exact Or.inr ⟨turns, out', rfl, hline, hroom, hrest⟩
      · simp at hsave

lemma editLoop_nil (turns : ℕ) (content : List Byte) : editLoop turns content [] = none := by
  cases turns <;> rfl

/-- What is saved is the content there was, or there was room for more. -/
lemma eq_or_lt_of_editLoop {l : List Byte} (hnul : 0#8 ∉ l) (hnl : 10#8 ∉ l)
    (hsave : editLoop turns content (l ++ 10#8 :: rest) = some (.save d, left, out)) :
    d = content ∨ content.length + 2 < MAX_FILE_SIZE := by
  obtain ⟨line, rest', echo, hline, hread⟩ : ∃ line rest' echo, 0#8 ∉ line ∧
      editLine (l ++ 10#8 :: rest) [] = some (line, rest', echo) := by
    rcases editLine_start hnl rest with ⟨echo, -, hread⟩ | ⟨p, q, echo, rfl, -, hread⟩
    · exact ⟨_, _, echo, notMem_keyed hnul, hread⟩
    · exact ⟨_, _, echo, notMem_keyed fun h => hnul (List.mem_append_left q h), hread⟩
  rcases editLoop_save_turn hline hread hsave with ⟨-, hd, -⟩ | ⟨-, -, -, -, hroom, -⟩
  · exact Or.inl hd
  · exact Or.inr (by omega)

/-- What the loop saves is below the limit. -/
lemma length_lt_of_editLoop_save (hcontent : content.length < MAX_FILE_SIZE)
    (hsave : editLoop turns content keys = some (.save d, left, out)) :
    d.length < MAX_FILE_SIZE := by
  induction turns generalizing content keys out with
  | zero => simp [editLoop] at hsave
  | succ turns ih =>
      rw [editLoop] at hsave
      obtain ⟨⟨line, rest, echo⟩, -, hsave⟩ := Option.bind_eq_some_iff.mp hsave
      dsimp only at hsave
      split_ifs at hsave with hend hquit hroom
      · simp only [Option.some.injEq, Prod.mk.injEq, EditEnd.save.injEq] at hsave
        exact hsave.1 ▸ hcontent
      · simp at hsave
      · obtain ⟨⟨e, rest', out'⟩, hrest, heq⟩ := Option.map_eq_some_iff.mp hsave
        simp only [Prod.mk.injEq] at heq
        obtain ⟨rfl, rfl, -⟩ := heq
        refine ih ?_ hrest
        rw [List.length_append, List.length_append, List.length_singleton]
        omega
      · simp at hsave

/-- Every line that is kept adds one to the lines. -/
lemma count_grown (content : List Byte) (hline : 10#8 ∉ line) :
    (content ++ line ++ [10#8]).count 10#8 = content.count 10#8 + 1 := by
  rw [List.count_append, List.count_append, List.count_eq_zero.mpr hline,
    List.count_singleton_self, Nat.add_zero]

/-- **What the loop saves**: either there are more lines in it than were typed, or each line was
read up to Enter. -/
theorem editLoop_save_cases {l : List Byte} {lines : List (List Byte)}
    (hkeys : ∀ m ∈ l :: lines, 0#8 ∉ m ∧ 10#8 ∉ m)
    (hsave : editLoop turns content (entered (l :: lines)) = some (.save d, [], out)) :
    content.count 10#8 + lines.length < d.count 10#8 ∨
      (∀ m ∈ l :: lines, ∀ p, p <+: m → (keyed p).length < 255) ∧
        d = content ++ entered ((l :: lines).dropLast.map keyed) ∧
        keyed ((l :: lines).getLast (List.cons_ne_nil l lines)) = editSave.chars := by
  induction turns generalizing l lines content out with
  | zero => simp [editLoop] at hsave
  | succ turns ih =>
      obtain ⟨⟨hnul, hnl⟩, hlines⟩ := List.forall_mem_cons.mp hkeys
      rw [entered_cons] at hsave
      rcases editLine_start hnl (entered lines) with
        ⟨echo, hshort, hread⟩ | ⟨p, q, echo, rfl, hlen, hread⟩
      · have hcount := count_grown content (notMem_keyed hnl)
        rcases editLoop_save_turn (notMem_keyed hnul) hread hsave with
          ⟨hend, rfl, hnil⟩ | ⟨turns', out', hturns, -, -, hrest⟩
        · obtain rfl : lines = [] := by
            cases lines with
            | nil => rfl
            | cons m lines => simp [entered_cons] at hnil
          exact Or.inr ⟨by simpa using hshort, by simp [entered], hend⟩
        · obtain rfl := Nat.succ.inj hturns
          cases lines with
          | nil => simp [entered, editLoop_nil] at hrest
          | cons m lines =>
              rcases ih hlines hrest with hmore | ⟨hall, rfl, hlast⟩
              · rw [hcount] at hmore
                rw [List.length_cons]
                exact Or.inl (by omega)
              · refine Or.inr ⟨List.forall_mem_cons.mpr ⟨hshort, hall⟩, ?_, hlast⟩
                rw [List.dropLast_cons_cons, List.map_cons, entered_cons]
                simp
      · obtain ⟨hp, hq⟩ := not_or.mp (mt List.mem_append.mpr hnul)
        obtain ⟨hp', hq'⟩ := not_or.mp (mt List.mem_append.mpr hnl)
        have hcut : ∀ m ∈ q :: lines, 0#8 ∉ m ∧ 10#8 ∉ m :=
          List.forall_mem_cons.mpr ⟨⟨hq, hq'⟩, hlines⟩
        have hcount := count_grown content (notMem_keyed hp')
        left
        rcases editLoop_save_turn (notMem_keyed hp) hread hsave with
          ⟨hend, -, -⟩ | ⟨turns', out', hturns, -, -, hrest⟩
        · rw [hend] at hlen
          exact absurd hlen (by decide)
        · obtain rfl := Nat.succ.inj hturns
          rw [← entered_cons] at hrest
          rcases ih hcut hrest with hmore | ⟨-, rfl, -⟩
          · omega
          · have hbody : ∀ m ∈ (q :: lines).dropLast.map keyed, 10#8 ∉ m := by
              intro m hm
              obtain ⟨k, hk, rfl⟩ := List.mem_map.mp hm
              exact notMem_keyed (hcut k (List.mem_of_mem_dropLast hk)).2
            rw [List.count_append, hcount, count_entered hbody, List.length_map,
              List.length_dropLast, List.length_cons]
            omega

/-- What is saved behind the whole of the old content was behind the whole of it in the loop. -/
lemma length_lt_of_editLoop {l : List Byte} (hnul : 0#8 ∉ l) (hnl : 10#8 ∉ l)
    (hsave : editLoop turns (old.take 4095) (l ++ 10#8 :: rest) =
      some (.save (old ++ d), left, out)) : old.length < MAX_FILE_SIZE := by
  rcases eq_or_lt_of_editLoop hnul hnl hsave with hall | hroom
  · have hle := congrArg List.length hall
    rw [List.length_append, List.length_take] at hle
    simp only [MAX_FILE_SIZE]
    omega
  · rw [List.length_take] at hroom
    simp only [MAX_FILE_SIZE] at hroom ⊢
    omega

/-- **The loop over the lines of a session** ends with what was typed exactly if the content it
begins with is the old one and every line is kept. -/
theorem editLoop_save_iff (hsession : EditSession old body last) (hturns : body.length < turns) :
    (∃ out, editLoop turns (old.take 4095) (entered (body ++ [last])) =
      some (.save (old ++ entered (body.map typedLine)), [], out)) ↔
        old.length < MAX_FILE_SIZE ∧ ∀ l ∈ body ++ [last], LineKept l := by
  have hkeys : ∀ l ∈ body ++ [last], 0#8 ∉ l ∧ 10#8 ∉ l := fun l hl =>
    ⟨fun h => (hsession.key l hl _ h).1 rfl, fun h => (hsession.key l hl _ h).2 rfl⟩
  constructor
  · rintro ⟨out, hsave⟩
    obtain ⟨l, lines, hlines⟩ : ∃ l lines, body ++ [last] = l :: lines :=
      List.exists_cons_of_ne_nil (by simp)
    have hbody : (l :: lines).dropLast = body := by rw [← hlines, List.dropLast_concat]
    have hlast : (l :: lines).getLast (List.cons_ne_nil l lines) = last := by
      simp only [← hlines, List.getLast_append_singleton]
    have hcount : lines.length = body.length := by
      have hlen := congrArg List.length hlines
      rw [List.length_append, List.length_singleton, List.length_cons] at hlen
      exact (Nat.succ.inj hlen).symm
    have hclean : ∀ m ∈ body.map typedLine, 10#8 ∉ m := List.forall_mem_map.mpr fun k hk =>
      notMem_typedLine (hkeys k (List.mem_append_left _ hk)).2
    have hkeys' : ∀ m ∈ l :: lines, 0#8 ∉ m ∧ 10#8 ∉ m := hlines ▸ hkeys
    rw [hlines] at hsave ⊢
    have hlen : old.length < MAX_FILE_SIZE := by
      obtain ⟨hnul, hnl⟩ := hkeys' l List.mem_cons_self
      rw [entered_cons] at hsave
      exact length_lt_of_editLoop hnul hnl hsave
    rw [List.take_of_length_le (Nat.le_of_lt_succ hlen)] at hsave
    rcases editLoop_save_cases hkeys' hsave with hmore | ⟨hshort, hsaved, hend⟩
    · rw [List.count_append, count_entered hclean, List.length_map, hcount] at hmore
      exact absurd hmore (lt_irrefl _)
    · rw [hbody] at hsaved
      have hmap : body.map typedLine = body.map keyed := by
        have hclean' : ∀ m ∈ body.map keyed, 10#8 ∉ m := List.forall_mem_map.mpr fun k hk =>
          notMem_keyed (hkeys k (List.mem_append_left _ hk)).2
        rw [← linesOf_entered hclean, ← linesOf_entered hclean', List.append_cancel_left hsaved]
      refine ⟨hlen, fun m hm => ⟨?_, hshort m hm⟩⟩
      rw [← hlines] at hm
      rcases List.mem_append.mp hm with hmem | hmem
      · exact (List.map_inj_left.mp hmap m hmem).symm
      · rw [List.mem_singleton.mp hmem, hsession.save, ← hend, hlast]
  · rintro ⟨hlen, hkept⟩
    rw [List.take_of_length_le (Nat.le_of_lt_succ hlen)]
    exact editLoop_of_kept hkeys hkept hsession.save hsession.text hsession.limit hturns

/-! ### The command on a session -/

variable {σ : Type} {S : SysCalls σ} {s : Shell σ} {cmd filename : CString} {args : List CString}

/-- What is in the file at the beginning, which is nothing if there is none. -/
def OldContent (s : Shell σ) (filename : CString) (old : List Byte) : Prop :=
  HoldsContent s filename old ∨
    ramfsFindFile filename s.ramfs.currentDir s.ramfs = none ∧ old = []

/-- **The editor saves** the content at the end of the keys, and nothing else. -/
def EditSaves (S : SysCalls σ) (argv : List CString) (keys : List Byte) (s : Shell σ)
    (filename : CString) (content : List Byte) : Prop :=
  ∃ out, cmdEdit S argv keys s =
      some (0#32, out, (ramfsWriteFile S filename (fun k => content.getD k 0#8)
        (BitVec.ofNat 32 content.length) (ramfsInit s)).2, []) ∧
    editWrites out = [(filename, content)]

lemma ramfsReadFile_of_oldContent (h : OldContent s filename old) :
    ∃ n, ramfsReadFile filename 4095#32 s = (n, old.take 4095) ∧
      (if 0 < n.toInt then old.take 4095 else []) = old.take 4095 := by
  rcases h with hfile | ⟨hnone, rfl⟩
  · refine ⟨_, ramfsReadFile_of_holdsContent hfile, ?_⟩
    have hle : (old.take 4095).length ≤ 4095 := List.length_take_le 4095 old
    split_ifs with hpos
    · rfl
    · have hzero : (old.take 4095).length = 0 := by
        rw [toInt_ofNat (by omega)] at hpos
        omega
      exact (List.length_eq_zero_iff.mp hzero).symm
  · refine ⟨-1#32, ?_, rfl⟩
    rw [ramfsReadFile, hnone]
    rfl

/-- The editor saves a content exactly if the loop ends with it. -/
lemma editSaves_iff (hold : OldContent (ramfsInit s) filename old) :
    EditSaves S (cmd :: filename :: args) keys s filename content ↔
      ∃ out, editLoop (keys.length + 1) (old.take 4095) keys = some (.save content, [], out) := by
  obtain ⟨n, hread, hcontent⟩ := ramfsReadFile_of_oldContent hold
  simp only [EditSaves, cmdEdit, hread, hcontent, Option.bind_eq_bind]
  cases hloop : editLoop (keys.length + 1) (old.take 4095) keys with
  | none => simp
  | some r =>
      obtain ⟨e, left, out⟩ := r
      have hquiet : editWrites out = [] := editWrites_editLoop hloop
      cases e with
      | save d =>
          have hreport : ∀ (c : Prop) [Decidable c] (f g : CString) (a b : VaList),
              editWrites [.write filename d, if c then .printf f a else .printf g b] =
                [(filename, d)] := fun c _ f g a b => by split_ifs <;> rfl
          simp only [Option.bind_some, editWrites_append, editWrites_printf, editWrites_nil,
            apply_ite editWrites, ite_self, hquiet, hreport, List.nil_append, Option.some.injEq,
            Prod.mk.injEq, true_and, existsAndEq, List.cons.injEq, and_true, EditEnd.save.injEq,
            exists_and_left, List.append_assoc, List.cons_append]
          constructor
          · rintro ⟨⟨-, hleft⟩, rfl⟩
            exact ⟨rfl, hleft⟩
          · rintro ⟨rfl, hleft⟩
            exact ⟨⟨rfl, hleft⟩, rfl⟩
      | quit => simp [hquiet, apply_ite editWrites]
      | full => simp [hquiet, apply_ite editWrites]

/-- **`cmd_edit`** saves what is in the file followed by the lines typed exactly if the file is
below the limit and every line is kept. -/
theorem cmdEdit_saves_iff (S : SysCalls σ) (s : Shell σ) (cmd filename : CString)
    (args : List CString) (old : List Byte) (body : List (List Byte)) (last : List Byte)
    (hold : OldContent (ramfsInit s) filename old) (hsession : EditSession old body last) :
    EditSaves S (cmd :: filename :: args) (entered (body ++ [last])) s filename
        (old ++ entered (body.map typedLine)) ↔
      old.length < MAX_FILE_SIZE ∧ ∀ l ∈ body ++ [last], LineKept l := by
  rw [editSaves_iff hold]
  refine editLoop_save_iff hsession ?_
  have hle := length_le_length_entered (body ++ [last])
  rw [List.length_append] at hle
  omega

/-- A heap that is used up. -/
def fullHeap : SysCalls Unit := ⟨fun _ h m => (NULL, h, m), fun _ h m => (h, m)⟩

lemma oldContent_sampleGrepShell : OldContent (ramfsInit sampleGrepShell) ⟨[102#8], by decide⟩
    [97#8, 98#8, 10#8, 98#8] :=
  Or.inl ⟨1, by decide +kernel, by decide, by decide, by decide +kernel⟩

/-- An `h` is typed behind what is in the file, erased, and an `i` typed in its place. -/
theorem cmdEdit_saves_iff_sample :
    OldContent (ramfsInit sampleGrepShell) ⟨[102#8], by decide⟩ [97#8, 98#8, 10#8, 98#8] ∧
      EditSession [97#8, 98#8, 10#8, 98#8] [[104#8, 8#8, 105#8]] (ascii "SAVE") ∧
      EditSaves fullHeap [editSave, ⟨[102#8], by decide⟩]
        (entered ([[104#8, 8#8, 105#8]] ++ [ascii "SAVE"])) sampleGrepShell ⟨[102#8], by decide⟩
        ([97#8, 98#8, 10#8, 98#8] ++ entered ([[104#8, 8#8, 105#8]].map typedLine)) := by
  have hsession : EditSession [97#8, 98#8, 10#8, 98#8] [[104#8, 8#8, 105#8]] (ascii "SAVE") :=
    ⟨by decide +kernel, by decide +kernel, by decide +kernel, fun _ => by decide +kernel⟩
  refine ⟨oldContent_sampleGrepShell, hsession, (cmdEdit_saves_iff fullHeap sampleGrepShell
    editSave ⟨[102#8], by decide⟩ [] [97#8, 98#8, 10#8, 98#8] [[104#8, 8#8, 105#8]] (ascii "SAVE")
    oldContent_sampleGrepShell hsession).mpr ⟨by decide, fun l hl => ?_⟩⟩
  have harrow : ∀ l ∈ [[104#8, 8#8, 105#8]] ++ [ascii "SAVE"],
      (∀ c ∈ l, ¬IsArrow c) ∧ l.length < 255 := by decide +kernel
  exact lineKept_of_length_lt (harrow l hl).1 (harrow l hl).2

/-- An `a` is typed, then the left arrow key: its code is saved behind the `a`. -/
theorem arrow_saved :
    OldContent (ramfsInit sampleGrepShell) ⟨[102#8], by decide⟩ [97#8, 98#8, 10#8, 98#8] ∧
      EditSession [97#8, 98#8, 10#8, 98#8] [[97#8, 3#8]] (ascii "SAVE") ∧
      ¬EditSaves fullHeap [editSave, ⟨[102#8], by decide⟩]
        (entered ([[97#8, 3#8]] ++ [ascii "SAVE"])) sampleGrepShell ⟨[102#8], by decide⟩
        ([97#8, 98#8, 10#8, 98#8] ++ entered ([[97#8, 3#8]].map typedLine)) := by
  refine ⟨oldContent_sampleGrepShell, ⟨by decide +kernel, by decide +kernel, by decide +kernel,
    fun _ => by decide +kernel⟩, fun hsaves => ?_⟩
  obtain ⟨out, hsave⟩ := (editSaves_iff oldContent_sampleGrepShell).mp hsaves
  have hloop : (editLoop ((entered ([[97#8, 3#8]] ++ [ascii "SAVE"])).length + 1)
      ([97#8, 98#8, 10#8, 98#8].take 4095) (entered ([[97#8, 3#8]] ++ [ascii "SAVE"]))).map
        (fun r => r.1) = some (.save [97#8, 98#8, 10#8, 98#8, 97#8, 3#8, 10#8]) := by
    decide +kernel
  rw [hsave] at hloop
  simp only [Option.map_some, Option.some.injEq] at hloop
  exact absurd hloop (by decide +kernel)

end MiqOSoft
