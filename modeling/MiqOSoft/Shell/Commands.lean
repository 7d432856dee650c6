import MiqOSoft.Shell.FilesSimulation
import MiqOSoft.Shell.Grep

/-!
The commands of `shell_commands.c` that work on the RAM file system: `cmd_mkdir`, `cmd_rm`,
`cmd_cat`, `cmd_wc`, `cmd_touch`, and `cmd_cd` with an argument.

* `cmdMkdir`, `cmdRm`, …: what a command returns and prints, and the state it leaves.  A command
  calls the file system once at most, and reports what the call returns.
* `wordCount_spec`: the loop of `cmd_wc` counts the lines and the words of a text.
* `Files.Command`: what a command does to a tree of files, and what is seen of it.
-/

namespace MiqOSoft

open Machine Editing

/-! ### Texts -/

/-- A text with a name in it. -/
def named (before : String) (name : CString) (after : String) : List Byte :=
  ascii before ++ name.chars ++ ascii after

/-- A text with a name and a number in it. -/
def numbered (before : String) (name : CString) (between : String) (code : Word) (after : String) :
    List Byte :=
  ascii before ++ name.chars ++ ascii between ++ signedText 10 code.toInt ++ ascii after

/-- A decimal number of any sign. -/
lemma renderAll_signed (code : Word) (ss : List Segment) (args : VaList) :
    renderAll (.conversion .default (ch 'd') :: ss) (.word code :: args) =
      (renderAll ss args).map fun r => (signedText 10 code.toInt ++ r.1, r.2) := by
  have hd : conversion? (ch 'd') = some (.signed 10) := by decide
  rw [renderAll, render_of_some hd]
  simp only [Conversion.render, FormatLength.signedArg, vaWord, reduceCtorEq, if_false,
    Option.map_some, Option.bind_eq_bind, Option.bind_some]
  cases renderAll ss args <;> rfl

lemma printed_plain {fmt : CString} {text : String}
    (h : segments fmt.chars = (ascii text).map .literal ++ []) :
    printed fmt [] = some (ascii text) := by
  rw [printed, vfprintf_render, h, renderAll_literals, renderAll]
  simp only [Option.map_some, List.append_nil]

lemma printed_named {fmt : CString} {before after : String}
    (h : segments fmt.chars = (ascii before).map .literal ++ .conversion .default (ch 's') ::
      ((ascii after).map .literal ++ [])) (name : CString) :
    printed fmt [.text name] = some (named before name after) := by
  rw [printed, vfprintf_render, h, renderAll_literals, renderAll_string, renderAll_literals,
    renderAll]
  simp only [Option.map_some, List.append_nil, named, List.append_assoc]

lemma printed_numbered {fmt : CString} {before between after : String}
    (h : segments fmt.chars = (ascii before).map .literal ++ .conversion .default (ch 's') ::
      ((ascii between).map .literal ++ .conversion .default (ch 'd') ::
        ((ascii after).map .literal ++ []))) (name : CString) (code : Word) :
    printed fmt [.text name, .word code] = some (numbered before name between code after) := by
  rw [printed, vfprintf_render, h, renderAll_literals, renderAll_string, renderAll_literals,
    renderAll_signed, renderAll_literals, renderAll]
  simp only [Option.map_some, List.append_nil, numbered, List.append_assoc]

/-! ### The commands -/

section Commands

variable {σ : Type}

/-- What is seen of a command: its result, and what it prints. -/
abbrev Shown := Word × List Byte

/-- A command that needs a name, and shows its usage if there is none. -/
def withName (usage : CString) (body : CString → Shell σ → Option (Shown × Shell σ))
    (argv : List CString) (s : Shell σ) : Option (Shown × Shell σ) :=
  match argv with
  | _ :: name :: _ => body name (ramfsInit s)
  | _ => (printed usage []).map fun text => ((1#32, text), s)

/-- `printf`, and the result with which the command returns then. -/
def shown (result : Word) (fmt : CString) (args : VaList) : Option Shown :=
  (printed fmt args).map fun text => (result, text)

def mkdirUsage : CString := ⟨ascii "Usage: mkdir <directory_name>\n", by decide⟩
def mkdirExists : CString := ⟨ascii "mkdir: Directory '%s' already exists\n", by decide⟩
def mkdirNoSlots : CString := ⟨ascii "mkdir: No free slots available\n", by decide⟩
def mkdirNoMemory : CString := ⟨ascii "mkdir: Out of memory\n", by decide⟩
def mkdirCreated : CString := ⟨ascii "Directory '%s' created successfully\n", by decide⟩
def mkdirUnknown : CString := ⟨ascii "mkdir: Unknown error (%d)\n", by decide⟩

/-- The switch of `cmd_mkdir` over the result of `ramfs_create`. -/
def mkdirReport (name : CString) (result : Word) : Option Shown :=
  if result = -1#32 then shown 1#32 mkdirExists [.text name]
  else if result = -2#32 then shown 1#32 mkdirNoSlots []
  else if result = -3#32 then shown 1#32 mkdirNoMemory []
  else if 0 ≤ result.toInt then shown 0#32 mkdirCreated [.text name]
  else shown 1#32 mkdirUnknown [.word result]

/-- `cmd_mkdir`. -/
def cmdMkdir (S : SysCalls σ) : List CString → Shell σ → Option (Shown × Shell σ) :=
  withName mkdirUsage fun name s =>
    let r := ramfsCreate S name 1#32 s
    (mkdirReport name (createCode r.1)).map fun out => (out, r.2)

def rmUsage : CString := ⟨ascii "Usage: rm <filename>\n", by decide⟩
def rmDeleted : CString := ⟨ascii "'%s' deleted successfully\n", by decide⟩
def rmNotFound : CString := ⟨ascii "rm: '%s' not found\n", by decide⟩
def rmNotEmpty : CString := ⟨ascii "rm: Directory '%s' is not empty\n", by decide⟩
def rmUnknown : CString := ⟨ascii "rm: Unknown error (%d)\n", by decide⟩

/-- The switch of `cmd_rm` over the result of `ramfs_delete`. -/
def rmReport (name : CString) (result : Word) : Option Shown :=
  if result = 0#32 then shown 0#32 rmDeleted [.text name]
  else if result = -1#32 then shown 1#32 rmNotFound [.text name]
  else if result = -2#32 then shown 1#32 rmNotEmpty [.text name]
  else shown 1#32 rmUnknown [.word result]

/-- `cmd_rm`. -/
def cmdRm (S : SysCalls σ) : List CString → Shell σ → Option (Shown × Shell σ) :=
  withName rmUsage fun name s =>
    let r := ramfsDelete S name s
    (rmReport name r.1).map fun out => (out, r.2)

lemma zero_notMem_catText : 0#8 ∉ ascii "%s" := by decide

def catText : CString := ⟨ascii "%s", zero_notMem_catText⟩
def catUsage : CString := ⟨ascii "Usage: cat <filename>\n", by decide⟩
def catCannotRead : CString := ⟨ascii "cat: Cannot read '%s' (error %d)\n", by decide⟩

/-- The string in `buffer` once a NUL is set behind the bytes that were read. -/
def bufferString (bytes : List Byte) : CString := ⟨textOf bytes, zero_notMem_textOf bytes⟩

/-- The rest of `cmd_cat`, behind `ramfs_read_file`. -/
def catReport (name : CString) (bytesRead : Word) (bytes : List Byte) : Option Shown :=
  if bytesRead.toInt < 0 then shown 1#32 catCannotRead [.text name, .word bytesRead]
  else shown 0#32 catText [.text (bufferString bytes)]

/-- `cmd_cat`. -/
def cmdCat : List CString → Shell σ → Option (Shown × Shell σ) :=
  withName catUsage fun name s =>
    let r := ramfsReadFile name 4095#32 s
    (catReport name r.1 r.2).map fun out => (out, s)

def wcUsage : CString := ⟨ascii "Usage: wc <filename>\n", by decide⟩
def wcCannotRead : CString := ⟨ascii "wc: Cannot read '%s'\n", by decide⟩
def wcLine : CString :=
  ⟨ascii "  %d lines, %d words, %d characters, Filename: %s\n", by decide⟩

/-- `lines`, `words` and `in_word`. -/
structure WordCount where
  lines : ℕ
  words : ℕ
  inWord : Bool

/-- The characters that end a word. -/
def isSpace (c : Byte) : Bool := c == 32#8 || c == 9#8 || c == 10#8

/-- A turn of the loop of `cmd_wc`. -/
def WordCount.turn (s : WordCount) (c : Byte) : WordCount :=
  let s := if c = 10#8 then { s with lines := s.lines + 1 } else s
  if isSpace c then
    if s.inWord then { s with words := s.words + 1, inWord := false } else s
  else { s with inWord := true }

/-- The counts of `cmd_wc`; the last word may reach the end of the text. -/
def wordCount (bytes : List Byte) : ℕ × ℕ :=
  let s := bytes.foldl WordCount.turn ⟨0, 0, false⟩
  (s.lines, if s.inWord then s.words + 1 else s.words)

/-- The rest of `cmd_wc`, behind `ramfs_read_file`. -/
def wcReport (name : CString) (bytesRead : Word) (bytes : List Byte) : Option Shown :=
  if bytesRead.toInt < 0 then shown 1#32 wcCannotRead [.text name]
  else shown 0#32 wcLine [.word (BitVec.ofNat 32 (wordCount bytes).1),
    .word (BitVec.ofNat 32 (wordCount bytes).2), .word bytesRead, .text name]

/-- `cmd_wc`. -/
def cmdWc : List CString → Shell σ → Option (Shown × Shell σ) :=
  withName wcUsage fun name s =>
    let r := ramfsReadFile name 4095#32 s
    (wcReport name r.1 r.2).map fun out => (out, s)

def touchUsage : CString := ⟨ascii "Usage: touch <filename>\n", by decide⟩
def touchExists : CString := ⟨ascii "File '%s' already exists\n", by decide⟩
def touchCreated : CString := ⟨ascii "Empty file '%s' created\n", by decide⟩
def touchCannotCreate : CString := ⟨ascii "touch: Cannot create '%s' (error %d)\n", by decide⟩

lemma zero_notMem_emptyString : (0#8 : Byte) ∉ ([] : List Byte) := List.not_mem_nil

/-- The string `""`. -/
def emptyString : CString := ⟨[], zero_notMem_emptyString⟩

/-- The end of `cmd_touch`, behind `ramfs_write_file`. -/
def touchReport (name : CString) (result : Word) : Option Shown :=
  if 0 ≤ result.toInt then shown 0#32 touchCreated [.text name]
  else shown 1#32 touchCannotCreate [.text name, .word result]

/-- `cmd_touch`. -/
def cmdTouch (S : SysCalls σ) : List CString → Shell σ → Option (Shown × Shell σ) :=
  withName touchUsage fun name s =>
    match ramfsFindFile name s.ramfs.currentDir s.ramfs with
    | some _ => (shown 0#32 touchExists [.text name]).map fun out => (out, s)
    | none =>
        let r := ramfsWriteFile S name emptyString.byte 0#32 s
        (touchReport name r.1).map fun out => (out, r.2)

def cdNotFound : CString := ⟨ascii "cd: Directory '%s' not found\n", by decide⟩
def cdNotDirectory : CString := ⟨ascii "cd: '%s' is not a directory\n", by decide⟩

/-- What `cmd_cd` shows for its argument: it prints a line if it fails. -/
def cdReport (target : CString) (result : Word) (s : Shell σ) : Option Shown :=
  if result = 0#32 then some (0#32, [])
  else
    match ramfsFindFile target s.ramfs.currentDir s.ramfs with
    | none => shown 1#32 cdNotFound [.text target]
    | some _ => shown 1#32 cdNotDirectory [.text target]

/-- `cmd_cd` with an argument.  Without one it shows the path of the current directory. -/
def cmdCdTo (argv : List CString) (s : Shell σ) : Option (Shown × Shell σ) :=
  match argv with
  | _ :: target :: _ =>
      (cdReport target (cmdCd (some target) s).1 (ramfsInit s)).map fun out =>
        (out, (cmdCd (some target) s).2)
  | _ => none

/-- The commands. -/
inductive FileCommand
  | mkdir | rm | cat | wc | touch | cd
deriving DecidableEq

/-- The function of a command. -/
def FileCommand.run (S : SysCalls σ) : FileCommand → List CString → Shell σ →
    Option (Shown × Shell σ)
  | .mkdir => cmdMkdir S
  | .rm => cmdRm S
  | .cat => cmdCat
  | .wc => cmdWc
  | .touch => cmdTouch S
  | .cd => cmdCdTo

end Commands

/-! ### Counting -/

section Counting

variable {s : WordCount} {c : Byte} {l : List Byte}

lemma WordCount.lines_turn (s : WordCount) (c : Byte) :
    (s.turn c).lines = s.lines + if c = 10#8 then 1 else 0 := by
  rw [turn]
  split_ifs <;> rfl

lemma WordCount.turn_of_letter (hc : isSpace c = false) :
    (s.turn c).words = s.words ∧ (s.turn c).inWord = true := by
  simp only [turn, hc, Bool.false_eq_true, if_false, and_true]
  split_ifs <;> rfl

lemma WordCount.turn_of_space (hc : isSpace c = true) :
    (s.turn c).words = (if s.inWord then s.words + 1 else s.words) ∧
      (s.turn c).inWord = false := by
  cases hin : s.inWord <;> simp only [turn, hc, if_true] <;> split_ifs <;> simp_all

/-- The lines counted behind a text. -/
lemma lines_foldl_turn (l : List Byte) (s : WordCount) :
    (l.foldl WordCount.turn s).lines = s.lines + l.count 10#8 := by
  induction l generalizing s with
  | nil => rfl
  | cons c l ih =>
      rw [List.foldl_cons, ih, WordCount.lines_turn, List.count_cons]
      simp only [beq_iff_eq]
      omega

/-- The words counted behind a text: the one that is being read goes on to its first separator. -/
lemma words_foldl_turn (l : List Byte) (s : WordCount) :
    (if (l.foldl WordCount.turn s).inWord then (l.foldl WordCount.turn s).words + 1
      else (l.foldl WordCount.turn s).words) =
    s.words + if s.inWord then 1 + (wordsOf isSpace (l.dropWhile fun c => !isSpace c)).length
      else (wordsOf isSpace l).length := by
  induction l generalizing s with
  | nil =>
      cases hin : s.inWord <;> simp [hin]
  | cons c l ih =>
      rw [List.foldl_cons, ih]
      cases hc : isSpace c with
      | false =>
          obtain ⟨hwords, hin⟩ := WordCount.turn_of_letter (s := s) hc
          rw [hwords, hin, wordsOf_cons_of_neg hc, List.length_cons,
            List.dropWhile_cons_of_pos (by simp [hc])]
          cases s.inWord <;> simp [Nat.add_comm]
      | true =>
          obtain ⟨hwords, hin⟩ := WordCount.turn_of_space (s := s) hc
          rw [hwords, hin, wordsOf_cons_of_pos hc, List.dropWhile_cons_of_neg (by simp [hc]),
            wordsOf_cons_of_pos hc]
          cases s.inWord <;> simp [Nat.add_assoc]

/-- **`cmd_wc` counts** the ends of lines and the words of a text. -/
theorem wordCount_eq (l : List Byte) :
    wordCount l = (l.count 10#8, (wordsOf isSpace l).length) := by
  have hlines := lines_foldl_turn l ⟨0, 0, false⟩
  have hwords := words_foldl_turn l ⟨0, 0, false⟩
  rw [wordCount, hwords, hlines]
  simp

end Counting

/-! ### What is seen of the files -/

/-- What a command shows without a name. -/
def FileCommand.usage : FileCommand → List Byte
  | .mkdir => ascii "Usage: mkdir <directory_name>\n"
  | .rm => ascii "Usage: rm <filename>\n"
  | .cat => ascii "Usage: cat <filename>\n"
  | .wc => ascii "Usage: wc <filename>\n"
  | .touch => ascii "Usage: touch <filename>\n"
  | .cd => []

/-- What `wc` prints of a text. -/
def wcText (d : List Byte) (name : CString) : List Byte :=
  ascii "  " ++ digitText 10 (d.count 10#8) ++ ascii " lines, " ++
    digitText 10 (wordsOf isSpace d).length ++ ascii " words, " ++ digitText 10 d.length ++
    ascii " characters, Filename: " ++ name.chars ++ ascii "\n"

namespace Files

/-- **What a command with a name does** to the files, and what is seen of it. -/
inductive Does (f : Files) : FileCommand → CString → Shown → Files → Prop
  | created {name : CString} (h : f.lookup name = none) :
      Does f .mkdir name (0#32, named "Directory '" name "' created successfully\n")
        (f.insert name.chars .dir (node_eq_none_of_lookup h))
  | already {name : CString} {p : List (List Byte)} (h : f.lookup name = some p) :
      Does f .mkdir name (1#32, named "mkdir: Directory '" name "' already exists\n") f
  | noSlots {name : CString} (h : f.lookup name = none) :
      Does f .mkdir name (1#32, ascii "mkdir: No free slots available\n") f
  | noMemory {name : CString} (h : f.lookup name = none) :
      Does f .mkdir name (1#32, ascii "mkdir: Out of memory\n") f
  | removed {name : CString} (h : f.lookup name = some (name.chars :: f.cwd))
      (hleaf : ∀ m, f.tree.node (m :: name.chars :: f.cwd) = none) :
      Does f .rm name (0#32, named "'" name "' deleted successfully\n") (f.erase name.chars hleaf)
  | removeMissing {name : CString} (h : f.lookup name = none) :
      Does f .rm name (1#32, named "rm: '" name "' not found\n") f
  | removeBusy {name : CString} {p : List (List Byte)} (h : f.lookup name = some p)
      (hbusy : p = [] ∨ ∃ m x, f.tree.node (m :: p) = some x) :
      Does f .rm name (1#32, named "rm: Directory '" name "' is not empty\n") f
  | displayed {name : CString} {p : List (List Byte)} {d : List Byte}
      (h : f.lookup name = some p) (hfile : f.tree.node p = some (.file d)) :
      Does f .cat name (0#32, textOf (d.take 4095)) f
  | displayMissing {name : CString} (h : f.lookup name = none) :
      Does f .cat name (1#32, numbered "cat: Cannot read '" name "' (error " (-1#32) ")\n") f
  | displayDirectory {name : CString} {p : List (List Byte)} (h : f.lookup name = some p)
      (hdir : f.tree.node p = some .dir) :
      Does f .cat name (1#32, numbered "cat: Cannot read '" name "' (error " (-2#32) ")\n") f
  | counted {name : CString} {p : List (List Byte)} {d : List Byte}
      (h : f.lookup name = some p) (hfile : f.tree.node p = some (.file d)) :
      Does f .wc name (0#32, wcText (d.take 4095) name) f
  | countRefused {name : CString} (h : ∀ p, f.lookup name = some p → f.tree.node p = some .dir) :
      Does f .wc name (1#32, named "wc: Cannot read '" name "'\n") f
  | touched {name : CString} (h : f.lookup name = none) :
      Does f .touch name (0#32, named "Empty file '" name "' created\n")
        (f.insert name.chars (.file []) (node_eq_none_of_lookup h))
  | touchExists {name : CString} {p : List (List Byte)} (h : f.lookup name = some p) :
      Does f .touch name (0#32, named "File '" name "' already exists\n") f
  | touchRefused {name : CString} {r : Word} {f' : Files} (h : f.lookup name = none)
      (hr : r = -2#32 ∨ r = -3#32)
      (hstep : f.Step (.write name emptyString.byte 0#32) (r, []) f') :
      Does f .touch name (1#32, numbered "touch: Cannot create '" name "' (error " r ")\n") f'
  | moved {name : CString} {f' : Files} (hstep : f.Step (.cd (some name)) (0#32, []) f') :
      Does f .cd name (0#32, []) f'
  | moveMissing {name : CString} (h : f.lookup name = none)
      (hstep : f.Step (.cd (some name)) (1#32, []) f) :
      Does f .cd name (1#32, named "cd: Directory '" name "' not found\n") f
  | moveRefused {name : CString} {p : List (List Byte)} (h : f.lookup name = some p)
      (hstep : f.Step (.cd (some name)) (1#32, []) f) :
      Does f .cd name (1#32, named "cd: '" name "' is not a directory\n") f

/-- What a command line does: without a name the usage of the command is shown. -/
inductive Command (f : Files) (c : FileCommand) : List CString → Shown → Files → Prop
  | usage {argv : List CString} (h : argv.length < 2) : Command f c argv (1#32, c.usage) f
  | does {cmd name : CString} {args : List CString} {out : Shown} {f' : Files}
      (h : f.Does c name out f') : Command f c (cmd :: name :: args) out f'

end Files

/-! ### What is shown of a call -/

section Reports

variable {result : Word} {fmt : CString} {name : CString} {f f' : Files} {r : Word × List Byte}

lemma shown_plain {text : String} (h : segments fmt.chars = (ascii text).map .literal ++ []) :
    shown result fmt [] = some (result, ascii text) := by
  rw [shown, printed_plain h]
  rfl

lemma shown_named {before after : String}
    (h : segments fmt.chars = (ascii before).map .literal ++ .conversion .default (ch 's') ::
      ((ascii after).map .literal ++ [])) :
    shown result fmt [.text name] = some (result, named before name after) := by
  rw [shown, printed_named h]
  rfl

example : segments (ascii "'%s' deleted\n") =
    (ascii "'").map .literal ++ .conversion .default (ch 's') ::
      ((ascii "' deleted\n").map .literal ++ []) := by
  decide +kernel

lemma shown_numbered {before between after : String} {code : Word}
    (h : segments fmt.chars = (ascii before).map .literal ++ .conversion .default (ch 's') ::
      ((ascii between).map .literal ++ .conversion .default (ch 'd') ::
        ((ascii after).map .literal ++ []))) :
    shown result fmt [.text name, .word code] =
      some (result, numbered before name between code after) := by
  rw [shown, printed_numbered h]
  rfl

/-- What is read is not negative. -/
lemma read_nonneg (d : List Byte) :
    ¬(BitVec.ofNat 32 (d.take (4095#32).toNat).length).toInt < 0 := by
  have hlen : (d.take (4095#32).toNat).length ≤ 4095 := List.length_take_le _ _
  rw [toInt_ofNat (by omega)]
  omega

lemma Files.Step.mkdir (h : f.Step (.create name 1#32) r f') :
    ∃ out, mkdirReport name r.1 = some out ∧ f.Does .mkdir name out f' := by
  cases h with
  | @created _ _ result h hr =>
      have hne : ∀ code : Word, code.toInt < 0 → result ≠ code := by
        rintro code hcode rfl
        omega
      refine ⟨_, ?_, .created h⟩
      rw [mkdirReport, if_neg (hne _ (by decide)), if_neg (hne _ (by decide)),
        if_neg (hne _ (by decide)), if_pos hr]
      exact shown_named (by decide +kernel)
  | «exists» h =>
      refine ⟨_, ?_, .already h⟩
      rw [mkdirReport, if_pos rfl]
      exact shown_named (by decide +kernel)
  | createRefused h hr =>
      rcases hr with rfl | rfl
      · refine ⟨_, ?_, .noSlots h⟩
        rw [mkdirReport, if_neg (by decide), if_pos rfl]
        exact shown_plain (by decide +kernel)
      · refine ⟨_, ?_, .noMemory h⟩
        rw [mkdirReport, if_neg (by decide), if_neg (by decide), if_pos rfl]
        exact shown_plain (by decide +kernel)

lemma Files.Step.rm (h : f.Step (.delete name) r f') :
    ∃ out, rmReport name r.1 = some out ∧ f.Does .rm name out f' := by
  cases h with
  | deleted h hleaf =>
      refine ⟨_, ?_, .removed h hleaf⟩
      rw [rmReport, if_pos rfl]
      exact shown_named (by decide +kernel)
  | deleteMissing h =>
      refine ⟨_, ?_, .removeMissing h⟩
      rw [rmReport, if_neg (by decide), if_pos rfl]
      exact shown_named (by decide +kernel)
  | notEmpty h hbusy =>
      refine ⟨_, ?_, .removeBusy h hbusy⟩
      rw [rmReport, if_neg (by decide), if_neg (by decide), if_pos rfl]
      exact shown_named (by decide +kernel)

lemma printed_text (text : CString) : printed catText [.text text] = some text.chars := by
  have hsegments : segments catText.chars = [.conversion .default (ch 's')] := by decide +kernel
  rw [printed, vfprintf_render, hsegments, renderAll_string, renderAll]
  simp only [Option.map_some, List.append_nil]

lemma Files.Step.cat (h : f.Step (.read name 4095#32) r f') :
    ∃ out, catReport name r.1 r.2 = some out ∧ f.Does .cat name out f' := by
  cases h with
  | @read _ _ p d h hfile =>
      refine ⟨_, ?_, .displayed h hfile⟩
      rw [catReport, if_neg (read_nonneg d), shown, printed_text]
      rfl
  | readMissing h =>
      refine ⟨_, ?_, .displayMissing h⟩
      rw [catReport, if_pos (by decide)]
      exact shown_numbered (by decide +kernel)
  | readDirectory h hdir =>
      refine ⟨_, ?_, .displayDirectory h hdir⟩
      rw [catReport, if_pos (by decide)]
      exact shown_numbered (by decide +kernel)

lemma printed_wcLine (name : CString) (lines words chars : ℕ) (hlines : lines < 2 ^ 31)
    (hwords : words < 2 ^ 31) (hchars : chars < 2 ^ 31) :
    printed wcLine [.word (BitVec.ofNat 32 lines), .word (BitVec.ofNat 32 words),
        .word (BitVec.ofNat 32 chars), .text name] =
      some (ascii "  " ++ digitText 10 lines ++ ascii " lines, " ++ digitText 10 words ++
        ascii " words, " ++ digitText 10 chars ++ ascii " characters, Filename: " ++ name.chars ++
        ascii "\n") := by
  have hsegments : segments wcLine.chars =
      (ascii "  ").map .literal ++ .conversion .default (ch 'd') ::
        ((ascii " lines, ").map .literal ++ .conversion .default (ch 'd') ::
          ((ascii " words, ").map .literal ++ .conversion .default (ch 'd') ::
            ((ascii " characters, Filename: ").map .literal ++ .conversion .default (ch 's') ::
              ((ascii "\n").map .literal ++ [])))) := by decide +kernel
  rw [printed, vfprintf_render, hsegments, renderAll_literals, renderAll_decimal hlines,
    renderAll_literals, renderAll_decimal hwords, renderAll_literals, renderAll_decimal hchars,
    renderAll_literals, renderAll_string, renderAll_literals, renderAll]
  simp only [Option.map_some, List.append_nil, List.append_assoc]

lemma Files.Step.wc (h : f.Step (.read name 4095#32) r f') :
    ∃ out, wcReport name r.1 r.2 = some out ∧ f.Does .wc name out f' := by
  cases h with
  | @read _ _ p d h hfile =>
      have hlen : (d.take (4095#32).toNat).length ≤ 4095 := List.length_take_le _ _
      have hlines : (d.take (4095#32).toNat).count 10#8 ≤ _ := List.count_le_length
      have hwords := length_wordsOf_le isSpace (d.take (4095#32).toNat)
      have hline := printed_wcLine name _ _ _ (hlines.trans_lt (hlen.trans_lt (by decide)))
        (hwords.trans_lt (hlen.trans_lt (by decide))) (hlen.trans_lt (by decide))
      refine ⟨_, ?_, .counted h hfile⟩
      rw [wcReport, if_neg (read_nonneg d), shown, wordCount_eq]
      exact congrArg (Option.map fun text => (0#32, text)) hline
  | readMissing h =>
      have hnone : ∀ p, f.lookup name ≠ some p := fun p hp =>
        Option.some_ne_none p (hp.symm.trans h)
      refine ⟨_, ?_, .countRefused fun p hp => absurd hp (hnone p)⟩
      rw [wcReport, if_pos (by decide)]
      exact shown_named (by decide +kernel)
  | readDirectory h hdir =>
      have hnode : ∀ p, f.lookup name = some p → f.tree.node p = some .dir := fun p hp =>
        Option.some.inj (hp.symm.trans h) ▸ hdir
      refine ⟨_, ?_, .countRefused hnode⟩
      rw [wcReport, if_pos (by decide)]
      exact shown_named (by decide +kernel)

lemma Files.Step.touch (h : f.Step (.write name emptyString.byte 0#32) r f')
    (hnone : f.lookup name = none) :
    ∃ out, touchReport name r.1 = some out ∧ f.Does .touch name out f' := by
  have hsome : ∀ p, f.lookup name ≠ some p := fun p hp =>
    Option.some_ne_none p (hp.symm.trans hnone)
  have hrefused : ∀ {result : Word} {f' : Files}, (result = -2#32 ∨ result = -3#32) →
      f.Step (.write name emptyString.byte 0#32) (result, []) f' →
      ∃ out, touchReport name result = some out ∧ f.Does .touch name out f' := by
    intro result f' hr hstep
    refine ⟨_, ?_, .touchRefused hnone hr hstep⟩
    have hneg : ¬0 ≤ result.toInt := by
      rcases hr with rfl | rfl <;> decide
    rw [touchReport, if_neg hneg]
    exact shown_numbered (by decide +kernel)
  cases h with
  | writtenNew h =>
      refine ⟨_, ?_, .touched h⟩
      rw [touchReport, if_pos (by decide)]
      exact shown_named (by decide +kernel)
  | written h hfile => exact absurd h (hsome _)
  | writeDirectory h hdir => exact absurd h (hsome _)
  | writeRefused h hr =>
      exact hrefused (hr.imp_left And.left) (.writeRefused h hr)
  | writeLeft h => exact hrefused (.inr rfl) (.writeLeft h)

end Reports

lemma withName_usage {σ : Type} (usage : CString) (text : String)
    (h : segments usage.chars = (ascii text).map .literal ++ [])
    (body : CString → Shell σ → Option (Shown × Shell σ)) {argv : List CString}
    (hlen : argv.length < 2) (s : Shell σ) :
    withName usage body argv s = some ((1#32, ascii text), s) := by
  match argv, hlen with
  | [], _ => rw [withName, printed_plain h, Option.map_some]; nofun
  | [cmd], _ => rw [withName, printed_plain h, Option.map_some]; nofun

/-- Without a name a command shows its usage. -/
lemma FileCommand.run_usage {σ : Type} {S : SysCalls σ} {c : FileCommand} {argv : List CString}
    {s : Shell σ} (hc : c ≠ .cd) (hlen : argv.length < 2) :
    c.run S argv s = some ((1#32, c.usage), s) := by
  cases c with
  | mkdir =>
      rw [run, cmdMkdir]
      exact withName_usage mkdirUsage "Usage: mkdir <directory_name>\n" (by decide +kernel) _ hlen s
  | rm =>
      rw [run, cmdRm]
      exact withName_usage rmUsage "Usage: rm <filename>\n" (by decide +kernel) _ hlen s
  | cat =>
      rw [run, cmdCat]
      exact withName_usage catUsage "Usage: cat <filename>\n" (by decide +kernel) _ hlen s
  | wc =>
      rw [run, cmdWc]
      exact withName_usage wcUsage "Usage: wc <filename>\n" (by decide +kernel) _ hlen s
  | touch =>
      rw [run, cmdTouch]
      exact withName_usage touchUsage "Usage: touch <filename>\n" (by decide +kernel) _ hlen s
  | cd => exact absurd rfl hc

/-- What `cmd_cd` shows. -/
lemma Shell.Holds.cdReport {σ : Type} {s : Shell σ} {f f' : Files} {name : CString}
    {result : Word} (h : s.Holds f) (hs : s.Ordered)
    (hstep : f.Step (.cd (some name)) (result, []) f') :
    ∃ out, MiqOSoft.cdReport name result s = some out ∧ f.Does .cd name out f' := by
  rw [MiqOSoft.cdReport]
  by_cases hzero : result = 0#32
  · subst hzero
    exact ⟨_, if_pos rfl, .moved hstep⟩
  · obtain ⟨rfl, rfl⟩ : result = 1#32 ∧ f' = f := by
      cases hstep <;> first | exact absurd rfl hzero | exact ⟨rfl, rfl⟩
    rw [if_neg hzero]
    cases hfind : ramfsFindFile name s.ramfs.currentDir s.ramfs with
    | none =>
        refine ⟨_, ?_, .moveMissing (h.lookup_of_not_find hs hfind) hstep⟩
        exact shown_named (by decide +kernel)
    | some i =>
        obtain ⟨p, hlookup, -⟩ := h.node_of_find hs hfind
        refine ⟨_, ?_, .moveRefused hlookup hstep⟩
        exact shown_named (by decide +kernel)

end MiqOSoft
