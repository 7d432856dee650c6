import Mathlib.Data.List.Find
import MiqOSoft.Kernel.Sprintf
import MiqOSoft.Shell.ParseCommand
import MiqOSoft.Shell.Terminal

/-!
The shell from the keys to the files: `shell_run` with `shell_process_command` of `shell.c` and
`find_shell_command` of `shell_commands.c`, over the kernel and between the calls of other clients.

* `shellProcessCommand`: a line is cut into words, and the command that the first one names is run.
* `ShellSession`: the line being typed, the buffer of the parser, and the file system.
  `ShellSession.key`: a key of `shell_run`, which hands a line over when it is Enter.
  `ShellSession.edit`: Enter behind a line that runs `edit`, with the keys that the editor takes.
* `Files.Line`, `Typed`: what a line does to a tree of files, and what a key does to a line editor
  over that tree.
* `shell_refined`: whatever is typed, what is seen of the lines is what the tree shows.
-/

namespace MiqOSoft

open Machine Editing Tiling Transition

/-! ### A line -/

/-- What a name of `shell_commands` runs: a command on files, the editor, or another command. -/
inductive ShellCommand
  | file (c : FileCommand)
  | edit
  | other
deriving DecidableEq

/-- The names of `shell_commands`. -/
def shellCommands : List (String × ShellCommand) :=
  [("help", .other), ("clear", .other), ("echo", .other), ("version", .other), ("memory", .other),
    ("uptime", .other), ("cpuinfo", .other), ("cpuid", .other), ("dmesg", .other), ("ls", .other),
    ("cd", .file .cd), ("pwd", .other), ("mkdir", .file .mkdir), ("rm", .file .rm),
    ("cat", .file .cat), ("edit", .edit), ("touch", .file .touch), ("find", .other),
    ("grep", .other), ("wc", .file .wc), ("memtest", .other), ("interrupt", .other),
    ("hexdump", .other), ("keytest", .other), ("benchmark", .other), ("registers", .other),
    ("syscall_test", .other), ("malloc_test", .other), ("heap_info", .other), ("sleep", .other),
    ("reboot", .other), ("panic", .other), ("exit", .other)]

/-- `find_shell_command`. -/
def findShellCommand (name : CString) : Option ShellCommand :=
  (shellCommands.find? fun entry =>
    decide (shellStrcmp (fun k => (ascii entry.1).getD k 0#8) name = 0)).map Prod.snd

def unknownCommand : CString := ⟨ascii "Unknown command: %s\n", by decide⟩
def typeHelp : CString := ⟨ascii "Type 'help' for a list of available commands.\n", by decide⟩
def commandFailed : CString := ⟨ascii "Command '%s' returned error code %d\n", by decide⟩

/-- What a command prints, and the line about its result if that is not 0. -/
def withResult (name : CString) (out : Shown) : Option (List Byte) :=
  if out.1 ≠ 0#32 then
    (printed commandFailed [.text name, .word out.1]).map fun text => out.2 ++ text
  else some out.2

/-- What `shell_process_command` does with the words of a line: the text that is printed.  It has
no result for the editor and for the commands that do not work on files. -/
def runWords (argv : List CString) (s : Shell Kernel) : Option (List Byte × Shell Kernel) :=
  match argv with
  | [] => some ([], s)
  | name :: args =>
      match findShellCommand name with
      | some (.file c) =>
          (c.run sysCalls (name :: args) s).bind fun r =>
            (withResult name r.1).map fun text => (text, r.2)
      | some .edit => none
      | some .other => none
      | none =>
          (printed unknownCommand [.text name]).bind fun text =>
            (printed typeHelp []).map fun hint => (text ++ hint, s)

/-- What the editor does, and the line about its result if that is not 0. -/
def editResult (name : CString) (result : Word) (out : List EditEvent) : List EditEvent :=
  out ++ if result = 0#32 then [] else [.printf commandFailed [.text name, .word result]]

/-- What `shell_process_command` does with the words of a line that runs the editor, which takes
the keys. -/
def editWords (keys : List Byte) (argv : List CString) (s : Shell Kernel) :
    Option (List EditEvent × Shell Kernel) :=
  match argv with
  | [] => none
  | name :: args =>
      if findShellCommand name = some .edit then
        match cmdEdit sysCalls (name :: args) keys s with
        | some (result, out, s, []) => some (editResult name result out, s)
        | _ => none
      else none

/-- The strings that the first `argc` pointers of `argv` point to in `local_buffer`. -/
def argvStrings (argc : ℕ) (argv : Vector (Option ℕ) SHELL_MAX_ARGS)
    (buf : Vector Byte SHELL_BUFFER_SIZE) : List CString :=
  (List.range argc).map fun k => stringAt buf.toList ((argv[k]?.join).getD 0)

/-- `shell_process_command`, which runs the words of a line, with what `local_buffer` and `argv`
held before. -/
def shellProcessCommand {α : Type} (run : List CString → Shell Kernel → Option (α × Shell Kernel))
    (buf : Vector Byte SHELL_BUFFER_SIZE) (argv : Vector (Option ℕ) SHELL_MAX_ARGS)
    (input : CString) (s : Shell Kernel) :
    Option (α × Vector Byte SHELL_BUFFER_SIZE × Shell Kernel) := do
  let (argc, argv, buf) ← shellParseCommand buf argv input
  let (out, s) ← run (argvStrings argc argv buf) s
  some (out, buf, s)

/-! ### A session -/

/-- The line being typed, `local_buffer`, and the file system. -/
structure ShellSession where
  world : ShellWorld
  line : ShellLine
  localBuffer : Vector Byte SHELL_BUFFER_SIZE

/-- A key is popped, or it is Enter behind a line that runs the editor, which takes the keys behind
it; or another client makes a call of the kernel. -/
inductive TypedEvent
  | key (c : Byte)
  | edit (keys : List Byte)
  | other (c : Call)

/-- What is seen of a key: what its line prints, or what the editor does to the outside. -/
inductive SeenKey
  | key (c : Byte) (text : List Byte)
  | edit (keys : List Byte) (out : List EditEvent)

/-- The text that a command prints. -/
def SeenKey.text : SeenKey → List Byte
  | .key _ text => text
  | .edit _ _ => []

namespace ShellSession

/-- A turn of the loop of `shell_run`, with the command that it hands a line to, if it does; `argv`
is what the local array of `shell_process_command` holds before. -/
def turn {α : Type} (run : List CString → Shell Kernel → Option (α × Shell Kernel))
    (argv : Vector (Option ℕ) SHELL_MAX_ARGS) (s : ShellSession) (c : Byte) :
    Option (Option α × ShellSession) := do
  let line ← shellKey s.line c
  match line.commands.drop s.line.commands.length with
  | [] => some (none, { s with line := line })
  | text :: _ => do
      let (out, buf, shell) ←
        shellProcessCommand run s.localBuffer argv (stringAt text 0) s.world.shell
      some (some out, ⟨⟨shell, s.world.others⟩, line, buf⟩)

/-- A key. -/
def key (argv : Vector (Option ℕ) SHELL_MAX_ARGS) (s : ShellSession) (c : Byte) :
    Option (List Byte × ShellSession) :=
  (s.turn runWords argv c).map fun r => (r.1.getD [], r.2)

/-- Enter behind a line that runs the editor, which takes the keys. -/
def edit (argv : Vector (Option ℕ) SHELL_MAX_ARGS) (s : ShellSession) (keys : List Byte) :
    Option (List EditEvent × ShellSession) :=
  (s.turn (editWords keys) argv 10#8).bind fun r => r.1.map fun out => (out, r.2)

/-- One event. -/
def step (L : Rodata) (argv : Vector (Option ℕ) SHELL_MAX_ARGS) (s : ShellSession) :
    TypedEvent → Option ShellSession
  | .key c => (s.key argv c).map Prod.snd
  | .edit keys => (s.edit argv keys).map Prod.snd
  | .other c => (s.world.step L (.other c)).map fun w => { s with world := w }

/-- The keys along a run, each with what is seen of the line that it hands over. -/
def seen (L : Rodata) (argv : Vector (Option ℕ) SHELL_MAX_ARGS) :
    ShellSession → List TypedEvent → List SeenKey
  | _, [] => []
  | s, .key c :: es =>
      match s.key argv c with
      | some r => .key c r.1 :: seen L argv r.2 es
      | none => []
  | s, .edit keys :: es =>
      match s.edit argv keys with
      | some r => .edit keys r.1 :: seen L argv r.2 es
      | none => []
  | s, .other c :: es =>
      match s.world.step L (.other c) with
      | some w => seen L argv { s with world := w } es
      | none => []

/-- The shell when it starts to read keys. -/
def boot (L : Rodata) (k : Kernel) (buf : Vector Byte SHELL_BUFFER_SIZE) : ShellSession :=
  ⟨.boot L k, .init, buf⟩

end ShellSession

/-! ### What is seen -/

/-- The command of a name. -/
def commandNamed (n : List Byte) : Option ShellCommand :=
  (shellCommands.find? fun entry => decide (ascii entry.1 = n)).map Prod.snd

namespace Files

/-- **What a line does** to the files, and what is seen of it. -/
inductive Line (f : Files) : List CString → List Byte → Files → Prop
  | blank : Line f [] [] f
  | unknown {name : CString} {args : List CString} (h : commandNamed name.chars = none) :
      Line f (name :: args) (named "Unknown command: " name "\n" ++
        ascii "Type 'help' for a list of available commands.\n") f
  | command {c : FileCommand} {name : CString} {args : List CString} {out : Shown} {f' : Files}
      (hname : commandNamed name.chars = some (.file c)) (h : f.Command c (name :: args) out f') :
      Line f (name :: args) (out.2 ++ if out.1 = 0#32 then [] else
        numbered "Command '" name "' returned error code " out.1 "\n") f'

/-- **What a line of the editor does** to the files, and what is seen of it; it takes the keys. -/
inductive EditLine (f : Files) (keys : List Byte) :
    List CString → List EditEvent → Files → Prop
  | mk {name : CString} {args : List CString} {result : Word} {out : List EditEvent} {f' : Files}
      (hname : commandNamed name.chars = some .edit)
      (h : f.Terminal (.edit (name :: args) keys result out []) f') :
      EditLine f keys (name :: args) (editResult name result out) f'

end Files

/-- **What a key does** to the line and to the files, and what is seen of it: Enter runs the words
of a line. -/
inductive Typed : LineEditor × Files → SeenKey → LineEditor × Files → Prop
  | enter {e : LineEditor} {f f' : Files} {argv : List CString} {out : List Byte}
      (hargv : argv.map CString.chars = wordsOf isBlank e.line.text)
      (htext : e.line.text ≠ []) (hline : f.Line argv out f') :
      Typed (e, f) (.key 10#8 out) (e.enter, f')
  | key {e : LineEditor} {f : Files} {c : Byte} (h : ¬(c = 10#8 ∧ e.line.text ≠ [])) :
      Typed (e, f) (.key c []) (e.key c, f)
  | edit {e : LineEditor} {f f' : Files} {argv : List CString} {keys : List Byte}
      {out : List EditEvent} (hargv : argv.map CString.chars = wordsOf isBlank e.line.text)
      (hline : f.EditLine keys argv out f') : Typed (e, f) (.edit keys out) (e.enter, f')

/-- The lines that are covered: they have fewer than 15 words, the first of them is no command but
one on files, a name has at most 31 characters, and `cd` has an argument. -/
structure Covered (words : List (List Byte)) : Prop where
  few : words.length < 15
  name : ∀ n ∈ words[1]?, n.length ≤ 31
  command : ∀ n ∈ words.head?, commandNamed n ≠ some .edit ∧ commandNamed n ≠ some .other ∧
    (commandNamed n = some (.file .cd) → 2 ≤ words.length)

/-- The lines that run the editor: they have fewer than 15 words, a name has at most 31 characters,
and the keys end the session. -/
structure ShellWorld.EditCovered (w : ShellWorld) (keys : List Byte) (words : List (List Byte)) :
    Prop where
  few : words.length < 15
  command : ∃ n ∈ words.head?, commandNamed n = some .edit
  usage : words.length < 2 → keys = []
  session : ∀ name : CString, words[1]? = some name.chars →
    name.chars.length ≤ 31 ∧ w.EndsEdit name keys []

/-- A line that is handed over is covered; the calls of the other clients corrupt no memory. -/
def ShellSession.Permitted (L : Rodata) (s : ShellSession) : TypedEvent → Prop
  | .key c => c = 10#8 → Covered (wordsOf isBlank (bufferText s.line.commandBuffer 0))
  | .edit keys =>
      s.world.EditCovered keys (wordsOf isBlank (bufferText s.line.commandBuffer 0))
  | .other c => s.world.Tame L (.other c)

/-! ### The refinement -/

lemma findShellCommand_eq (name : CString) : findShellCommand name = commandNamed name.chars := by
  have hnul : ∀ entry ∈ shellCommands, 0#8 ∉ ascii entry.1 := by decide +kernel
  rw [findShellCommand, commandNamed]
  refine congrArg (Option.map Prod.snd) (List.find?_congr fun entry hentry => ?_)
  exact decide_eq_decide.mpr
    (strcmp_eq_zero_iff (hnul entry hentry) name.noNul fun _ _ => rfl)

lemma withResult_eq (name : CString) (out : Shown) :
    withResult name out = some (out.2 ++ if out.1 = 0#32 then [] else
      numbered "Command '" name "' returned error code " out.1 "\n") := by
  rw [withResult]
  by_cases hzero : out.1 = 0#32
  · rw [if_neg (not_not.mpr hzero), if_pos hzero, List.append_nil]
  · rw [if_pos hzero, if_neg hzero]
    exact congrArg (Option.map fun text => out.2 ++ text)
      (printed_numbered (by decide +kernel) name out.1)

/-- The words of a line are run. -/
lemma runWords_spec {L : Rodata} {w : ShellWorld} {f : Files} (h : w.Keeps L f)
    {argv : List CString} (hcov : Covered (argv.map CString.chars)) :
    ∃ text s' f', runWords argv w.shell = some (text, s') ∧ f.Line argv text f' ∧
      ShellWorld.Keeps L ⟨s', w.others⟩ f' := by
  cases argv with
  | nil => exact ⟨[], w.shell, f, rfl, .blank, h⟩
  | cons name args =>
      obtain ⟨hedit, hother, hcd⟩ := hcov.command name.chars rfl
      rw [runWords, findShellCommand_eq]
      cases hname : commandNamed name.chars with
      | none =>
          refine ⟨_, w.shell, f, ?_, .unknown hname, h⟩
          have htext : printed unknownCommand [.text name] =
              some (named "Unknown command: " name "\n") :=
            printed_named (by decide +kernel) name
          have hhint : printed typeHelp [] =
              some (ascii "Type 'help' for a list of available commands.\n") :=
            printed_plain (by decide +kernel)
          simp only [htext, hhint, Option.bind_some, Option.map_some]
      | some entry =>
          cases entry with
          | edit => exact absurd hname hedit
          | other => exact absurd hname hother
          | file c =>
              have hok : w.Permitted L (.command c (name :: args)) := by
                refine ⟨fun n hn => hcov.name n.chars ?_, ?_⟩
                · rw [List.getElem?_map, Option.mem_def.mp hn]
                  rfl
                · rintro rfl
                  simpa using hcd hname
              obtain ⟨out, s', f', hrun, hcommand, hkeeps⟩ := h.command hok
              refine ⟨_, s', f', ?_, .command hname hcommand, hkeeps⟩
              simp only [hrun, Option.bind_some, withResult_eq, Option.map_some]

/-- The editor is run. -/
lemma editWords_spec {L : Rodata} {w : ShellWorld} {f : Files} (h : w.Keeps L f)
    {argv : List CString} {keys : List Byte} (hcov : w.EditCovered keys (argv.map CString.chars)) :
    ∃ out s' f', editWords keys argv w.shell = some (out, s') ∧ f.EditLine keys argv out f' ∧
      ShellWorld.Keeps L ⟨s', w.others⟩ f' := by
  obtain ⟨n, hn, hedit⟩ := hcov.command
  match argv with
  | [] => exact absurd hn (Option.not_mem_none n)
  | [cmd] =>
      obtain rfl := Option.some.inj hn
      obtain rfl := hcov.usage Nat.one_lt_two
      refine ⟨_, w.shell, f, ?_, .mk hedit (.editUsage Nat.one_lt_two), h⟩
      rw [editWords, if_pos ((findShellCommand_eq cmd).trans hedit)]
      rfl
  | cmd :: name :: args =>
      obtain rfl := Option.some.inj hn
      obtain ⟨hname, hends⟩ := hcov.session name rfl
      obtain ⟨out, s', f', hrun, hedits, hkeeps⟩ := h.edit cmd args hname hends
      refine ⟨_, s', f', ?_, .mk hedit (.edit hedits), hkeeps⟩
      rw [editWords, if_pos ((findShellCommand_eq cmd).trans hedit), hrun]

/-- The strings in `argv` are the words. -/
lemma argvStrings_chars {argc : ℕ} {argv : Vector (Option ℕ) SHELL_MAX_ARGS}
    {buf : Vector Byte SHELL_BUFFER_SIZE} {words : List (List Byte)} (hargc : argc = words.length)
    (hnul : ∀ w ∈ words, 0#8 ∉ w)
    (hwords : ∀ k < argc, ∀ w, words[k]? = some w → ∃ p tail, argv[k]? = some (some p) ∧
      buf.toList.drop p = w ++ 0#8 :: tail) :
    (argvStrings argc argv buf).map CString.chars = words := by
  subst hargc
  rw [argvStrings, List.map_map]
  refine List.ext_getElem (by simp) fun k hk hk' => ?_
  obtain ⟨p, tail, hp, hdrop⟩ := hwords k hk' _ (List.getElem?_eq_getElem hk')
  rw [List.getElem_map, List.getElem_range, Function.comp_apply, hp]
  change textOf (buf.toList.drop p) = words[k]
  rw [hdrop]
  exact textOf_append_zero (hnul _ (List.getElem_mem hk')) tail

/-- A line is cut into its words, which are run. -/
lemma shellProcessCommand_eq (buf : Vector Byte SHELL_BUFFER_SIZE)
    (argv : Vector (Option ℕ) SHELL_MAX_ARGS) {input : CString} (hlen : input.chars.length ≤ 255)
    (hfew : input.words.length < 15) :
    ∃ argv' buf', argv'.map CString.chars = input.words ∧
      ∀ (α : Type) (run : List CString → Shell Kernel → Option (α × Shell Kernel))
        (s : Shell Kernel), shellProcessCommand run buf argv input s =
          (run argv' s).map fun r => (r.1, buf', r.2) := by
  obtain ⟨argc, argv', buf', hparse, hargc, hwords, -⟩ :=
    (deliversWords_iff buf argv input hlen).mpr (.inl hfew)
  have hall : argc = input.words.length := hargc.trans (Nat.min_eq_left hfew.le)
  refine ⟨argvStrings argc argv' buf', buf', argvStrings_chars hall
    (fun w hw hmem => input.noNul (mem_of_mem_wordsOf hw hmem)) hwords, fun α run s => ?_⟩
  simp only [shellProcessCommand, hparse, Option.bind_eq_bind, Option.bind_some]
  cases run (argvStrings argc argv' buf') s <;> rfl

/-- Enter enters a line that is not empty. -/
lemma LineEditor.entered_key (e : LineEditor) (c : Byte) : (e.key c).entered =
    e.entered ++ if c = 10#8 ∧ e.line.text ≠ [] then [e.line.text] else [] := by
  by_cases henter : c = 10#8
  · rw [LineEditor.key, if_pos henter, LineEditor.enter]
    by_cases htext : e.line.text = []
    · simp [htext]
    · simp [henter, htext]
  · rw [if_neg fun h => henter h.1, List.append_nil, LineEditor.key, if_neg henter]
    split_ifs <;> rfl

namespace ShellSession

variable {L : Rodata} {s u : ShellSession} {e : LineEditor} {f : Files}

/-- A key that hands no line over. -/
lemma turn_of_line (argv : Vector (Option ℕ) SHELL_MAX_ARGS) (hs : Shows s.line e) {c : Byte}
    (hc : ¬(c = 10#8 ∧ e.line.text ≠ [])) : ∃ line, Shows line (e.key c) ∧
      ∀ (α : Type) (run : List CString → Shell Kernel → Option (α × Shell Kernel)),
        s.turn run argv c = some (none, { s with line := line }) := by
  obtain ⟨line, hline, hshows⟩ := shows_key hs c
  refine ⟨line, hshows, fun α run => ?_⟩
  have hdrop : line.commands.drop s.line.commands.length = [] := by
    rw [hshows.commands, hs.commands, e.entered_key, if_neg hc, List.append_nil, List.drop_length]
  rw [turn, hline, Option.bind_eq_bind, Option.bind_some, hdrop]

/-- Enter hands a line over, which is cut into its words. -/
lemma turn_of_enter (argv : Vector (Option ℕ) SHELL_MAX_ARGS) (hs : Shows s.line e)
    (htext : e.line.text ≠ []) (hfew : (wordsOf isBlank e.line.text).length < 15) :
    ∃ line argv' buf, Shows line e.enter ∧
      argv'.map CString.chars = wordsOf isBlank e.line.text ∧
      ∀ (α : Type) (run : List CString → Shell Kernel → Option (α × Shell Kernel)),
        s.turn run argv 10#8 = (run argv' s.world.shell).map fun r =>
          (some r.1, ⟨⟨r.2, s.world.others⟩, line, buf⟩) := by
  obtain ⟨line, hline, hshows⟩ := shows_key hs 10#8
  have hdrop : line.commands.drop s.line.commands.length = [e.line.text] := by
    rw [hshows.commands, hs.commands, e.entered_key, if_pos ⟨rfl, htext⟩, List.drop_left]
  have hinput : (stringAt e.line.text 0).chars = e.line.text := textOf_eq_self hs.noNul
  have hwords : (stringAt e.line.text 0).words = wordsOf isBlank e.line.text := by
    rw [CString.words, hinput]
  have hlen : (stringAt e.line.text 0).chars.length ≤ 255 := by
    rw [hinput, Line.length_text]
    exact e.line.fits
  obtain ⟨argv', buf, hargv, hprocess⟩ :=
    shellProcessCommand_eq s.localBuffer argv hlen (hwords ▸ hfew)
  refine ⟨line, argv', buf, hshows, hargv.trans hwords, fun α run => ?_⟩
  rw [turn, hline, Option.bind_eq_bind, Option.bind_some, hdrop]
  dsimp only
  rw [hprocess]
  cases run argv' s.world.shell <;> rfl

/-- **A key.** -/
theorem key_spec (argv : Vector (Option ℕ) SHELL_MAX_ARGS) (hs : Shows s.line e)
    (hk : s.world.Keeps L f) {c : Byte} (hc : s.Permitted L (.key c)) :
    ∃ out s' f', s.key argv c = some (out, s') ∧ Typed (e, f) (.key c out) (e.key c, f') ∧
      Shows s'.line (e.key c) ∧ s'.world.Keeps L f' := by
  by_cases henter : c = 10#8 ∧ e.line.text ≠ []
  · obtain ⟨rfl, htext⟩ := henter
    have hcov : Covered (wordsOf isBlank e.line.text) := hs.bufferText_eq ▸ hc rfl
    obtain ⟨line, argv', buf, hshows, hargv, hturn⟩ := turn_of_enter argv hs htext hcov.few
    obtain ⟨text, s', f', hrun, hfline, hkeeps⟩ := runWords_spec hk (hargv ▸ hcov)
    refine ⟨text, ⟨⟨s', s.world.others⟩, line, buf⟩, f', ?_, .enter hargv htext hfline, hshows,
      hkeeps⟩
    rw [key, hturn, hrun]
    rfl
  · obtain ⟨line, hshows, hturn⟩ := turn_of_line argv hs henter
    refine ⟨[], { s with line := line }, f, ?_, .key henter, hshows, hk⟩
    rw [key, hturn]
    rfl

/-- **Enter behind a line that runs the editor.** -/
theorem edit_spec (argv : Vector (Option ℕ) SHELL_MAX_ARGS) (hs : Shows s.line e)
    (hk : s.world.Keeps L f) {keys : List Byte} (hc : s.Permitted L (.edit keys)) :
    ∃ out s' f', s.edit argv keys = some (out, s') ∧ Typed (e, f) (.edit keys out) (e.enter, f') ∧
      Shows s'.line e.enter ∧ s'.world.Keeps L f' := by
  have hcov : s.world.EditCovered keys (wordsOf isBlank e.line.text) := hs.bufferText_eq ▸ hc
  have htext : e.line.text ≠ [] := by
    intro hnil
    obtain ⟨n, hn, -⟩ := hcov.command
    rw [hnil] at hn
    exact absurd hn (Option.not_mem_none n)
  obtain ⟨line, argv', buf, hshows, hargv, hturn⟩ := turn_of_enter argv hs htext hcov.few
  obtain ⟨out, s', f', hrun, hfline, hkeeps⟩ := editWords_spec hk (hargv ▸ hcov)
  refine ⟨out, ⟨⟨s', s.world.others⟩, line, buf⟩, f', ?_, .edit hargv hfline, hshows, hkeeps⟩
  rw [edit, hturn, hrun]
  rfl

lemma step_of_key {argv : Vector (Option ℕ) SHELL_MAX_ARGS} {c : Byte} {out : List Byte}
    (h : s.key argv c = some (out, u)) : s.step L argv (.key c) = some u := by
  rw [step, h, Option.map_some]

lemma step_of_edit {argv : Vector (Option ℕ) SHELL_MAX_ARGS} {keys : List Byte}
    {out : List EditEvent} (h : s.edit argv keys = some (out, u)) :
    s.step L argv (.edit keys) = some u := by
  rw [step, h, Option.map_some]

/-- What is permitted returns, and does what the line editor and the files do. -/
lemma step_spec (argv : Vector (Option ℕ) SHELL_MAX_ARGS) (hs : Shows s.line e)
    (hk : s.world.Keeps L f) {ev : TypedEvent} (hev : s.Permitted L ev) (es : List TypedEvent) :
    ∃ s' e' f' os, s.step L argv ev = some s' ∧ Trace Typed (e, f) os (e', f') ∧
      seen L argv s (ev :: es) = os ++ seen L argv s' es ∧ Shows s'.line e' ∧
      s'.world.Keeps L f' := by
  cases ev with
  | key c =>
      obtain ⟨out, s', f', hkey, htyped, hs', hk'⟩ := key_spec argv hs hk hev
      refine ⟨s', _, f', [.key c out], step_of_key hkey, .cons htyped (.nil _), ?_, hs', hk'⟩
      rw [seen, hkey]
      rfl
  | edit keys =>
      obtain ⟨out, s', f', hedit, htyped, hs', hk'⟩ := edit_spec argv hs hk hev
      refine ⟨s', _, f', [.edit keys out], step_of_edit hedit, .cons htyped (.nil _), ?_, hs', hk'⟩
      rw [seen, hedit]
      rfl
  | other c =>
      obtain ⟨w, -, -, hw, -⟩ := hk.terminalStep (e := .other c) hev []
      have hstep : s.world.step L (.other c) = some w := hw
      refine ⟨{ s with world := w }, e, f, [], ?_, .nil _, ?_, hs, hk.other hev hstep⟩
      · rw [step, hstep, Option.map_some]
      · rw [seen, hstep]
        rfl

/-- The run of a shell. -/
lemma run_spec {argv : Vector (Option ℕ) SHELL_MAX_ARGS} {es : List TypedEvent}
    (hrun : Run (step L argv) (Permitted L) s es u) (hs : Shows s.line e)
    (hk : s.world.Keeps L f) :
    ∃ e' f', Trace Typed (e, f) (seen L argv s es) (e', f') ∧ Shows u.line e' ∧
      u.world.Keeps L f' := by
  induction hrun generalizing e f with
  | nil s => exact ⟨e, f, .nil _, hs, hk⟩
  | @cons s t u ev es hev hstep _ ih =>
      obtain ⟨t', e', f', os, hstep', htrace, hseen, hs', hk'⟩ := step_spec argv hs hk hev es
      obtain rfl := Option.some.inj (hstep'.symm.trans hstep)
      obtain ⟨e'', f'', htrace', hs'', hk''⟩ := ih hs' hk'
      exact ⟨e'', f'', hseen ▸ htrace.append htrace', hs'', hk''⟩

end ShellSession

/-- **The shell is a line editor over a tree of files.**  Whatever is typed, in the lines and in the
sessions of the editor, between the calls of the other clients of the kernel, what is seen of the
lines is what the tree shows when their words are run; in the end the shell's variables are those of
the line editor and the file system holds the tree; and every permitted key is handled. -/
theorem shell_refined {L : Rodata} {k : Kernel} {buf : Vector Byte SHELL_BUFFER_SIZE}
    {argv : Vector (Option ℕ) SHELL_MAX_ARGS} {es : List TypedEvent} {s : ShellSession}
    (hk : k.Cold)
    (hrun : Run (ShellSession.step L argv) (ShellSession.Permitted L) (.boot L k buf) es s) :
    ∃ e f, Trace Typed (.empty, .empty) (ShellSession.seen L argv (.boot L k buf) es) (e, f) ∧
      Shows s.line e ∧ s.world.shell.Holds f ∧
      ∀ ev, s.Permitted L ev → ∃ s', s.step L argv ev = some s' := by
  obtain ⟨e, f, htrace, hs, hkeeps⟩ :=
    ShellSession.run_spec hrun shows_init (ShellWorld.Keeps.boot hk)
  refine ⟨e, f, htrace, hs, hkeeps.holds, fun ev hev => ?_⟩
  obtain ⟨s', -, -, -, hstep, -⟩ := ShellSession.step_spec argv hs hkeeps hev []
  exact ⟨s', hstep⟩

/-- Keys other than Enter are typed into the line. -/
lemma ShellSession.run_keys (L : Rodata) (argv : Vector (Option ℕ) SHELL_MAX_ARGS)
    {keys : List Byte} (hkeys : 10#8 ∉ keys) {s : ShellSession} {e : LineEditor}
    (hs : Shows s.line e) :
    ∃ s', Run (step L argv) (Permitted L) s (keys.map .key) s' ∧ s'.world = s.world ∧
      Shows s'.line (e.typed keys) := by
  induction keys generalizing s e with
  | nil => exact ⟨s, .nil s, rfl, hs⟩
  | cons c keys ih =>
      obtain ⟨hc, hkeys⟩ := not_or.mp (mt List.mem_cons.mpr hkeys)
      obtain ⟨line, hshows, hturn⟩ := turn_of_line argv hs fun h => hc h.1.symm
      obtain ⟨s', hrun, hworld, hshows'⟩ := ih hkeys (s := { s with line := line }) hshows
      have hkey : s.key argv c = some ([], { s with line := line }) := by
        rw [key, hturn]
        rfl
      exact ⟨s', .cons (fun h => absurd h.symm hc) (step_of_key hkey) hrun, hworld, hshows'⟩

/-- A file is edited, and displayed. -/
def notesSession : List TypedEvent :=
  (ascii "edit notes").map .key ++ .edit (entered ([ascii "hi"] ++ [ascii "SAVE"])) ::
    ((ascii "cat notes").map .key ++ [.key 10#8])

/-- The shell when the keys of `notesSession` are typed. -/
def notesShell : ShellSession := .boot sampleRodata blankKernel (Vector.replicate _ 0#8)

lemma editCovered_notes : startWorld.EditCovered (entered ([ascii "hi"] ++ [ascii "SAVE"]))
    [ascii "edit", ascii "notes"] where
  few := by decide
  command := ⟨ascii "edit", rfl, by decide +kernel⟩
  usage h := absurd h (by decide)
  session name hname := by
    obtain ⟨chars, hnul⟩ := name
    obtain rfl : ascii "notes" = chars := Option.some.inj hname
    exact ⟨Nat.le_of_ble_eq_true rfl, endsEdit_notes⟩

lemma covered_notes : Covered [ascii "cat", ascii "notes"] where
  few := by decide
  name := by
    rintro n ⟨⟩
    decide
  command := by
    rintro n ⟨⟩
    decide +kernel

/-- What is typed in the editor is displayed. -/
theorem shell_refined_notes : ∃ s e f,
    Run (ShellSession.step sampleRodata (Vector.replicate _ none))
        (ShellSession.Permitted sampleRodata) notesShell notesSession s ∧
      Trace Typed (.empty, .empty)
        (notesShell.seen sampleRodata (Vector.replicate _ none) notesSession) (e, f) ∧
      Shows s.line e ∧ s.world.shell.Holds f ∧
      (notesShell.seen sampleRodata (Vector.replicate _ none) notesSession).flatMap SeenKey.text =
        ascii "hi\n" := by
  have hedit : wordsOf isBlank (LineEditor.empty.typed (ascii "edit notes")).line.text =
      [ascii "edit", ascii "notes"] := by decide +kernel
  have hcat : wordsOf isBlank ((LineEditor.empty.typed (ascii "edit notes")).enter.typed
      (ascii "cat notes")).line.text = [ascii "cat", ascii "notes"] := by decide +kernel
  have hboot : notesShell.world.Keeps sampleRodata .empty := ShellWorld.Keeps.boot blankKernel_cold
  obtain ⟨s₁, hrun₁, hworld₁, hs₁⟩ := ShellSession.run_keys sampleRodata (Vector.replicate _ none)
    (by decide : 10#8 ∉ ascii "edit notes") (s := notesShell) shows_init
  have hpermitted₁ : s₁.Permitted sampleRodata
      (.edit (entered ([ascii "hi"] ++ [ascii "SAVE"]))) := by
    rw [ShellSession.Permitted, hs₁.bufferText_eq, hedit, hworld₁]
    exact editCovered_notes
  obtain ⟨out₂, s₂, f₂, hstep₂, -, hs₂, hk₂⟩ :=
    ShellSession.edit_spec (Vector.replicate _ none) hs₁ (hworld₁ ▸ hboot) hpermitted₁
  obtain ⟨s₃, hrun₃, hworld₃, hs₃⟩ := ShellSession.run_keys sampleRodata (Vector.replicate _ none)
    (by decide : 10#8 ∉ ascii "cat notes") hs₂
  have hpermitted₃ : s₃.Permitted sampleRodata (.key 10#8) := by
    intro _
    rw [hs₃.bufferText_eq, hcat]
    exact covered_notes
  obtain ⟨out₄, s₄, f₄, hstep₄, -⟩ :=
    ShellSession.key_spec (Vector.replicate _ none) hs₃ (hworld₃ ▸ hk₂) hpermitted₃
  have hrun : Run (ShellSession.step sampleRodata (Vector.replicate _ none))
      (ShellSession.Permitted sampleRodata) notesShell notesSession s₄ :=
    hrun₁.append (.cons hpermitted₁ (ShellSession.step_of_edit hstep₂)
      (hrun₃.append (.cons hpermitted₃ (ShellSession.step_of_key hstep₄) (.nil s₄))))
  obtain ⟨e, f, htrace, hs, hholds, -⟩ := shell_refined blankKernel_cold hrun
  exact ⟨s₄, e, f, hrun, htrace, hs, hholds, by decide +kernel⟩

end MiqOSoft
