import MiqOSoft.Shell.Commands
import MiqOSoft.Shell.Edit

/-!
The shell's commands on the RAM file system, the editor among them, over the kernel and between the
calls of other clients.

* `Files.Terminal`: what a command line does to a tree of files, and what is seen of it.
* `ShellWorld.terminalStep`, `ShellWorld.transcript`: command lines that are run, and what is seen
  of them.
* `ShellWorld.Keeps.command`, `ShellWorld.Keeps.edit`: a command returns, and does to the files what
  `Files.Does` and `Files.Edits` say.
* `terminal_refined`: so what is seen of all command lines of a run is what a tree of files shows.
-/

namespace MiqOSoft

open Machine Tiling Transition

/-! ### What is seen of a command line -/

/-- The call with which `cmd_edit` saves. -/
def saveCall (name : CString) (content : List Byte) : RamFsCall :=
  .write name (fun k => content.getD k 0#8) (BitVec.ofNat 32 content.length)

/-- What `cmd_edit` prints in front of the lines. -/
def editOpening (name : CString) (bytesRead : Word) (bytes : List Byte) : List EditEvent :=
  (if 0 ≤ bytesRead.toInt then
    [.printf editExisting [.text name, .word bytesRead],
      .printf editCurrent [.text (lineText bytes)]]
  else [.printf editCreating [.text name]]) ++ [.printf editTitle [], .printf editHelp []]

/-- What `cmd_edit` prints once the content is written. -/
def editReport (name : CString) (result : Word) : EditEvent :=
  if 0 ≤ result.toInt then .printf editSaved [.text name, .word result]
  else .printf editError [.word result]

/-- What is seen of a command line: of a command its result and the text, of the editor its result,
what it does to the outside, and the keys that it leaves. -/
inductive SeenLine
  | command (c : FileCommand) (argv : List CString) (out : Shown)
  | edit (argv : List CString) (keys : List Byte) (result : Word) (out : List EditEvent)
      (left : List Byte)

/-- The result and the text of a command. -/
def SeenLine.shown : SeenLine → Option Shown
  | .command _ _ out => some out
  | .edit _ _ _ _ _ => none

namespace Files

/-- **What the editor does** to the files, and what is seen of it: the loop over the lines begins
with the first 4095 bytes of the file, if there is one, and what it saves is written to the file. -/
inductive Edits (f : Files) (name : CString) (keys : List Byte) :
    List EditEvent → List Byte → Files → Prop
  | saved {n r : Word} {d content left : List Byte} {out : List EditEvent} {f' : Files}
      (hread : f.Step (.read name 4095#32) (n, d) f)
      (hloop : editLoop (keys.length + 1) d keys = some (.save content, left, out))
      (hwrite : f.Step (saveCall name content) (r, []) f') :
      Edits f name keys (editOpening name n d ++ out ++ [.write name content, editReport name r])
        left f'
  | quit {n : Word} {d left : List Byte} {out : List EditEvent}
      (hread : f.Step (.read name 4095#32) (n, d) f)
      (hloop : editLoop (keys.length + 1) d keys = some (.quit, left, out)) :
      Edits f name keys (editOpening name n d ++ out ++ [.printf editExited []]) left f
  | full {n : Word} {d left : List Byte} {out : List EditEvent}
      (hread : f.Step (.read name 4095#32) (n, d) f)
      (hloop : editLoop (keys.length + 1) d keys = some (.full, left, out)) :
      Edits f name keys (editOpening name n d ++ out ++
        [.printf editLimit [.word (BitVec.ofNat 32 MAX_FILE_SIZE)]]) left f

/-- **What a command line does** to the files. -/
inductive Terminal (f : Files) : SeenLine → Files → Prop
  | command {c : FileCommand} {argv : List CString} {out : Shown} {f' : Files}
      (h : f.Command c argv out f') : Terminal f (.command c argv out) f'
  | editUsage {argv : List CString} {keys : List Byte} (h : argv.length < 2) :
      Terminal f (.edit argv keys 1#32 [.printf editUsage []] keys) f
  | edit {cmd name : CString} {args : List CString} {keys left : List Byte}
      {out : List EditEvent} {f' : Files} (h : f.Edits name keys out left f') :
      Terminal f (.edit (cmd :: name :: args) keys 0#32 out left) f'

/-- What is read has at most 4095 bytes, and none of them if the result is not positive. -/
lemma Step.read_bytes {f f' : Files} {name : CString} {n : Word} {d : List Byte}
    (h : f.Step (.read name 4095#32) (n, d) f') :
    f' = f ∧ d.length < MAX_FILE_SIZE ∧ (if 0 < n.toInt then d else []) = d := by
  cases h with
  | @read _ _ p d h hfile =>
      have hlen : (d.take (4095#32).toNat).length ≤ 4095 := List.length_take_le _ _
      refine ⟨rfl, hlen.trans_lt (by decide), ?_⟩
      split_ifs with hpos
      · rfl
      · rw [toInt_ofNat (by omega)] at hpos
        exact (List.length_eq_zero_iff.mp (by omega)).symm
  | readMissing h => exact ⟨rfl, by decide, ite_self []⟩
  | readDirectory h hdir => exact ⟨rfl, by decide, ite_self []⟩

end Files

/-! ### Command lines over the kernel -/

/-- A command line, a command line of the editor with the keys that are typed behind it, or a call
that another client makes of the kernel. -/
inductive TerminalEvent
  | command (c : FileCommand) (argv : List CString)
  | edit (argv : List CString) (keys : List Byte)
  | other (c : Call)

namespace ShellWorld

/-- A command line is run, or another client makes a call. -/
def terminalStep (L : Rodata) (w : ShellWorld) : TerminalEvent → Option ShellWorld
  | .command c argv => (c.run sysCalls argv w.shell).map fun r => ⟨r.2, w.others⟩
  | .edit argv keys => (cmdEdit sysCalls argv keys w.shell).map fun r => ⟨r.2.2.1, w.others⟩
  | .other c => w.step L (.other c)

/-- The session of the editor ends in front of the keys `left`, and what is saved then fills no
buffer to the last byte. -/
def EndsEdit (w : ShellWorld) (name : CString) (keys left : List Byte) : Prop :=
  ∃ e out, editLoop (keys.length + 1) (ramfsReadFile name 4095#32 w.shell).2 keys =
      some (e, left, out) ∧
    ∀ content, e = .save content → w.shell.Leaves sysCalls (saveCall name content)

/-- The names of commands have at most 31 characters, and `cd` has an argument; the keys of the
editor end its session; the calls of the other clients corrupt no memory. -/
def Permitted (L : Rodata) (w : ShellWorld) : TerminalEvent → Prop
  | .command c argv => (∀ name ∈ argv[1]?, name.chars.length ≤ 31) ∧ (c = .cd → 2 ≤ argv.length)
  | .edit argv keys => ∀ name ∈ argv[1]?, name.chars.length ≤ 31 ∧ ∃ left, w.EndsEdit name keys left
  | .other c => w.Tame L (.other c)

/-- What is seen of the command lines, along a run. -/
def transcript (L : Rodata) : ShellWorld → List TerminalEvent → List SeenLine
  | _, [] => []
  | w, .command c argv :: es =>
      match c.run sysCalls argv w.shell with
      | some r => .command c argv r.1 :: transcript L ⟨r.2, w.others⟩ es
      | none => []
  | w, .edit argv keys :: es =>
      match cmdEdit sysCalls argv keys w.shell with
      | some (result, out, s, left) =>
          .edit argv keys result out left :: transcript L ⟨s, w.others⟩ es
      | none => []
  | w, .other c :: es =>
      match w.step L (.other c) with
      | some u => transcript L u es
      | none => []

variable {L : Rodata} {w w' : ShellWorld} {f : Files}

/-- A write of nothing fills no buffer. -/
lemma tame_touch (w : ShellWorld) (name : CString) :
    w.Tame L (.ramfs (.write name emptyString.byte 0#32)) := by
  refine ⟨fun size h => ?_, Shell.not_fills (by decide) _ _⟩
  obtain rfl := Option.some.inj h
  decide

lemma tame_of_writes_none {c : RamFsCall} (w : ShellWorld) (h : c.writes = none) :
    w.Tame L (.ramfs c) := by
  refine ⟨fun size hs => absurd (hs.symm.trans h) (Option.some_ne_none size), ?_⟩
  cases c with
  | write name data size => exact absurd h (Option.some_ne_none size)
  | create | delete | read | cd => trivial

namespace Keeps

/-- A command that makes one call, and reports what it returns. -/
lemma does_of_call (h : w.Keeps L f) {c : FileCommand} {name : CString} {call : RamFsCall}
    {report : Word × List Byte → Option Shown} (hcall : w.Tame L (.ramfs call))
    (huncut : call.Uncut)
    (hreport : ∀ r f', f.Step call r f' → ∃ out, report r = some out ∧ f.Does c name out f') :
    ∃ out f', (report (w.shell.reply sysCalls call)).map
        (fun out => (out, (w.shell.call sysCalls call).2)) =
          some (out, (w.shell.call sysCalls call).2) ∧
      f.Does c name out f' ∧ Keeps L ⟨(w.shell.call sysCalls call).2, w.others⟩ f' := by
  obtain ⟨f', hstep, hkeeps⟩ := h.call hcall huncut
  obtain ⟨out, hout, hdoes⟩ := hreport _ _ hstep
  exact ⟨out, f', by rw [hout, Option.map_some], hdoes, hkeeps⟩

/-- **A command with a name.** -/
lemma does (h : w.Keeps L f) (c : FileCommand) (cmd : CString) {name : CString}
    (args : List CString) (hname : name.chars.length ≤ 31) :
    ∃ out s' f', c.run sysCalls (cmd :: name :: args) w.shell = some (out, s') ∧
      f.Does c name out f' ∧ Keeps L ⟨s', w.others⟩ f' := by
  have hinit := ramfsInit_of_initialized h.initialized
  cases c with
  | mkdir =>
      have hcall : w.Tame L (.ramfs (.create name 1#32)) := tame_of_writes_none w rfl
      obtain ⟨out, f', hrun, hdoes⟩ := h.does_of_call hcall hname fun r f' hstep => hstep.mkdir
      refine ⟨out, _, f', ?_, hdoes⟩
      simp only [FileCommand.run, cmdMkdir, withName, hinit]
      exact hrun
  | rm =>
      have hcall : w.Tame L (.ramfs (.delete name)) := tame_of_writes_none w rfl
      obtain ⟨out, f', hrun, hdoes⟩ := h.does_of_call hcall hname fun r f' hstep => hstep.rm
      refine ⟨out, _, f', ?_, hdoes⟩
      simp only [FileCommand.run, cmdRm, withName, hinit]
      exact hrun
  | cat =>
      have hcall : w.Tame L (.ramfs (.read name 4095#32)) := tame_of_writes_none w rfl
      obtain ⟨out, f', hrun, hdoes⟩ := h.does_of_call hcall hname fun r f' hstep => hstep.cat
      refine ⟨out, _, f', ?_, hdoes⟩
      simp only [FileCommand.run, cmdCat, withName, hinit]
      exact hrun
  | wc =>
      have hcall : w.Tame L (.ramfs (.read name 4095#32)) := tame_of_writes_none w rfl
      obtain ⟨out, f', hrun, hdoes⟩ := h.does_of_call hcall hname fun r f' hstep => hstep.wc
      refine ⟨out, _, f', ?_, hdoes⟩
      simp only [FileCommand.run, cmdWc, withName, hinit]
      exact hrun
  | touch =>
      simp only [FileCommand.run, cmdTouch, withName, hinit]
      cases hfind : ramfsFindFile name w.shell.ramfs.currentDir w.shell.ramfs with
      | some i =>
          obtain ⟨p, hlookup, -⟩ := h.holds.node_of_find h.ordered hfind
          have hout : shown 0#32 touchExists [.text name] =
              some (0#32, named "File '" name "' already exists\n") :=
            shown_named (by decide +kernel)
          exact ⟨_, w.shell, f, congrArg (Option.map fun out => (out, _)) hout,
            .touchExists hlookup, h⟩
      | none =>
          have hlookup := h.holds.lookup_of_not_find h.ordered hfind
          obtain ⟨out, f', hrun, hdoes⟩ := h.does_of_call (tame_touch w name) hname
            fun r f' hstep => hstep.touch hlookup
          exact ⟨out, _, f', hrun, hdoes⟩
  | cd =>
      have huncut : RamFsCall.Uncut (.cd (some name)) := by
        rintro target ⟨⟩
        exact hname
      have hcall : w.Tame L (.ramfs (.cd (some name))) := tame_of_writes_none w rfl
      obtain ⟨f', hstep, hkeeps⟩ := h.call hcall huncut
      obtain ⟨out, hout, hdoes⟩ := h.holds.cdReport h.ordered hstep
      refine ⟨out, _, f', ?_, hdoes, hkeeps⟩
      simp only [FileCommand.run, cmdCdTo, hinit]
      exact congrArg (Option.map fun out => (out, _)) hout

/-- **A command** returns, and does what is said of it. -/
theorem command (h : w.Keeps L f) {c : FileCommand} {argv : List CString}
    (hok : w.Permitted L (.command c argv)) :
    ∃ out s' f', c.run sysCalls argv w.shell = some (out, s') ∧ f.Command c argv out f' ∧
      Keeps L ⟨s', w.others⟩ f' := by
  by_cases hlen : argv.length < 2
  · have hc : c ≠ .cd := fun hc => absurd (hok.2 hc) (not_le.mpr hlen)
    exact ⟨_, w.shell, f, FileCommand.run_usage hc hlen, .usage hlen, h⟩
  · obtain ⟨cmd, name, args, rfl⟩ : ∃ cmd name args, argv = cmd :: name :: args := by
      cases argv with
      | nil => exact absurd Nat.zero_lt_two hlen
      | cons cmd argv =>
          cases argv with
          | nil => exact absurd Nat.one_lt_two hlen
          | cons name args => exact ⟨cmd, name, args, rfl⟩
    obtain ⟨out, s', f', hrun, hdoes, hkeeps⟩ := h.does c cmd args (hok.1 name rfl)
    exact ⟨out, s', f', hrun, .does hdoes, hkeeps⟩

/-- **The editor** returns, and does what is said of it. -/
theorem edit (h : w.Keeps L f) (cmd : CString) {name : CString} (args : List CString)
    {keys left : List Byte} (hname : name.chars.length ≤ 31) (hends : w.EndsEdit name keys left) :
    ∃ out s' f', cmdEdit sysCalls (cmd :: name :: args) keys w.shell = some (0#32, out, s', left) ∧
      f.Edits name keys out left f' ∧ Keeps L ⟨s', w.others⟩ f' := by
  have hinit := ramfsInit_of_initialized h.initialized
  obtain ⟨e, out, hloop, hleaves⟩ := hends
  have hread : f.Step (.read name 4095#32) (ramfsReadFile name 4095#32 w.shell) f :=
    h.holds.read h.ordered 4095#32
  cases hr : ramfsReadFile name 4095#32 w.shell with
  | mk n d =>
  rw [hr] at hread hloop
  obtain ⟨-, hlen, hcontent⟩ := hread.read_bytes
  simp only [cmdEdit, hinit, hr, hcontent, hloop, Option.bind_eq_bind, Option.bind_some]
  cases e with
  | save content =>
      have hcall : w.Tame L (.ramfs (saveCall name content)) := by
        refine ⟨fun size hsize => ?_, hleaves content rfl⟩
        obtain rfl := Option.some.inj hsize
        have hlt := length_lt_of_editLoop_save hlen hloop
        rw [BitVec.toNat_ofNat]
        exact (Nat.mod_le _ _).trans hlt.le
      obtain ⟨f', hwrite, hkeeps⟩ := h.call hcall hname
      refine ⟨_, _, f', ?_, .saved hread hloop hwrite, hkeeps⟩
      simp only [editOpening, editReport, List.append_assoc]
      rfl
  | quit => exact ⟨_, w.shell, f, rfl, .quit hread hloop, h⟩
  | full => exact ⟨_, w.shell, f, rfl, .full hread hloop, h⟩

/-- A command line of the editor. -/
lemma editCommand (h : w.Keeps L f) {argv : List CString} {keys : List Byte}
    (hok : w.Permitted L (.edit argv keys)) :
    ∃ result out s' left f', cmdEdit sysCalls argv keys w.shell = some (result, out, s', left) ∧
      f.Terminal (.edit argv keys result out left) f' ∧ Keeps L ⟨s', w.others⟩ f' := by
  match argv with
  | [] => exact ⟨_, _, _, _, f, rfl, .editUsage Nat.zero_lt_two, h⟩
  | [cmd] => exact ⟨_, _, _, _, f, rfl, .editUsage Nat.one_lt_two, h⟩
  | cmd :: name :: args =>
      obtain ⟨hname, left, hends⟩ := hok name rfl
      obtain ⟨out, s', f', hrun, hedits, hkeeps⟩ := h.edit cmd args hname hends
      exact ⟨_, out, s', left, f', hrun, .edit hedits, hkeeps⟩

end Keeps

/-- What is permitted returns, and does what the files do. -/
lemma Keeps.terminalStep (h : w.Keeps L f) {e : TerminalEvent} (he : w.Permitted L e)
    (es : List TerminalEvent) : ∃ w' f' os, w.terminalStep L e = some w' ∧
      Trace Files.Terminal f os f' ∧ transcript L w (e :: es) = os ++ transcript L w' es ∧
      w'.Keeps L f' := by
  cases e with
  | command c argv =>
      obtain ⟨out, s', f', hout, hcommand, hkeeps⟩ := h.command he
      refine ⟨⟨s', w.others⟩, f', [.command c argv out], ?_, .cons (.command hcommand) (.nil f'),
        ?_, hkeeps⟩
      · rw [ShellWorld.terminalStep, hout, Option.map_some]
      · rw [transcript, hout]
        rfl
  | edit argv keys =>
      obtain ⟨result, out, s', left, f', hout, hedit, hkeeps⟩ := h.editCommand he
      refine ⟨⟨s', w.others⟩, f', [.edit argv keys result out left], ?_, .cons hedit (.nil f'),
        ?_, hkeeps⟩
      · rw [ShellWorld.terminalStep, hout, Option.map_some]
      · rw [transcript, hout]
        rfl
  | other c =>
      obtain ⟨owned, l, hsound⟩ := h.sound
      obtain ⟨w', hstep⟩ := step_isSome (e := .other c) hsound he
      refine ⟨w', f, [], hstep, .nil f, ?_, h.other he hstep⟩
      rw [transcript, hstep]
      rfl

/-- The run of a shell that holds files. -/
lemma run_keeps {es : List TerminalEvent}
    (hrun : Run (terminalStep L) (Permitted L) w es w') (h : w.Keeps L f) :
    ∃ f', Trace Files.Terminal f (transcript L w es) f' ∧ w'.Keeps L f' := by
  induction hrun generalizing f with
  | nil w => exact ⟨f, .nil f, h⟩
  | @cons w u v e es he hstep _ ih =>
      obtain ⟨u', f', os, hstep', htrace, hseen, hkeeps⟩ := h.terminalStep he es
      obtain rfl := Option.some.inj (hstep'.symm.trans hstep)
      obtain ⟨f'', htrace', hkeeps'⟩ := ih hkeeps
      exact ⟨f'', hseen ▸ htrace.append htrace', hkeeps'⟩

end ShellWorld

/-- **The terminal shows a tree of files.**  Whatever command lines are run, with any text that is
typed in the editor and between the calls of the other clients of the kernel, what the commands
return and print is what a tree of directories and files shows, the shell holds that tree in the
end, and every permitted command line returns. -/
theorem terminal_refined {L : Rodata} {k : Kernel} {es : List TerminalEvent} {w : ShellWorld}
    (hk : k.Cold)
    (hrun : Run (ShellWorld.terminalStep L) (ShellWorld.Permitted L) (ShellWorld.boot L k) es w) :
    ∃ f, Trace Files.Terminal .empty (ShellWorld.transcript L (ShellWorld.boot L k) es) f ∧
      w.shell.Holds f ∧
      ∀ e, w.Permitted L e → ∃ w', ShellWorld.terminalStep L w e = some w' := by
  obtain ⟨f, htrace, hkeeps⟩ := ShellWorld.run_keeps hrun (.boot hk)
  refine ⟨f, htrace, hkeeps.holds, fun e he => ?_⟩
  obtain ⟨w', -, -, hstep, -⟩ := hkeeps.terminalStep he []
  exact ⟨w', hstep⟩

/-- The name of a file. -/
def notesName : CString := ⟨ascii "notes", by decide⟩

/-- A line of text is typed in the editor and saved, displayed, and counted. -/
def notesLines : List TerminalEvent := [
  .edit [⟨ascii "edit", by decide⟩, notesName] (entered ([ascii "hi"] ++ [ascii "SAVE"])),
  .command .cat [⟨ascii "cat", by decide⟩, notesName],
  .command .wc [⟨ascii "wc", by decide⟩, notesName]]

/-- The session of the editor ends, and three bytes are saved. -/
lemma endsEdit_notes :
    startWorld.EndsEdit notesName (entered ([ascii "hi"] ++ [ascii "SAVE"])) [] := by
  have hread : (ramfsReadFile notesName 4095#32 startWorld.shell).2 = [] := by decide +kernel
  have hkept : ∀ l ∈ [ascii "hi"] ++ [ascii "SAVE"], (∀ c ∈ l, ¬IsArrow c) ∧ l.length < 255 := by
    decide +kernel
  obtain ⟨out, hloop⟩ : ∃ out, editLoop 9 [] (entered ([ascii "hi"] ++ [ascii "SAVE"])) =
      some (.save ([] ++ entered ([ascii "hi"].map typedLine)), [], out) :=
    editLoop_of_kept (by decide +kernel)
      (fun l hl => lineKept_of_length_lt (hkept l hl).1 (hkept l hl).2) (by decide +kernel)
      (by decide +kernel) (fun _ => by decide +kernel) (by decide)
  refine ⟨_, out, by rw [hread]; exact hloop, ?_⟩
  rintro content ⟨⟩
  exact Shell.not_fills (by decide +kernel) _ _

/-- What is typed in the editor is displayed and counted. -/
theorem terminal_refined_notes : ∃ w f,
    Run (ShellWorld.terminalStep sampleRodata) (ShellWorld.Permitted sampleRodata) startWorld
        notesLines w ∧
      Trace Files.Terminal .empty (ShellWorld.transcript sampleRodata startWorld notesLines) f ∧
      w.shell.Holds f ∧
      (ShellWorld.transcript sampleRodata startWorld notesLines).filterMap SeenLine.shown =
        [(0#32, ascii "hi\n"),
          (0#32, ascii "  1 lines, 1 words, 3 characters, Filename: notes\n")] := by
  have hname : notesName.chars.length ≤ 31 := by decide
  have hnamed : ∀ (w : ShellWorld) (c : FileCommand) (cmd : CString), c ≠ .cd →
      w.Permitted sampleRodata (.command c [cmd, notesName]) := by
    refine fun w c cmd hc => ⟨?_, fun h => absurd h hc⟩
    rintro name ⟨⟩
    exact hname
  have hedit : startWorld.Permitted sampleRodata (.edit [⟨ascii "edit", by decide⟩, notesName]
      (entered ([ascii "hi"] ++ [ascii "SAVE"]))) := by
    rintro name ⟨⟩
    exact ⟨hname, [], endsEdit_notes⟩
  obtain ⟨w₁, f₁, -, hstep₁, -, -, hkeeps₁⟩ :=
    (ShellWorld.Keeps.boot blankKernel_cold).terminalStep hedit []
  obtain ⟨w₂, f₂, -, hstep₂, -, -, hkeeps₂⟩ :=
    hkeeps₁.terminalStep (hnamed w₁ .cat ⟨ascii "cat", by decide⟩ (by decide)) []
  obtain ⟨w₃, f₃, -, hstep₃, -⟩ :=
    hkeeps₂.terminalStep (hnamed w₂ .wc ⟨ascii "wc", by decide⟩ (by decide)) []
  have hrun : Run (ShellWorld.terminalStep sampleRodata) (ShellWorld.Permitted sampleRodata)
      startWorld notesLines w₃ :=
    .cons hedit hstep₁ (.cons (hnamed w₁ .cat _ (by decide)) hstep₂
      (.cons (hnamed w₂ .wc _ (by decide)) hstep₃ (.nil w₃)))
  obtain ⟨f, htrace, hholds, -⟩ := terminal_refined blankKernel_cold hrun
  exact ⟨w₃, f, hrun, htrace, hholds, by decide +kernel⟩

end MiqOSoft
