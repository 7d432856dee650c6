import MiqOSoft.Editing.Words
import MiqOSoft.Kernel.Printf
import MiqOSoft.Shell.RamFs

/-!
The command `cmd_grep` of `shell_commands.c`, with `shell_strchr` and `shell_strstr` of `shell.c`.

* `shellStrchr`, `shellStrstr`: the searches, in the bytes from a pointer on.  A search that leaves
  the bytes has no result.
* `grepLoop`: the loop over the lines, which puts a NUL in the place of each newline and restores
  it.  What each `printf` emits is written down.
* `shellStrstr_eq`: the search finds a pattern exactly where it occurs.
* `grepLoop_eq`, `cmdGrep_prints_matches`: the lines printed are those with the pattern.
-/

namespace MiqOSoft

open Machine Editing

/-! ### The searches -/

/-- `shell_strchr`: how far the character is away, or `some none` if it is not in the string. -/
def shellStrchr (c : Byte) : List Byte → Option (Option ℕ)
  | [] => none
  | a :: str =>
      if a ≠ 0#8 then
        if a = c then some (some 0) else (shellStrchr c str).map fun r => r.map (· + 1)
      else if a = c then some (some 0) else some none

/-- The inner loop of `shell_strstr`: whether it reaches the end of the needle. -/
def matchesAt : List Byte → List Byte → Option Bool
  | [], _ => none
  | _ :: _, [] => some true
  | a :: h, b :: n => if a ≠ 0#8 ∧ b ≠ 0#8 ∧ a = b then matchesAt h n else some false

/-- `shell_strstr`: how far the needle is away, or `some none` if it does not occur. -/
def shellStrstr (needle : CString) (haystack : List Byte) : Option (Option ℕ) :=
  if needle.chars = [] then some (some 0) else go haystack
where
  /-- The outer loop. -/
  go : List Byte → Option (Option ℕ)
    | [] => none
    | a :: haystack =>
        if a ≠ 0#8 then do
          let found ← matchesAt (a :: haystack) needle.chars
          if found then some (some 0) else (go haystack).map fun r => r.map (· + 1)
        else some none

/-! ### The command -/

/-- `"Usage: grep <pattern> <filename>\n"`. -/
def grepUsage : CString := ⟨ascii "Usage: grep <pattern> <filename>\n", by decide⟩

/-- `"grep: Cannot read '%s'\n"`. -/
def grepCannotRead : CString := ⟨ascii "grep: Cannot read '%s'\n", by decide⟩

/-- `"%d: %s\n"`. -/
def grepLine : CString := ⟨ascii "%d: %s\n", by decide⟩

/-- `"Pattern '%s' not found in '%s'\n"`. -/
def grepNotFound : CString := ⟨ascii "Pattern '%s' not found in '%s'\n", by decide⟩

/-- What `printf` emits. -/
def printed (fmt : CString) (args : VaList) : Option (List Byte) :=
  (vfprintf fmt args).map fun r => r.1

/-- The string at a place of a buffer. -/
def stringAt (buffer : List Byte) (k : ℕ) : CString :=
  ⟨textOf (buffer.drop k), zero_notMem_textOf _⟩

/-- The loop of `cmd_grep`: `found` and what was printed when it is left, or `none` if it takes more
turns than given. -/
def grepLoop (pattern : CString) :
    ℕ → List Byte → ℕ → Word → Bool → List (List Byte) → Option (Bool × List (List Byte))
  | 0, _, _, _, _, _ => none
  | turns + 1, buffer, lineStart, lineNum, found, out => do
      let c ← buffer[lineStart]?
      if c = 0#8 then some (found, out)
      else
        let lineEnd ← shellStrchr 10#8 (buffer.drop lineStart)
        let buffer :=
          match lineEnd with
          | some k => buffer.set (lineStart + k) 0#8
          | none => buffer
        let hit ← shellStrstr pattern (buffer.drop lineStart)
        let (found, out) ←
          if hit.isSome then
            (printed grepLine [.word lineNum, .text (stringAt buffer lineStart)]).map fun text =>
              (true, out ++ [text])
          else some (found, out)
        match lineEnd with
        | none => some (found, out)
        | some k =>
            grepLoop pattern turns (buffer.set (lineStart + k) 10#8) (lineStart + k + 1)
              (lineNum + 1#32) found out

/-- `cmd_grep`: the result, what was printed, and the state.  `stack` is what the local buffer
holds before. -/
def cmdGrep {σ : Type} (argv : List CString) (stack : List Byte) (s : Shell σ) :
    Option (Word × List (List Byte) × Shell σ) :=
  match argv with
  | _ :: pattern :: filename :: _ => do
      let s := ramfsInit s
      let (bytesRead, bytes) := ramfsReadFile filename 4095#32 s
      if bytesRead.toInt < 0 then
        let text ← printed grepCannotRead [.text filename]
        some (1#32, [text], s)
      else
        let buffer := bytes ++ 0#8 :: stack.drop (bytes.length + 1)
        let (found, out) ← grepLoop pattern (buffer.length + 1) buffer 0 1#32 false []
        if found then some (0#32, out, s)
        else
          let text ← printed grepNotFound [.text pattern, .text filename]
          some (0#32, out ++ [text], s)
  | _ => do
      let text ← printed grepUsage []
      some (1#32, [text], s)

/-! ### What the searches find -/

variable {line rest junk : List Byte}

/-- A string without the character. -/
lemma shellStrchr_of_notMem {c : Byte} (hc : c ≠ 0#8) (hline : c ∉ line) (hnul : 0#8 ∉ line)
    (junk : List Byte) : shellStrchr c (line ++ 0#8 :: junk) = some none := by
  induction line with
  | nil =>
      rw [List.nil_append, shellStrchr, if_neg (by simp), if_neg (Ne.symm hc)]
  | cons a line ih =>
      rw [List.mem_cons, not_or] at hline hnul
      rw [List.cons_append, shellStrchr, if_pos (Ne.symm hnul.1), if_neg (Ne.symm hline.1),
        ih hline.2 hnul.2]
      rfl

/-- The first place of the character. -/
lemma shellStrchr_append_cons {c : Byte} (hc : c ≠ 0#8) (hline : c ∉ line) (hnul : 0#8 ∉ line)
    (rest : List Byte) : shellStrchr c (line ++ c :: rest) = some (some line.length) := by
  induction line with
  | nil => rw [List.nil_append, shellStrchr, if_pos hc, if_pos rfl, List.length_nil]
  | cons a line ih =>
      rw [List.mem_cons, not_or] at hline hnul
      rw [List.cons_append, shellStrchr, if_pos (Ne.symm hnul.1), if_neg (Ne.symm hline.1),
        ih hline.2 hnul.2]
      rfl

/-- The inner loop reaches the end of the needle exactly if the string begins with it. -/
lemma matchesAt_eq {needle : List Byte} (hneedle : 0#8 ∉ needle) (hnul : 0#8 ∉ line)
    (junk : List Byte) :
    matchesAt (line ++ 0#8 :: junk) needle = some (decide (needle <+: line)) := by
  induction needle generalizing line with
  | nil => cases line <;> simp [matchesAt]
  | cons b needle ih =>
      obtain ⟨hb, hneedle⟩ := not_or.mp (mt List.mem_cons.mpr hneedle)
      cases line with
      | nil => simp [matchesAt]
      | cons a line =>
          obtain ⟨ha, hnul⟩ := not_or.mp (mt List.mem_cons.mpr hnul)
          rw [List.cons_append, matchesAt]
          by_cases hab : a = b
          · rw [if_pos ⟨Ne.symm ha, Ne.symm hb, hab⟩, ih hneedle hnul]
            simp [hab]
          · rw [if_neg fun hall => hab hall.2.2]
            simp [Ne.symm hab]

/-- **The search** finds a needle exactly if it occurs in the string. -/
theorem shellStrstr_eq (needle : CString) (hneedle : needle.chars ≠ []) (hnul : 0#8 ∉ line)
    (junk : List Byte) :
    ∃ r, shellStrstr needle (line ++ 0#8 :: junk) = some r ∧
      r.isSome = decide (needle.chars <:+: line) := by
  rw [shellStrstr, if_neg hneedle]
  induction line with
  | nil =>
      refine ⟨none, ?_, ?_⟩
      · rw [List.nil_append, shellStrstr.go, if_neg (by simp)]
      · simp [hneedle]
  | cons a line ih =>
      have hall := hnul
      obtain ⟨ha, hnul⟩ := not_or.mp (mt List.mem_cons.mpr hnul)
      have hmatch := matchesAt_eq needle.noNul hall junk
      rw [List.cons_append] at hmatch ⊢
      rw [shellStrstr.go, if_pos (Ne.symm ha), hmatch]
      by_cases hstart : needle.chars <+: a :: line
      · refine ⟨some 0, ?_, ?_⟩
        · simp [hstart]
        · simp [hstart.isInfix]
      · obtain ⟨r, hr, hfound⟩ := ih hnul
        refine ⟨r.map (· + 1), ?_, ?_⟩
        · simp [hstart, hr]
        · simp [List.infix_cons_iff, hstart, hfound]

/-! ### What is printed -/

/-- A line with its number. -/
def grepLineText (line : List Byte × ℕ) : List Byte :=
  digitText 10 line.2 ++ ascii ": " ++ line.1 ++ ascii "\n"

/-- The report that there is no such line. -/
def grepNotFoundText (pattern filename : CString) : List Byte :=
  ascii "Pattern '" ++ pattern.chars ++ ascii "' not found in '" ++ filename.chars ++ ascii "'\n"

lemma printed_grepLine {n : ℕ} (hn : n < 2 ^ 31) (line : CString) :
    printed grepLine [.word (BitVec.ofNat 32 n), .text line] =
      some (grepLineText (line.chars, n)) := by
  have hsegments : segments grepLine.chars = .conversion .default (ch 'd') ::
      ((ascii ": ").map .literal ++ .conversion .default (ch 's') ::
        ((ascii "\n").map .literal ++ [])) := by decide +kernel
  rw [printed, vfprintf_render, hsegments, renderAll_decimal hn, renderAll_literals,
    renderAll_string, renderAll_literals, renderAll]
  simp only [Option.map_some, List.append_nil, grepLineText, List.append_assoc]

lemma printed_grepNotFound (pattern filename : CString) :
    printed grepNotFound [.text pattern, .text filename] =
      some (grepNotFoundText pattern filename) := by
  have hsegments : segments grepNotFound.chars =
      (ascii "Pattern '").map .literal ++ .conversion .default (ch 's') ::
        ((ascii "' not found in '").map .literal ++ .conversion .default (ch 's') ::
          ((ascii "'\n").map .literal ++ [])) := by decide +kernel
  rw [printed, vfprintf_render, hsegments, renderAll_literals, renderAll_string,
    renderAll_literals, renderAll_string, renderAll_literals, renderAll]
  simp only [Option.map_some, List.append_nil, grepNotFoundText, List.append_assoc]

/-- The lines of a text that contain the pattern, with their numbers, the first of which is
given. -/
def numberedMatches (pattern content : List Byte) (first : ℕ) : List (List Byte × ℕ) :=
  ((linesOf (fun c => c = 10#8) content).zipIdx first).filter fun l => pattern <:+: l.1

lemma numberedMatches_nil (pattern : List Byte) (first : ℕ) :
    numberedMatches pattern [] first = [] := rfl

lemma numberedMatches_last {pattern : List Byte} (hline : 10#8 ∉ line) (hne : line ≠ [])
    (first : ℕ) : numberedMatches pattern line first =
      if pattern <:+: line then [(line, first)] else [] := by
  have hlines : linesOf (fun c => decide (c = 10#8)) line = [line] :=
    linesOf_of_forall (fun d hd => decide_eq_false fun heq => hline (heq ▸ hd)) hne
  rw [numberedMatches, hlines, List.zipIdx_singleton, List.filter_singleton]
  by_cases hin : pattern <:+: line <;> simp [hin]

lemma numberedMatches_append_cons {pattern : List Byte} (hline : 10#8 ∉ line) (rest : List Byte)
    (first : ℕ) : numberedMatches pattern (line ++ 10#8 :: rest) first =
      (if pattern <:+: line then [(line, first)] else []) ++
        numberedMatches pattern rest (first + 1) := by
  have hlines : linesOf (fun c => decide (c = 10#8)) (line ++ 10#8 :: rest) =
      line :: linesOf (fun c => decide (c = 10#8)) rest :=
    linesOf_append_cons (fun d hd => decide_eq_false fun heq : d = 10#8 => hline (heq ▸ hd))
      (decide_eq_true rfl) rest
  rw [numberedMatches, hlines, List.zipIdx_cons, List.filter_cons, numberedMatches]
  by_cases hin : pattern <:+: line <;> simp [hin]

/-- The string at a place of a buffer, where a NUL ends it. -/
lemma chars_stringAt {pre : List Byte} (hnul : 0#8 ∉ line) :
    (stringAt (pre ++ (line ++ 0#8 :: junk)) pre.length).chars = line := by
  change textOf ((pre ++ (line ++ 0#8 :: junk)).drop pre.length) = line
  rw [List.drop_left]
  refine textOf_eq hnul (by simp) fun k hk => ?_
  rcases hk.lt_or_eq with hlt | rfl
  · exact List.getD_append _ _ _ _ hlt
  · rw [List.getD_append_right _ _ _ _ le_rfl, Nat.sub_self, List.getD_cons_zero,
      List.getD_eq_default _ _ le_rfl]

/-- What a turn of the loop does with a line, once the line is a string. -/
lemma grepLine_turn (pattern : CString) (hpattern : pattern.chars ≠ []) {n : ℕ}
    (pre : List Byte) (hnul : 0#8 ∉ line) (hn : n < 2 ^ 31) (junk : List Byte) :
    ∃ r, shellStrstr pattern ((pre ++ (line ++ 0#8 :: junk)).drop pre.length) = some r ∧
      r.isSome = decide (pattern.chars <:+: line) ∧
      printed grepLine [.word (BitVec.ofNat 32 n),
        .text (stringAt (pre ++ (line ++ 0#8 :: junk)) pre.length)] =
          some (grepLineText (line, n)) := by
  obtain ⟨r, hr, hfound⟩ := shellStrstr_eq pattern hpattern hnul junk
  refine ⟨r, by rwa [List.drop_left], hfound, ?_⟩
  rw [printed_grepLine hn, chars_stringAt hnul]

/-- **The loop** prints the lines with the pattern among those it has not come through yet. -/
theorem grepLoop_eq (pattern : CString) (hpattern : pattern.chars ≠ []) {turns n : ℕ}
    (pre : List Byte) (found : Bool) (out : List (List Byte)) (hnul : 0#8 ∉ rest)
    (hturns : rest.length < turns) (hn : n + rest.length < 2 ^ 31) (junk : List Byte) :
    grepLoop pattern turns (pre ++ (rest ++ 0#8 :: junk)) pre.length (BitVec.ofNat 32 n) found out =
      some (found || !(numberedMatches pattern.chars rest n).isEmpty,
        out ++ (numberedMatches pattern.chars rest n).map grepLineText) := by
  induction turns generalizing rest pre n found out with
  | zero => exact absurd hturns (Nat.not_lt_zero _)
  | succ turns ih =>
      rcases forall_or_exists_append (fun c => decide (c = 10#8)) rest with hlast |
        ⟨line, c, tail, rfl, hline, hc⟩
      · have hline : 10#8 ∉ rest := fun hmem => absurd (hlast _ hmem) (by simp)
        have hend : shellStrchr 10#8 ((pre ++ (rest ++ 0#8 :: junk)).drop pre.length) =
            some none := by
          rw [List.drop_left]
          exact shellStrchr_of_notMem (by decide) hline hnul junk
        cases rest with
        | nil => simp [grepLoop, numberedMatches_nil]
        | cons a rest =>
            have ha : a ≠ 0#8 := fun hzero => hnul (hzero ▸ List.mem_cons_self)
            have hfirst : (pre ++ (a :: rest ++ 0#8 :: junk))[pre.length]? = some a := by simp
            obtain ⟨r, hstrstr, hfound, htext⟩ :=
              grepLine_turn pattern hpattern pre hnul (by omega : n < 2 ^ 31) junk
            rw [grepLoop, numberedMatches_last hline (List.cons_ne_nil a rest)]
            simp only [hfirst, Option.bind_eq_bind, Option.bind_some, if_neg ha, hend, hstrstr,
              htext, hfound, decide_eq_true_eq]
            by_cases hin : pattern.chars <:+: a :: rest <;> simp [hin]
      · obtain rfl : c = 10#8 := of_decide_eq_true hc
        have hline : 10#8 ∉ line := fun hmem => absurd (hline _ hmem) (by simp)
        obtain ⟨hnul, htail⟩ : 0#8 ∉ line ∧ 0#8 ∉ tail := by
          simp only [List.mem_append, List.mem_cons, not_or] at hnul
          exact ⟨hnul.1, hnul.2.2⟩
        rw [List.length_append, List.length_cons] at hturns hn
        set buffer := pre ++ (line ++ 10#8 :: tail ++ 0#8 :: junk) with hbuffer
        have hsplit : buffer = pre ++ (line ++ 10#8 :: (tail ++ 0#8 :: junk)) := by
          rw [hbuffer, List.append_assoc, List.cons_append]
        obtain ⟨a, hfirst, ha⟩ : ∃ a, buffer[pre.length]? = some a ∧ a ≠ 0#8 := by
          cases line with
          | nil => exact ⟨10#8, by simp [hsplit], by decide⟩
          | cons a line => exact ⟨a, by simp [hsplit], fun hz => hnul (hz ▸ List.mem_cons_self)⟩
        have hend : shellStrchr 10#8 (buffer.drop pre.length) = some (some line.length) := by
          rw [hsplit, List.drop_left]
          exact shellStrchr_append_cons (by decide) hline hnul _
        have hcut : buffer.set (pre.length + line.length) 0#8 =
            pre ++ (line ++ 0#8 :: (tail ++ 0#8 :: junk)) := by
          rw [hsplit, List.set_append_right _ _ (Nat.le_add_right _ _), Nat.add_sub_cancel_left,
            List.set_append_right _ _ le_rfl, Nat.sub_self, List.set_cons_zero]
        have hrestored : (pre ++ (line ++ 0#8 :: (tail ++ 0#8 :: junk))).set
            (pre.length + line.length) 10#8 = pre ++ line ++ [10#8] ++ (tail ++ 0#8 :: junk) := by
          rw [List.set_append_right _ _ (Nat.le_add_right _ _), Nat.add_sub_cancel_left,
            List.set_append_right _ _ le_rfl, Nat.sub_self, List.set_cons_zero]
          simp
        have hnext : pre.length + line.length + 1 = (pre ++ line ++ [10#8]).length := by
          simp only [List.length_append, List.length_singleton]
        have hnum : BitVec.ofNat 32 n + 1#32 = BitVec.ofNat 32 (n + 1) :=
          (BitVec.ofNat_add _ _).symm
        obtain ⟨r, hstrstr, hfound, htext⟩ := grepLine_turn pattern hpattern pre hnul
          (by omega : n < 2 ^ 31) (tail ++ 0#8 :: junk)
        rw [grepLoop, numberedMatches_append_cons hline]
        simp only [hfirst, Option.bind_eq_bind, Option.bind_some, if_neg ha, hend, hcut, hstrstr,
          htext, hfound, decide_eq_true_eq, hrestored, hnext, hnum]
        by_cases hin : pattern.chars <:+: line
        · simp only [if_pos hin, Option.map_some, Option.bind_some]
          rw [ih _ true _ htail (by omega) (by omega)]
          simp
        · simp only [if_neg hin]
          rw [ih _ found out htail (by omega) (by omega)]
          simp

/-! ### The command -/

/-- A file of the current directory holds the content. -/
def HoldsContent {σ : Type} (s : Shell σ) (filename : CString) (content : List Byte) : Prop :=
  ∃ i, ramfsFindFile filename s.ramfs.currentDir s.ramfs = some i ∧ (s.file i).isDirectory = 0#32 ∧
    (s.file i).size.toNat = content.length ∧
    ∀ k < content.length, s.mem ((s.file i).data + BitVec.ofNat 32 k) = content.getD k 0#8

/-- What is read of a file: up to 4095 bytes. -/
lemma ramfsReadFile_of_holdsContent {σ : Type} {s : Shell σ} {filename : CString}
    {content : List Byte} (h : HoldsContent s filename content) :
    ramfsReadFile filename 4095#32 s =
      (BitVec.ofNat 32 (content.take 4095).length, content.take 4095) := by
  obtain ⟨i, hfind, hfile, hsize, hbytes⟩ := h
  have hread : (if (s.file i).size < 4095#32 then (s.file i).size else 4095#32) =
      BitVec.ofNat 32 (content.take 4095).length := by
    have h4095 : (4095#32).toNat = 4095 := rfl
    rw [List.length_take, ← hsize]
    split_ifs with hlt
    · rw [BitVec.lt_def, h4095] at hlt
      rw [Nat.min_eq_right hlt.le, BitVec.ofNat_toNat, BitVec.setWidth_eq]
    · rw [BitVec.lt_def, h4095, Nat.not_lt] at hlt
      rw [Nat.min_eq_left hlt]
  have hbytes' : (List.range (content.take 4095).length).map
      (fun k => s.mem ((s.file i).data + BitVec.ofNat 32 k)) = content.take 4095 := by
    refine List.ext_getElem (by simp) fun k hk hk' => ?_
    have hlen := hk'
    rw [List.length_take] at hlen
    rw [List.getElem_map, List.getElem_range, hbytes k (by omega), List.getElem_take,
      List.getD_eq_getElem]
  have hnat : (BitVec.ofNat 32 (content.take 4095).length).toNat = (content.take 4095).length := by
    rw [BitVec.toNat_ofNat, List.length_take, Nat.mod_eq_of_lt (by omega)]
  rw [ramfsReadFile, hfind]
  simp only [hfile, ne_eq, not_true_eq_false, if_false, hread, hnat, hbytes']

/-- **`grep`** prints the lines of the file that contain the pattern, each with its number, in
order, and nothing else; it reports that there is none exactly if that is so. -/
theorem cmdGrep_prints_matches {σ : Type} (s : Shell σ) (cmd pattern filename : CString)
    (args : List CString) (stack content : List Byte) (hpattern : pattern.chars ≠ [])
    (hnul : 0#8 ∉ content) (hlen : content.length ≤ 4095)
    (hfile : HoldsContent (ramfsInit s) filename content) :
    cmdGrep (cmd :: pattern :: filename :: args) stack s = some (0#32,
      if numberedMatches pattern.chars content 1 = [] then [grepNotFoundText pattern filename]
      else (numberedMatches pattern.chars content 1).map grepLineText, ramfsInit s) := by
  have hread := ramfsReadFile_of_holdsContent hfile
  rw [List.take_of_length_le hlen] at hread
  have hpos : ¬(BitVec.ofNat 32 content.length).toInt < 0 := by
    rw [toInt_ofNat (by omega)]
    omega
  have hloop : grepLoop pattern
      ((content ++ 0#8 :: stack.drop (content.length + 1)).length + 1)
      (content ++ 0#8 :: stack.drop (content.length + 1)) 0 1#32 false [] =
        some (!(numberedMatches pattern.chars content 1).isEmpty,
          (numberedMatches pattern.chars content 1).map grepLineText) := by
    have hturns : content.length <
        (content ++ 0#8 :: stack.drop (content.length + 1)).length + 1 := by
      rw [List.length_append]
      omega
    have hsmall : 1 + content.length < 2 ^ 31 := by omega
    have heq := grepLoop_eq pattern hpattern [] false [] hnul hturns hsmall
      (stack.drop (content.length + 1))
    simpa only [List.nil_append, List.length_nil, Bool.false_or] using heq
  simp only [cmdGrep, hread, if_neg hpos, hloop, Option.bind_eq_bind, Option.bind_some]
  cases hmatches : numberedMatches pattern.chars content 1 with
  | nil => simp [printed_grepNotFound]
  | cons l ls => simp

/-- The name of the sample has a first place. -/
local instance neZero_sampleName : NeZero 32 := ⟨by decide⟩

/-- The table of the sample has a first entry. -/
local instance neZero_sampleTable : NeZero 64 := ⟨by decide⟩

lemma sampleName_terminated : (if (31 : Fin 32) = 0 then 102#8 else 0#8) = 0#8 := by decide

/-- A shell whose only file, `f`, holds the text `ab`, newline, `b`. -/
def sampleGrepShell : Shell Unit where
  ramfs := { RamFs.initial with
    files := fun i => if i = 0 then rootFile else if i = 1 then
      { name := ⟨fun k => if k = 0 then 102#8 else 0#8, sampleName_terminated⟩
        data := 64#32, size := 4#32
        capacity := 256#32, isDirectory := 0#32, parentIndex := 0, inUse := true }
      else RamFile.zero }
  heap := ()
  mem := fun a => [97#8, 98#8, 10#8, 98#8].getD (a - 64#32).toNat 0#8
  trace := []

/-- In that file, the pattern `b` is in both lines. -/
theorem cmdGrep_prints_matches_sample :
    HoldsContent (ramfsInit sampleGrepShell) ⟨[102#8], by decide⟩ [97#8, 98#8, 10#8, 98#8] ∧
      cmdGrep [grepUsage, ⟨[98#8], by decide⟩, ⟨[102#8], by decide⟩] [] sampleGrepShell =
        some (0#32, [ascii "1: ab\n", ascii "2: b\n"], ramfsInit sampleGrepShell) := by
  have hfile : HoldsContent (ramfsInit sampleGrepShell) ⟨[102#8], by decide⟩
      [97#8, 98#8, 10#8, 98#8] := ⟨1, by decide +kernel, by decide, by decide, by decide +kernel⟩
  have hmatches : numberedMatches [98#8] [97#8, 98#8, 10#8, 98#8] 1 =
      [([97#8, 98#8], 1), ([98#8], 2)] := by decide +kernel
  have htext : [([97#8, 98#8], 1), ([98#8], 2)].map grepLineText =
      [ascii "1: ab\n", ascii "2: b\n"] := by decide +kernel
  have hprints := cmdGrep_prints_matches sampleGrepShell grepUsage ⟨[98#8], by decide⟩
    ⟨[102#8], by decide⟩ [] [] [97#8, 98#8, 10#8, 98#8] (by decide) (by decide) (by decide) hfile
  rw [hmatches, htext, if_neg (List.cons_ne_nil _ _)] at hprints
  exact ⟨hfile, hprints⟩

end MiqOSoft
