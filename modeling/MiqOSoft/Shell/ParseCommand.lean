import MiqOSoft.Editing.Words
import MiqOSoft.Shell.CommandLine

/-!
The words of a command: `shell_parse_command` of `shell.c`, which copies the line into a buffer of
its own, finds where words start and cuts them off behind their ends.

* `ShellParse`, `parseTurn`, `parseLoop`: the loop over the copy.  A pointer into `local_buffer` is
  the place it points to, and every access to the two arrays is checked.
* `Parsed`: what holds between two turns; `parsed_turn` is the step.
* `DeliversWords`: `argv` holds the first words of the line, each cut off behind its end.
* `deliversWords_iff`: the loop is left as soon as the last admitted word has begun, so that this
  word is cut off only if the line ends with it.
-/

namespace MiqOSoft

open Machine Editing

/-- `SHELL_MAX_ARGS`. -/
abbrev SHELL_MAX_ARGS : ℕ := 16

/-- The characters between words, space and tab. -/
def isBlank (c : Byte) : Bool := c == 32#8 || c == 9#8

/-! ### The function -/

/-- `local_buffer`, `argv`, and the variables of the loop. -/
structure ShellParse where
  localBuffer : Vector Byte SHELL_BUFFER_SIZE
  argv : Vector (Option ℕ) SHELL_MAX_ARGS
  argc : ℕ
  i : ℕ
  inWord : Bool

/-- The loop that copies the line, as far as it fits. -/
def copyLoop : List Byte → ℕ → Vector Byte SHELL_BUFFER_SIZE →
    Option (ℕ × Vector Byte SHELL_BUFFER_SIZE)
  | [], i, buf => some (i, buf)
  | c :: cs, i, buf =>
      if i < SHELL_BUFFER_SIZE - 1 then do
        let buf ← store buf i c
        copyLoop cs (i + 1) buf
      else some (i, buf)

/-- A turn of the loop that finds the words, on the character it reads. -/
def parseTurn (c : Byte) (s : ShellParse) : Option ShellParse :=
  if c ≠ 32#8 ∧ c ≠ 9#8 then
    if !s.inWord then do
      let argv ← store s.argv s.argc (some s.i)
      some { s with argv := argv, argc := s.argc + 1, inWord := true, i := s.i + 1 }
    else some { s with i := s.i + 1 }
  else
    if s.inWord then do
      let buf ← store s.localBuffer s.i 0#8
      some { s with localBuffer := buf, inWord := false, i := s.i + 1 }
    else some { s with i := s.i + 1 }

/-- The loop that finds the words; `fuel` bounds its turns. -/
def parseLoop : ℕ → ShellParse → Option ShellParse
  | 0, _ => none
  | fuel + 1, s => do
      let c ← s.localBuffer[s.i]?
      if c ≠ 0#8 ∧ s.argc < SHELL_MAX_ARGS - 1 then do
        let s ← parseTurn c s
        parseLoop fuel s
      else some s

/-- `shell_parse_command`, with what `local_buffer` and `argv` held before: `argc`, `argv`, and
`local_buffer` after it. -/
def shellParseCommand (buf : Vector Byte SHELL_BUFFER_SIZE)
    (argv : Vector (Option ℕ) SHELL_MAX_ARGS) (input : CString) :
    Option (ℕ × Vector (Option ℕ) SHELL_MAX_ARGS × Vector Byte SHELL_BUFFER_SIZE) := do
  let (i, buf) ← copyLoop input.chars 0 buf
  let buf ← store buf i 0#8
  let s ← parseLoop SHELL_BUFFER_SIZE ⟨buf, argv, 0, 0, false⟩
  let argv ← store s.argv s.argc none
  some (s.argc, argv, s.localBuffer)

/-! ### What it is for -/

/-- The words of the line: its maximal runs of characters other than space and tab. -/
def CString.words (s : CString) : List (List Byte) := wordsOf isBlank s.chars

/-- `argv` points to the first words of the line, at most `SHELL_MAX_ARGS - 1` of them, each
terminated behind its end, and NULL stands behind them. -/
def DeliversWords (buf : Vector Byte SHELL_BUFFER_SIZE)
    (argv : Vector (Option ℕ) SHELL_MAX_ARGS) (input : CString) : Prop :=
  ∃ argc argv' buf', shellParseCommand buf argv input = some (argc, argv', buf') ∧
    argc = min input.words.length (SHELL_MAX_ARGS - 1) ∧
    (∀ k < argc, ∀ w, input.words[k]? = some w → ∃ p tail, argv'[k]? = some (some p) ∧
      buf'.toList.drop p = w ++ 0#8 :: tail) ∧
    argv'[argc]? = some none

/-! ### The copy -/

/-- The copy of a line that fits. -/
lemma copyLoop_spec {cs done junk : List Byte} {buf : Vector Byte SHELL_BUFFER_SIZE}
    (hbuf : buf.toList = done ++ junk) (hlen : done.length + cs.length < SHELL_BUFFER_SIZE) :
    ∃ buf' x junk', copyLoop cs done.length buf = some ((done ++ cs).length, buf') ∧
      buf'.toList = (done ++ cs) ++ x :: junk' := by
  have hsize := congrArg List.length hbuf
  rw [Vector.length_toList, List.length_append] at hsize
  obtain ⟨x, junk, rfl⟩ : ∃ x l, junk = x :: l :=
    List.exists_cons_of_length_pos (by omega)
  induction cs generalizing done x junk buf with
  | nil => exact ⟨buf, x, junk, by simp [copyLoop], by simpa using hbuf⟩
  | cons c cs ih =>
      rw [List.length_cons] at hlen hsize
      obtain ⟨buf', hstore, hbuf'⟩ := store_of_toList c hbuf
      obtain ⟨y, junk, rfl⟩ : ∃ y l, junk = y :: l :=
        List.exists_cons_of_length_pos (by omega)
      rw [List.append_cons] at hbuf'
      obtain ⟨buf'', z, junk', hrun, hbuf''⟩ := ih (by simp; omega) y junk hbuf'
        (by simp at hsize ⊢; omega)
      rw [← List.append_cons] at hrun hbuf''
      rw [List.length_append, List.length_singleton] at hrun
      refine ⟨buf'', z, junk', ?_, hbuf''⟩
      rw [copyLoop, if_pos (by omega), hstore]
      exact hrun

/-! ### Between two turns -/

/-- The words found are terminated in the part of the buffer behind the loop, and `argv` points to
them. -/
def Placed (done : List Byte) (argv : Vector (Option ℕ) SHELL_MAX_ARGS) (ws : List (List Byte)) :
    Prop :=
  ∀ k (hk : k < ws.length), ∃ pre tail,
    done = pre ++ ws[k] ++ 0#8 :: tail ∧ argv[k]? = some (some pre.length)

/-- Between two turns the words `ws` of the line are found, `cur` is what is read of the next one,
and `rest` is still to be read. -/
structure Parsed (line : List Byte) (ws : List (List Byte)) (cur rest : List Byte)
    (s : ShellParse) : Prop where
  words : wordsOf isBlank line = ws ++ wordsOf isBlank (cur ++ rest)
  suffix : cur ++ rest <:+ line
  letters : ∀ c ∈ cur, isBlank c = false
  argc : s.argc = if cur = [] then ws.length else ws.length + 1
  full : s.argc < SHELL_MAX_ARGS - 1 ∨ s.argc = SHELL_MAX_ARGS - 1 ∧ cur ≠ []
  inWord : s.inWord = !cur.isEmpty
  buffer : ∃ done junk, s.localBuffer.toList = done ++ (rest ++ 0#8 :: junk) ∧
    s.i = done.length ∧ Placed done s.argv ws ∧
    (cur ≠ [] → ∃ pre, done = pre ++ cur ∧ s.argv[ws.length]? = some (some pre.length))

lemma placed_append {done : List Byte} {argv : Vector (Option ℕ) SHELL_MAX_ARGS}
    {ws : List (List Byte)} (h : Placed done argv ws) (l : List Byte) :
    Placed (done ++ l) argv ws := by
  intro k hk
  obtain ⟨pre, tail, hdone, hargv⟩ := h k hk
  exact ⟨pre, tail ++ l, by rw [hdone]; simp, hargv⟩

/-- A word is cut off. -/
lemma placed_concat {done pre cur : List Byte} {argv : Vector (Option ℕ) SHELL_MAX_ARGS}
    {ws : List (List Byte)} (h : Placed done argv ws) (hdone : done = pre ++ cur)
    (hargv : argv[ws.length]? = some (some pre.length)) (tail : List Byte) :
    Placed (done ++ 0#8 :: tail) argv (ws ++ [cur]) := by
  intro k hk
  by_cases hlt : k < ws.length
  · obtain ⟨pre', tail', hd, ha⟩ := placed_append h (0#8 :: tail) k hlt
    exact ⟨pre', tail', by rw [List.getElem_append_left hlt]; exact hd, ha⟩
  · have hkeq : k = ws.length := by
      rw [List.length_append, List.length_singleton] at hk
      omega
    subst hkeq
    exact ⟨pre, tail, by simp [hdone], hargv⟩

lemma isBlank_eq_false_iff {c : Byte} : isBlank c = false ↔ c ≠ 32#8 ∧ c ≠ 9#8 := by
  simp [isBlank]

section turn

variable {line cur rest : List Byte} {ws : List (List Byte)} {c : Byte} {s : ShellParse}

/-- A turn that does not write to the buffer leaves one character more behind it. -/
lemma toList_turn {done junk : List Byte} (hbuf : s.localBuffer.toList =
    done ++ (c :: rest ++ 0#8 :: junk)) (hi : s.i = done.length) :
    s.localBuffer.toList = (done ++ [c]) ++ (rest ++ 0#8 :: junk) ∧
      s.i + 1 = (done ++ [c]).length := by
  rw [hbuf, hi]
  simp

/-- A word starts. -/
lemma parsed_start (h : Parsed line ws [] (c :: rest) s) (hargc : s.argc < SHELL_MAX_ARGS - 1)
    (hc : isBlank c = false) : ∃ s', parseTurn c s = some s' ∧ Parsed line ws [c] rest s' := by
  obtain ⟨done, junk, hbuf, hi, hplaced, -⟩ := h.buffer
  obtain ⟨hbuf', hi'⟩ := toList_turn hbuf hi
  have hin : s.inWord = false := h.inWord
  have hargc' : s.argc = ws.length := h.argc
  have hlt : s.argc < SHELL_MAX_ARGS := by omega
  have hfull : s.argc + 1 < SHELL_MAX_ARGS - 1 ∨ s.argc + 1 = SHELL_MAX_ARGS - 1 ∧ [c] ≠ [] := by
    rcases Nat.lt_or_ge (s.argc + 1) (SHELL_MAX_ARGS - 1) with h | h
    · exact Or.inl h
    · exact Or.inr ⟨by omega, List.cons_ne_nil c []⟩
  refine ⟨{ s with
    argv := s.argv.set s.argc (some s.i) hlt, argc := s.argc + 1, inWord := true, i := s.i + 1 },
    ?_, h.words, h.suffix, by simpa using hc, by simp [hargc'], hfull, rfl,
    done ++ [c], junk, hbuf', hi', ?_, ?_⟩
  · rw [parseTurn, if_pos (isBlank_eq_false_iff.mp hc), hin, if_pos (by rfl), store_of_lt _ _ hlt]
    rfl
  · intro k hk
    obtain ⟨pre, tail, hd, ha⟩ := placed_append hplaced [c] k hk
    exact ⟨pre, tail, hd, by rw [Vector.getElem?_set_ne hlt (by omega), ha]⟩
  · intro _
    exact ⟨done, rfl, by rw [← hargc', Vector.getElem?_set_self, hi]⟩

/-- A word goes on. -/
lemma parsed_letter (h : Parsed line ws cur (c :: rest) s) (hargc : s.argc < SHELL_MAX_ARGS - 1)
    (hnil : cur ≠ []) (hc : isBlank c = false) :
    ∃ s', parseTurn c s = some s' ∧ Parsed line ws (cur ++ [c]) rest s' := by
  obtain ⟨done, junk, hbuf, hi, hplaced, hcur⟩ := h.buffer
  obtain ⟨hbuf', hi'⟩ := toList_turn hbuf hi
  obtain ⟨pre, hd, ha⟩ := hcur hnil
  have hin : s.inWord = true := by rw [h.inWord]; simpa using hnil
  have hargc' : s.argc = ws.length + 1 := by rw [h.argc, if_neg hnil]
  refine ⟨{ s with i := s.i + 1 }, ?_, by simpa using h.words, by simpa using h.suffix, ?_,
    by simp [hargc'], Or.inl hargc, by simp [hin], done ++ [c], junk, hbuf', hi',
    placed_append hplaced [c], fun _ => ⟨pre, by rw [hd, List.append_assoc], ha⟩⟩
  · rw [parseTurn, if_pos (isBlank_eq_false_iff.mp hc), hin, if_neg (by decide)]
  · intro d hd
    rcases List.mem_append.mp hd with hd | hd
    · exact h.letters d hd
    · rw [List.mem_singleton.mp hd, hc]

/-- A blank between two words. -/
lemma parsed_gap (h : Parsed line ws [] (c :: rest) s) (hargc : s.argc < SHELL_MAX_ARGS - 1)
    (hc : isBlank c = true) : ∃ s', parseTurn c s = some s' ∧ Parsed line ws [] rest s' := by
  obtain ⟨done, junk, hbuf, hi, hplaced, -⟩ := h.buffer
  obtain ⟨hbuf', hi'⟩ := toList_turn hbuf hi
  have hin : s.inWord = false := h.inWord
  have hwords : wordsOf isBlank line = ws ++ wordsOf isBlank ([] ++ rest) := by
    rw [h.words, List.nil_append, wordsOf_cons_of_pos hc, List.nil_append]
  refine ⟨{ s with i := s.i + 1 }, ?_, hwords, (List.suffix_cons c rest).trans h.suffix, h.letters,
    h.argc, Or.inl hargc, hin, done ++ [c], junk, hbuf', hi', placed_append hplaced [c],
    fun hne => absurd rfl hne⟩
  rw [parseTurn, if_neg (by simp [← isBlank_eq_false_iff, hc]), hin, if_neg (by decide)]

/-- A word ends, and is cut off. -/
lemma parsed_cut (h : Parsed line ws cur (c :: rest) s) (hargc : s.argc < SHELL_MAX_ARGS - 1)
    (hnil : cur ≠ []) (hc : isBlank c = true) :
    ∃ s', parseTurn c s = some s' ∧ Parsed line (ws ++ [cur]) [] rest s' := by
  obtain ⟨done, junk, hbuf, hi, hplaced, hcur⟩ := h.buffer
  obtain ⟨buf, hstore, hbuf'⟩ := store_of_toList (0#8) hbuf
  obtain ⟨pre, hd, ha⟩ := hcur hnil
  have hin : s.inWord = true := by rw [h.inWord]; simpa using hnil
  have hargc' : s.argc = ws.length + 1 := by rw [h.argc, if_neg hnil]
  have hwords : wordsOf isBlank line = ws ++ [cur] ++ wordsOf isBlank ([] ++ rest) := by
    rw [h.words, wordsOf_append_cons h.letters hnil hc, List.append_assoc]
    rfl
  have hsuffix : [] ++ rest <:+ cur ++ c :: rest := ⟨cur ++ [c], by simp⟩
  refine ⟨{ s with localBuffer := buf, inWord := false, i := s.i + 1 }, ?_, hwords,
    hsuffix.trans h.suffix, by simp, by simp [hargc'], Or.inl hargc, rfl, done ++ [0#8], junk,
    by rw [hbuf']; simp, by simp [hi], placed_concat hplaced hd ha [], fun hne => absurd rfl hne⟩
  rw [parseTurn, if_neg (by simp [← isBlank_eq_false_iff, hc]), hin, if_pos rfl, hi, hstore]
  rfl

/-- **A turn of the loop** on a character that it does not stop at. -/
lemma parsed_turn (h : Parsed line ws cur (c :: rest) s) (hargc : s.argc < SHELL_MAX_ARGS - 1) :
    ∃ s' ws' cur', parseTurn c s = some s' ∧ Parsed line ws' cur' rest s' := by
  by_cases hnil : cur = []
  · subst hnil
    cases hc : isBlank c with
    | false =>
        obtain ⟨s', hturn, hs'⟩ := parsed_start h hargc hc
        exact ⟨s', ws, [c], hturn, hs'⟩
    | true =>
        obtain ⟨s', hturn, hs'⟩ := parsed_gap h hargc hc
        exact ⟨s', ws, [], hturn, hs'⟩
  · cases hc : isBlank c with
    | false =>
        obtain ⟨s', hturn, hs'⟩ := parsed_letter h hargc hnil hc
        exact ⟨s', ws, cur ++ [c], hturn, hs'⟩
    | true =>
        obtain ⟨s', hturn, hs'⟩ := parsed_cut h hargc hnil hc
        exact ⟨s', ws ++ [cur], [], hturn, hs'⟩

/-- **The loop**: it is left at the end of the line, or when the last admitted word has begun. -/
lemma parsed_loop {fuel : ℕ} (h : Parsed line ws cur rest s) (hline : 0#8 ∉ line)
    (hfuel : rest.length < fuel) :
    ∃ s' ws' cur' rest', parseLoop fuel s = some s' ∧ Parsed line ws' cur' rest' s' ∧
      (s'.argc < SHELL_MAX_ARGS - 1 → rest' = []) := by
  induction fuel generalizing ws cur rest s with
  | zero => exact absurd hfuel (Nat.not_lt_zero _)
  | succ fuel ih =>
      obtain ⟨done, junk, hbuf, hi, -, -⟩ := h.buffer
      cases rest with
      | nil =>
          refine ⟨s, ws, cur, [], ?_, h, fun _ => rfl⟩
          rw [parseLoop, hi, getElem?_of_toList hbuf]
          rfl
      | cons c rest =>
          have hc : c ≠ 0#8 := by
            rintro rfl
            exact hline (h.suffix.mem (List.mem_append_right cur (List.mem_cons_self ..)))
          have hread : s.localBuffer[s.i]? = some c := by
            rw [hi]
            exact getElem?_of_toList hbuf
          rw [parseLoop, hread, Option.bind_eq_bind, Option.bind_some]
          by_cases hargc : s.argc < SHELL_MAX_ARGS - 1
          · obtain ⟨s', ws', cur', hturn, hs'⟩ := parsed_turn h hargc
            rw [if_pos ⟨hc, hargc⟩, hturn]
            exact ih hs' (Nat.lt_of_succ_lt_succ hfuel)
          · rw [if_neg fun hand => hargc hand.2]
            exact ⟨s, ws, cur, c :: rest, rfl, h, fun hlt => absurd hlt hargc⟩

end turn

/-! ### The words delivered -/

section result

variable {line cur rest : List Byte} {ws : List (List Byte)} {s : ShellParse}

/-- The function returns for every line that fits, with what the loop leaves. -/
lemma shellParseCommand_spec (buf : Vector Byte SHELL_BUFFER_SIZE)
    (argv : Vector (Option ℕ) SHELL_MAX_ARGS) (input : CString)
    (h : input.chars.length < SHELL_BUFFER_SIZE) :
    ∃ s ws cur rest argv',
      shellParseCommand buf argv input = some (s.argc, argv', s.localBuffer) ∧
      Parsed input.chars ws cur rest s ∧ (s.argc < SHELL_MAX_ARGS - 1 → rest = []) ∧
      argv'[s.argc]? = some none ∧ ∀ k < s.argc, argv'[k]? = s.argv[k]? := by
  obtain ⟨buf₁, x, junk, hcopy, hbuf₁⟩ :=
    @copyLoop_spec input.chars [] buf.toList buf rfl (by rw [List.length_nil]; omega)
  rw [List.nil_append] at hcopy hbuf₁
  obtain ⟨buf₂, hstore, hbuf₂⟩ := store_of_toList (0#8) hbuf₁
  have hstart : Parsed input.chars [] [] input.chars ⟨buf₂, argv, 0, 0, false⟩ :=
    ⟨rfl, List.suffix_refl _, by simp, rfl, Or.inl (Nat.succ_pos 14), rfl, [], junk, hbuf₂, rfl,
      fun k hk => absurd hk (Nat.not_lt_zero k), fun h => absurd rfl h⟩
  obtain ⟨s, ws, cur, rest, hloop, hparsed, hend⟩ :=
    parsed_loop hstart input.noNul h
  have hlt : s.argc < SHELL_MAX_ARGS := by
    rcases hparsed.full with hlt | ⟨heq, -⟩
    · exact hlt.trans (by decide)
    · rw [heq]
      decide
  refine ⟨s, ws, cur, rest, s.argv.set s.argc none hlt, ?_, hparsed, hend, ?_, ?_⟩
  · rw [List.length_nil] at hcopy
    simp [shellParseCommand, hcopy, hstore, hloop, store_of_lt _ _ hlt]
  · rw [Vector.getElem?_set_self]
  · intro k hk
    rw [Vector.getElem?_set_ne hlt (by omega)]

/-- The words that are cut off are read back from the buffer. -/
lemma Parsed.drop_of_lt (h : Parsed line ws cur rest s) {k : ℕ} (hk : k < ws.length) :
    ∃ p tail, s.argv[k]? = some (some p) ∧
      s.localBuffer.toList.drop p = ws[k] ++ 0#8 :: tail := by
  obtain ⟨done, junk, hbuf, -, hplaced, -⟩ := h.buffer
  obtain ⟨pre, tail, hdone, hargv⟩ := hplaced k hk
  refine ⟨pre.length, tail ++ (rest ++ 0#8 :: junk), hargv, ?_⟩
  rw [hbuf, hdone]
  simp

/-- From the beginning of the last word on, the buffer holds all that is left of the line. -/
lemma Parsed.drop_last (h : Parsed line ws cur rest s) (hnil : cur ≠ []) :
    ∃ p tail, s.argv[ws.length]? = some (some p) ∧
      s.localBuffer.toList.drop p = cur ++ rest ++ 0#8 :: tail := by
  obtain ⟨done, junk, hbuf, -, -, hcur⟩ := h.buffer
  obtain ⟨pre, hdone, hargv⟩ := hcur hnil
  refine ⟨pre.length, junk, hargv, ?_⟩
  rw [hbuf, hdone]
  simp

lemma textOf_append_zero {w : List Byte} (hw : 0#8 ∉ w) (tail : List Byte) :
    textOf (w ++ 0#8 :: tail) = w := by
  have hpos : ∀ c ∈ w, decide (c ≠ 0#8) = true := by
    intro c hc
    exact decide_eq_true (ne_of_mem_of_not_mem hc hw)
  rw [textOf, List.takeWhile_append_of_pos hpos]
  simp

/-- Two texts in front of a terminator at one place are the same. -/
lemma eq_of_append_zero {l r tl tr : List Byte} (hl : 0#8 ∉ l) (hr : 0#8 ∉ r)
    (h : l ++ 0#8 :: tl = r ++ 0#8 :: tr) : l = r := by
  rw [← textOf_append_zero hl tl, h, textOf_append_zero hr tr]

/-- The last word read goes on to the end of the line. -/
def LastAlone (cur rest : List Byte) : Prop := cur = [] ∨ ∀ c ∈ cur ++ rest, isBlank c = false

/-- What is left of the line begins with a letter. -/
lemma Parsed.exists_cons (h : Parsed line ws cur rest s) (hnil : cur ≠ []) :
    ∃ c t, cur ++ rest = c :: t ∧ isBlank c = false := by
  obtain ⟨c, cur', rfl⟩ := List.exists_cons_of_ne_nil hnil
  exact ⟨c, cur' ++ rest, rfl, h.letters c (List.mem_cons_self ..)⟩

/-- The last word goes on to the end of the line unless there are too many words, or a blank
follows the last admitted one. -/
lemma Parsed.lastAlone_iff (h : Parsed line ws cur rest s)
    (hend : s.argc < SHELL_MAX_ARGS - 1 → rest = []) :
    LastAlone cur rest ↔ (wordsOf isBlank line).length < 15 ∨
      (wordsOf isBlank line).length = 15 ∧ ∀ c ∈ line.getLast?, isBlank c = false := by
  have hlen : (wordsOf isBlank line).length =
      ws.length + (wordsOf isBlank (cur ++ rest)).length := by
    rw [h.words, List.length_append]
  rcases h.full with hlt | ⟨hargc, hnil⟩
  · -- the loop has reached the end of the line
    have hrest := hend hlt
    subst hrest
    rw [List.append_nil] at hlen
    by_cases hnil : cur = []
    · subst hnil
      rw [h.argc, if_pos rfl] at hlt
      exact iff_of_true (Or.inl rfl) (Or.inl (by rw [hlen]; exact hlt))
    · rw [h.argc, if_neg hnil] at hlt
      rw [wordsOf_of_forall h.letters hnil] at hlen
      exact iff_of_true (Or.inr (by simpa using h.letters)) (Or.inl (by rw [hlen]; exact hlt))
  · -- the last admitted word has begun
    obtain ⟨c, t, ht, hc⟩ := h.exists_cons hnil
    obtain ⟨front, hline⟩ := h.suffix
    have hlast : line.getLast? = (c :: t).getLast? := by
      rw [← hline, ht, List.getLast?_append, List.getLast?_cons]
      rfl
    rw [h.argc, if_neg hnil] at hargc
    rw [LastAlone, or_iff_right hnil, hlen, hlast, ht, forall_eq_false_iff hc]
    have hpos := List.length_pos_of_ne_nil (wordsOf_cons_ne_nil hc t)
    have hws : ws.length = 14 := Nat.succ.inj hargc
    rw [hws]
    constructor
    · rintro ⟨hone, hblank⟩
      exact Or.inr ⟨by rw [hone], hblank⟩
    · rintro (hlt | ⟨heq, hblank⟩)
      · omega
      · exact ⟨by omega, hblank⟩

/-- When the last word read is all that is left of the line, every word found is delivered. -/
lemma Parsed.delivers (h : Parsed line ws cur rest s)
    (hend : s.argc < SHELL_MAX_ARGS - 1 → rest = []) (hlast : LastAlone cur rest) :
    s.argc = (wordsOf isBlank line).length ∧
      ∀ (k : ℕ) (w : List Byte), (wordsOf isBlank line)[k]? = some w →
        ∃ p tail, s.argv[k]? = some (some p) ∧ s.localBuffer.toList.drop p = w ++ 0#8 :: tail := by
  have hfound : ∀ (k : ℕ) (w : List Byte), ws[k]? = some w →
      ∃ p tail, s.argv[k]? = some (some p) ∧ s.localBuffer.toList.drop p = w ++ 0#8 :: tail := by
    intro k w hkw
    obtain ⟨hk, rfl⟩ := List.getElem?_eq_some_iff.mp hkw
    exact h.drop_of_lt hk
  by_cases hnil : cur = []
  · have hlt : s.argc < SHELL_MAX_ARGS - 1 := h.full.resolve_right fun hand => hand.2 hnil
    have hwords : wordsOf isBlank line = ws := by
      rw [h.words, hnil, hend hlt]
      exact List.append_nil ws
    rw [hwords, h.argc, if_pos hnil]
    exact ⟨rfl, hfound⟩
  · have hwords : wordsOf isBlank line = ws ++ [cur ++ rest] := by
      rw [h.words, wordsOf_of_forall (hlast.resolve_left hnil) (by simp [hnil])]
    rw [hwords, h.argc, if_neg hnil, List.length_append, List.length_singleton]
    refine ⟨rfl, fun k w hkw => ?_⟩
    rcases Nat.lt_or_ge k ws.length with hk | hk
    · rw [List.getElem?_append_left hk] at hkw
      exact hfound k w hkw
    · rw [List.getElem?_append_right hk, List.getElem?_singleton] at hkw
      obtain ⟨hk0, rfl⟩ : k - ws.length = 0 ∧ cur ++ rest = w := by simpa using hkw
      obtain rfl : k = ws.length := by omega
      exact h.drop_last hnil

/-- When the last word read is delivered, it is all that is left of the line. -/
lemma Parsed.lastAlone (h : Parsed line ws cur rest s) (hline : 0#8 ∉ line)
    (hdel : ∀ k < s.argc, ∀ w, (wordsOf isBlank line)[k]? = some w →
      ∃ p tail, s.argv[k]? = some (some p) ∧
        s.localBuffer.toList.drop p = w ++ 0#8 :: tail) : LastAlone cur rest := by
  by_cases hnil : cur = []
  · exact Or.inl hnil
  · obtain ⟨c, t, ht, hc⟩ := h.exists_cons hnil
    obtain ⟨w, l, hfirst⟩ := List.exists_cons_of_ne_nil (wordsOf_cons_ne_nil hc t)
    have hargc : ws.length < s.argc := by
      rw [h.argc, if_neg hnil]
      exact Nat.lt_succ_self _
    have hk : (wordsOf isBlank line)[ws.length]? = some w := by
      rw [h.words, ht, hfirst, List.getElem?_append_right le_rfl, Nat.sub_self]
      rfl
    obtain ⟨p, tail, hp, hdrop⟩ := hdel _ hargc w hk
    obtain ⟨p', tail', hp', hdrop'⟩ := h.drop_last hnil
    obtain rfl : p = p' := by
      rw [hp] at hp'
      simpa using hp'
    rw [ht] at hdrop'
    have hleft : 0#8 ∉ c :: t := fun h0 => hline (h.suffix.mem (ht ▸ h0))
    have hw : 0#8 ∉ w := fun h0 => hleft ((prefix_of_wordsOf_eq_cons hc hfirst).mem h0)
    have heq : c :: t = w := eq_of_append_zero hleft hw (hdrop'.symm.trans hdrop)
    right
    rw [ht]
    rw [← heq] at hfirst
    exact forall_eq_false_of_head hc hfirst

end result

/-- **What the function delivers**: it returns for every line of at most 255 characters, and
delivers the first words of the line if and only if there are fewer than 15 words, or exactly 15
with no blank behind the last. -/
theorem deliversWords_iff (buf : Vector Byte SHELL_BUFFER_SIZE)
    (argv : Vector (Option ℕ) SHELL_MAX_ARGS) (input : CString) (h : input.chars.length ≤ 255) :
    DeliversWords buf argv input ↔
      input.words.length < 15 ∨
        input.words.length = 15 ∧ ∀ c ∈ input.chars.getLast?, isBlank c = false := by
  obtain ⟨s, ws, cur, rest, argv', hrun, hp, hend, hnull, hkeep⟩ :=
    shellParseCommand_spec buf argv input (Nat.lt_succ_of_le h)
  rw [CString.words, ← hp.lastAlone_iff hend]
  constructor
  · rintro ⟨argc, argv₁, buf₁, hrun₁, -, hwords, -⟩
    obtain ⟨rfl, rfl, rfl⟩ : argc = s.argc ∧ argv₁ = argv' ∧ buf₁ = s.localBuffer := by
      rw [hrun] at hrun₁
      simpa [eq_comm] using hrun₁
    refine hp.lastAlone input.noNul fun k hk w hw => ?_
    rw [← hkeep k hk]
    exact hwords k hk w hw
  · intro hlast
    obtain ⟨hargc, hdel⟩ := hp.delivers hend hlast
    have hle : s.argc ≤ SHELL_MAX_ARGS - 1 := hp.full.elim Nat.le_of_lt fun hand => hand.1.le
    refine ⟨s.argc, argv', s.localBuffer, hrun, ?_, fun k hk w hw => ?_, hnull⟩
    · rw [CString.words, ← hargc, min_eq_left hle]
    · rw [hkeep k hk]
      exact hdel k w hw

/-- The line `echo 1 2 3 4 5 6 7 8 9 10 11 12 13 14 15`. -/
def sixteenWords : CString := ⟨ascii "echo 1 2 3 4 5 6 7 8 9 10 11 12 13 14 15", by decide +kernel⟩

/-- Of a line with sixteen words the fifteenth argument is not cut off: it is `14 15`. -/
theorem not_deliversWords_sixteenWords :
    ¬DeliversWords (Vector.replicate _ 0#8) (Vector.replicate _ none) sixteenWords := by
  rintro ⟨argc, argv', buf', hrun, -, hwords, -⟩
  have hresult : (shellParseCommand (Vector.replicate _ 0#8) (Vector.replicate _ none)
      sixteenWords).map (fun r => (r.1, r.2.1[14]?, textOf (r.2.2.toList.drop 35))) =
        some (15, some (some 35), ascii "14 15") := by
    decide +kernel
  rw [hrun] at hresult
  simp only [Option.map_some, Option.some.injEq, Prod.mk.injEq] at hresult
  obtain ⟨hargc, hp, htext⟩ := hresult
  have hword : sixteenWords.words[14]? = some (ascii "14") := by decide +kernel
  obtain ⟨p, tail, hp', hdrop⟩ := hwords 14 (by rw [hargc]; decide) _ hword
  obtain rfl : p = 35 := by
    rw [hp] at hp'
    simpa [eq_comm] using hp'
  rw [hdrop, textOf_append_zero (by decide +kernel)] at htext
  exact absurd htext (by decide +kernel)

/-- Fifteen words and nothing behind the last of them are delivered. -/
theorem deliversWords_fifteen :
    DeliversWords (Vector.replicate _ 0#8) (Vector.replicate _ none)
      ⟨ascii "echo 1 2 3 4 5 6 7 8 9 10 11 12 13 14", by decide +kernel⟩ :=
  (deliversWords_iff _ _ _ (by decide +kernel)).mpr (Or.inr (by decide +kernel))

end MiqOSoft
