import MiqOSoft.Editing.Line
import MiqOSoft.Kernel.Sprintf

/-!
`snprintf` of the kernel's `string.c`, which formats into a buffer of its own and copies from it.

* `strncpy`: the two loops of the copy.
* `fullText`: the text that a format and its arguments stand for.
* `strncpy_eq`: the copy is the source up to its first NUL, and NULs behind it.
* `snprintf_iff`: when the destination receives the text, cut to its size: the format must not end
  in a single `%`, the text must fit into the buffer, and no NUL stand between other characters.
-/

namespace MiqOSoft

open Machine Editing

/-- The size of `temp`. -/
abbrev TEMP_SIZE : ℕ := 1024

section Strncpy

variable {m room : ℕ}

/-- The first loop of `strncpy`, with so many characters to go: `i` and `dest` after it. -/
def strncpyChars (src : Vector Byte m) : ℕ → ℕ → Vector Byte room → Option (ℕ × Vector Byte room)
  | 0, i, dest => some (i, dest)
  | left + 1, i, dest => do
      let c ← src[i]?
      if c ≠ 0#8 then
        let dest ← store dest i c
        strncpyChars src left (i + 1) dest
      else some (i, dest)

/-- The second loop. -/
def strncpyNuls : ℕ → ℕ → Vector Byte room → Option (Vector Byte room)
  | 0, _, dest => some dest
  | left + 1, i, dest => do
      let dest ← store dest i 0#8
      strncpyNuls left (i + 1) dest

/-- `strncpy`. -/
def strncpy (dest : Vector Byte room) (src : Vector Byte m) (n : ℕ) :
    Option (Vector Byte room) := do
  let (i, dest) ← strncpyChars src n 0 dest
  strncpyNuls (n - i) i dest

/-- `snprintf`, for pointers that are not NULL.  It is undefined where it stores outside of `str`
or of `temp`, or reads behind the end of the format. -/
def snprintf (temp : Vector Byte TEMP_SIZE) (str : Vector Byte room) (size : Word) (fmt : CString)
    (args : VaList) : Option (Vector Byte room × Word) :=
  if size = 0#32 then some (str, -1#32)
  else do
    let (text, result) ← vsprintf fmt args
    let temp ← storeAll 0 (text ++ [0#8]) temp
    if (0#32).sle result then
      let toCopy := if result.slt (size - 1#32) then result else size - 1#32
      let str ← strncpy str temp toCopy.toNat
      let str ← store str toCopy.toNat 0#8
      some (str, result)
    else
      let str ← store str 0 0#8
      some (str, result)

end Strncpy

/-! ### What is asked of it -/

/-- The text of a format: the conversions are replaced by what `vsprintf` makes of their arguments,
and a single `%` at the end stands for itself.  It is defined if the arguments match. -/
def fullText : List Byte → VaList → Option (List Byte)
  | [], _ => some []
  | c :: fmt, args =>
      if c ≠ ch '%' then (fullText fmt args).map (c :: ·)
      else
        match fmt with
        | [] => some [ch '%']
        | d :: fmt => do
            let (s, args) ← vsprintfSpec d args
            (fullText fmt args).map (s ++ ·)

/-- The format ends in a `%` that starts a conversion. -/
def endsInPercent : List Byte → Bool
  | [] => false
  | c :: fmt =>
      if c ≠ ch '%' then endsInPercent fmt
      else
        match fmt with
        | [] => true
        | _ :: fmt => endsInPercent fmt

/-- The array begins with the first `n` characters of the text and a NUL. -/
def CutText {room : ℕ} (str : Vector Byte room) (text : List Byte) (n : ℕ) : Prop :=
  (∀ k < n, str[k]? = text[k]?) ∧ str[n]? = some 0#8

/-- Behind the first NUL there is nothing else. -/
def NulsLast (text : List Byte) : Prop := ∀ c ∈ text.dropWhile (fun c => decide (c ≠ 0#8)), c = 0#8

/-! ### The format -/

/-- **At a single `%`** the loop reads on behind the end of the format. -/
lemma vsprintfLoop_eq_none {fmt : List Byte} {args : VaList} {out : List Byte}
    (h : endsInPercent fmt = true) : vsprintfLoop fmt args out = none := by
  induction fmt using endsInPercent.induct generalizing args out with
  | case1 => exact absurd h Bool.false_ne_true
  | case2 c fmt hc ih =>
      rw [endsInPercent.eq_def] at h
      rw [vsprintfLoop.eq_def]
      simp only [if_pos hc] at h ⊢
      exact ih h
  | case3 c hc =>
      rw [vsprintfLoop.eq_def]
      exact if_neg hc
  | case4 c hc d fmt ih =>
      rw [endsInPercent.eq_def] at h
      rw [vsprintfLoop.eq_def]
      simp only [if_neg hc] at h ⊢
      cases vsprintfSpec d args with
      | none => rfl
      | some r => exact ih h

/-- Otherwise it stores the text. -/
lemma vsprintfLoop_eq_some {fmt : List Byte} {args : VaList} {out text : List Byte}
    (h : endsInPercent fmt = false) (htext : fullText fmt args = some text) :
    vsprintfLoop fmt args out = some (out ++ text) := by
  induction fmt using endsInPercent.induct generalizing args out text with
  | case1 =>
      rw [← Option.some.inj htext, List.append_nil]
      rfl
  | case2 c fmt hc ih =>
      rw [endsInPercent.eq_def] at h
      rw [fullText.eq_def] at htext
      rw [vsprintfLoop.eq_def]
      simp only [if_pos hc] at h htext ⊢
      obtain ⟨t, ht, rfl⟩ := Option.map_eq_some_iff.mp htext
      rw [ih h ht, List.append_assoc, List.singleton_append]
  | case3 c hc =>
      rw [endsInPercent.eq_def] at h
      simp only [if_neg hc] at h
      exact absurd h.symm Bool.false_ne_true
  | case4 c hc d fmt ih =>
      rw [endsInPercent.eq_def] at h
      rw [fullText.eq_def] at htext
      rw [vsprintfLoop.eq_def]
      simp only [if_neg hc] at h htext ⊢
      obtain ⟨r, hr, hrest⟩ := Option.bind_eq_some_iff.mp htext
      obtain ⟨t, ht, rfl⟩ := Option.map_eq_some_iff.mp hrest
      rw [hr]
      exact (ih h ht).trans (by rw [List.append_assoc])

/-! ### The copy -/

section Copy

variable {m room : ℕ} {src : Vector Byte m} {l : List Byte}

/-- The first loop stores the characters in front of the first NUL. -/
lemma strncpyChars_eq {i : ℕ} (hsrc : ∀ k < l.length, src[i + k]? = l[k]?)
    (dest : Vector Byte room) : strncpyChars src l.length i dest =
      (storeAll i (textOf l) dest).map fun d => (i + (textOf l).length, d) := by
  induction l generalizing i dest with
  | nil => rfl
  | cons c l ih =>
      have hc : src[i]? = some c := hsrc 0 (Nat.succ_pos _)
      have hrest : ∀ k < l.length, src[i + 1 + k]? = l[k]? := by
        intro k hk
        rw [Nat.add_right_comm]
        exact hsrc (k + 1) (Nat.succ_lt_succ hk)
      rw [List.length_cons, strncpyChars, hc]
      by_cases hzero : c = 0#8
      · have htext : textOf (c :: l) = [] := by simp [textOf, hzero]
        rw [htext]
        simp [hzero, storeAll]
      · have htext : textOf (c :: l) = c :: textOf l := by simp [textOf, hzero]
        rw [htext, storeAll, List.length_cons]
        simp only [Option.bind_eq_bind, Option.bind_some, ne_eq, hzero, not_false_eq_true, if_true]
        cases store dest i c with
        | none => rfl
        | some dest' =>
            rw [Option.bind_some, Option.bind_some, ih hrest, Nat.add_assoc, Nat.add_comm 1]

/-- The second loop stores NULs. -/
lemma strncpyNuls_eq (n i : ℕ) (dest : Vector Byte room) :
    strncpyNuls n i dest = storeAll i (List.replicate n 0#8) dest := by
  induction n generalizing i dest with
  | zero => rfl
  | succ n ih =>
      rw [strncpyNuls, List.replicate_succ, storeAll]
      simp only [ih]

/-- What a copy of the characters makes of them. -/
def padded (l : List Byte) : List Byte :=
  textOf l ++ List.replicate (l.length - (textOf l).length) 0#8

lemma length_textOf_le (l : List Byte) : (textOf l).length ≤ l.length :=
  (List.takeWhile_prefix _).length_le

lemma length_padded (l : List Byte) : (padded l).length = l.length := by
  rw [padded, List.length_append, List.length_replicate]
  exact Nat.add_sub_cancel' (length_textOf_le l)

/-- The copy is the source exactly if it has no character behind its first NUL. -/
lemma padded_eq_iff : padded l = l ↔ NulsLast l := by
  have hsplit : textOf l ++ l.dropWhile (fun c => decide (c ≠ 0#8)) = l :=
    List.takeWhile_append_dropWhile
  have hlen := congrArg List.length hsplit
  rw [List.length_append] at hlen
  have hiff : padded l = l ↔ List.replicate (l.length - (textOf l).length) 0#8 =
      l.dropWhile fun c => decide (c ≠ 0#8) := by
    nth_rewrite 2 [← hsplit]
    exact List.append_right_inj _
  rw [hiff, eq_comm, List.eq_replicate_iff, and_iff_right (by omega), NulsLast]

/-- **`strncpy`** stores the characters up to the first NUL, and NULs behind them. -/
theorem strncpy_eq (hsrc : ∀ k < l.length, src[k]? = l[k]?) (dest : Vector Byte room) :
    strncpy dest src l.length = storeAll 0 (padded l) dest := by
  have hsrc' : ∀ k < l.length, src[0 + k]? = l[k]? := by simpa only [Nat.zero_add] using hsrc
  rw [strncpy, strncpyChars_eq hsrc', padded, storeAll_append]
  cases storeAll 0 (textOf l) dest with
  | none => rfl
  | some dest' =>
      simp only [Option.map_some, Option.bind_eq_bind, Option.bind_some, strncpyNuls_eq,
        Nat.zero_add]

end Copy

/-! ### The destination -/

section Snprintf

variable {size : Word} {fmt : CString} {args : VaList} {text : List Byte}
  {temp : Vector Byte TEMP_SIZE} {str : Vector Byte size.toNat}

lemma toNat_result (hlen : text.length < TEMP_SIZE) :
    (BitVec.ofNat 32 text.length).toNat = text.length := by
  have htemp : TEMP_SIZE = 1024 := rfl
  exact toNat_ofNat_of_lt (by omega)

/-- The number of characters to copy. -/
lemma toNat_toCopy (hpos : 0 < size.toNat) (hsize : size.toNat < 2 ^ 31)
    (hlen : text.length < TEMP_SIZE) :
    (if (BitVec.ofNat 32 text.length).slt (size - 1#32) then BitVec.ofNat 32 text.length
      else size - 1#32).toNat = min text.length (size.toNat - 1) := by
  have htemp : TEMP_SIZE = 1024 := rfl
  have hresult := toNat_result hlen
  have hroom : (size - 1#32).toNat = size.toNat - 1 := by
    have hle : 1#32 ≤ size := BitVec.le_def.mpr hpos
    rw [BitVec.toNat_sub_of_le hle]
    rfl
  have hslt : (BitVec.ofNat 32 text.length).slt (size - 1#32) ↔ text.length < size.toNat - 1 := by
    rw [BitVec.slt_iff_toInt_lt, BitVec.toInt_eq_toNat_of_lt (by omega),
      BitVec.toInt_eq_toNat_of_lt (by omega), hresult, hroom, Nat.cast_lt]
  split_ifs with hlt
  · rw [hresult, min_eq_left (hslt.mp hlt).le]
  · rw [hroom, min_eq_right (Nat.le_of_not_lt (mt hslt.mpr hlt))]

/-- **What `snprintf` does** with a text that fits into `temp`: the characters up to the cut or the
first NUL are stored, and NULs behind them. -/
theorem snprintf_eq (hpos : 0 < size.toNat) (hsize : size.toNat < 2 ^ 31)
    (hend : endsInPercent fmt.chars = false) (htext : fullText fmt.chars args = some text)
    (hlen : text.length < TEMP_SIZE) : ∃ str',
      snprintf temp str size fmt args = some (str', BitVec.ofNat 32 text.length) ∧
      ∀ k ≤ min text.length (size.toNat - 1),
        str'[k]? = (padded (text.take (min text.length (size.toNat - 1))) ++ [0#8])[k]? := by
  have htemp : TEMP_SIZE = 1024 := rfl
  obtain ⟨n, hn⟩ : ∃ n, min text.length (size.toNat - 1) = n := ⟨_, rfl⟩
  have hcopied : (text.take n).length = n := by
    rw [List.length_take]
    omega
  have hroom : 0 + (text ++ [0#8]).length ≤ TEMP_SIZE := by
    rw [List.length_append, List.length_singleton]
    omega
  obtain ⟨temp', hstored, hspec⟩ := storeAll_spec temp hroom
  have hsrc : ∀ k < (text.take n).length, temp'[k]? = (text.take n)[k]? := by
    intro k hk
    rw [hspec, if_pos (by rw [List.length_append]; omega), Nat.sub_zero,
      List.getElem?_append_left (by omega), List.getElem?_take_of_lt (by omega)]
  have hfits : 0 + (padded (text.take n) ++ [0#8]).length ≤ size.toNat := by
    rw [List.length_append, length_padded, List.length_singleton]
    omega
  obtain ⟨str', hcopy, hdest⟩ := storeAll_spec str hfits
  refine ⟨str', ?_, ?_⟩
  · have hne : size ≠ 0#32 := by
      rintro rfl
      exact absurd hpos (lt_irrefl 0)
    have hsle : (0#32).sle (BitVec.ofNat 32 text.length) = true := by
      have hresult := toNat_result hlen
      rw [BitVec.sle_iff_toInt_le, BitVec.toInt_zero, BitVec.toInt_eq_toNat_of_lt (by omega)]
      exact Int.natCast_nonneg _
    have hcopy' : (strncpy str temp' n).bind (fun str => store str n 0#8) = some str' := by
      have hstrncpy := strncpy_eq hsrc str
      rw [hcopied] at hstrncpy
      rw [storeAll_append, length_padded, hcopied, Nat.zero_add] at hcopy
      rw [hstrncpy]
      obtain ⟨str₁, hfirst, hlast⟩ := Option.bind_eq_some_iff.mp hcopy
      obtain ⟨str₂, hstore, hdone⟩ := Option.bind_eq_some_iff.mp hlast
      rw [hfirst, Option.bind_some, hstore]
      exact hdone
    obtain ⟨str₁, hstrncpy, hstore⟩ := Option.bind_eq_some_iff.mp hcopy'
    rw [snprintf, if_neg hne, vsprintf, vsprintfLoop_eq_some hend htext]
    simp only [Option.bind_eq_bind, Option.bind_some, List.nil_append, hstored, hsle, if_true,
      toNat_toCopy hpos hsize hlen, hn, hstrncpy, hstore]
  · intro k hk
    have hlong : k < (padded (text.take n) ++ [0#8]).length := by
      rw [List.length_append, length_padded, List.length_singleton]
      omega
    rw [hn] at hk ⊢
    rw [hdest, if_pos (by omega), Nat.sub_zero]

/-- The destination is the text cut to its size, if there are no characters behind a NUL. -/
lemma cutText_iff {n : ℕ} (hn : n ≤ text.length)
    (hstr : ∀ k ≤ n, str[k]? = (padded (text.take n) ++ [0#8])[k]?) :
    CutText str text n ↔ NulsLast (text.take n) := by
  have hcopied : (text.take n).length = n := List.length_take_of_le hn
  have hlen : (padded (text.take n)).length = n := by rw [length_padded, hcopied]
  have hbelow : ∀ k < n, str[k]? = (padded (text.take n))[k]? := by
    intro k hk
    rw [hstr k hk.le, List.getElem?_append_left (by omega)]
  have hnul : str[n]? = some 0#8 := by
    rw [hstr n le_rfl, List.getElem?_append_right (by omega), hlen, Nat.sub_self]
    rfl
  rw [CutText, and_iff_left hnul, ← padded_eq_iff]
  constructor
  · intro h
    refine List.ext_getElem? fun k => ?_
    by_cases hk : k < n
    · rw [← hbelow k hk, h k hk, List.getElem?_take_of_lt hk]
    · rw [List.getElem?_eq_none (by omega), List.getElem?_eq_none (by omega)]
  · intro h k hk
    rw [hbelow k hk, h, List.getElem?_take_of_lt hk]

/-- **`snprintf`** returns, has stored and read nothing outside of its arguments and `temp`, has
left the text cut to the size, and its full length as the result, exactly if the format does not
end in a single `%`, the text and a NUL fit into `temp`, and no character that is copied stands
behind a NUL. -/
theorem snprintf_iff (hpos : 0 < size.toNat) (hsize : size.toNat < 2 ^ 31)
    (htext : fullText fmt.chars args = some text) (temp : Vector Byte TEMP_SIZE)
    (str : Vector Byte size.toNat) :
    (∃ str', snprintf temp str size fmt args = some (str', BitVec.ofNat 32 text.length) ∧
        CutText str' text (min text.length (size.toNat - 1))) ↔
      endsInPercent fmt.chars = false ∧ text.length < TEMP_SIZE ∧
        NulsLast (text.take (min text.length (size.toNat - 1))) := by
  have hne : size ≠ 0#32 := by
    rintro rfl
    exact absurd hpos (lt_irrefl 0)
  by_cases hend : endsInPercent fmt.chars = true
  · refine iff_of_false ?_ fun h => absurd (hend.symm.trans h.1) (Ne.symm Bool.false_ne_true)
    rintro ⟨str', hrun, -⟩
    rw [snprintf, if_neg hne, vsprintf, vsprintfLoop_eq_none hend] at hrun
    exact Option.some_ne_none _ hrun.symm
  · have hend' := Bool.eq_false_of_not_eq_true hend
    by_cases hlen : text.length < TEMP_SIZE
    · obtain ⟨str', hrun, hstr⟩ := @snprintf_eq _ _ _ _ temp str hpos hsize hend' htext hlen
      rw [and_iff_right hend', and_iff_right hlen, ← cutText_iff (min_le_left _ _) hstr]
      constructor
      · rintro ⟨str'', hrun', hcut⟩
        obtain ⟨rfl, -⟩ := Prod.mk.inj (Option.some.inj (hrun.symm.trans hrun'))
        exact hcut
      · exact fun hcut => ⟨str', hrun, hcut⟩
    · refine iff_of_false ?_ fun h => hlen h.2.1
      rintro ⟨str', hrun, -⟩
      have hover : storeAll 0 (text ++ [0#8]) temp = none := by
        refine storeAll_eq_none temp (Nat.zero_le _) ?_
        rw [List.length_append, List.length_singleton]
        omega
      rw [snprintf, if_neg hne, vsprintf, vsprintfLoop_eq_some hend' htext] at hrun
      simp only [Option.bind_eq_bind, Option.bind_some, List.nil_append, hover,
        Option.bind_none] at hrun
      exact Option.some_ne_none _ hrun.symm

end Snprintf

/-- `%c`. -/
def charFormat : CString := ⟨ascii "%c", by decide⟩

/-- The format `%`. -/
def percentFormat : CString := ⟨ascii "%", by decide⟩

/-- One character, into an array of two. -/
theorem snprintf_iff_char : ∃ str',
    snprintf (Vector.replicate TEMP_SIZE 0xFF#8) (Vector.replicate 2 0xFF#8) 2#32 charFormat
        [.word 65#32] = some (str', 1#32) ∧ CutText str' (ascii "A") 1 := by
  refine (@snprintf_iff 2#32 charFormat [.word 65#32] (ascii "A") (by decide) (by decide)
    (by decide) (Vector.replicate TEMP_SIZE 0xFF#8) (Vector.replicate 2 0xFF#8)).mpr ⟨?_, ?_, ?_⟩
  · decide
  · decide
  · intro c hc
    exact absurd hc (by decide +revert)

/-- With the format `%` the loop runs past the end of the format. -/
theorem snprintf_percent :
    fullText percentFormat.chars [] = some (ascii "%") ∧
      ¬∃ str', snprintf (Vector.replicate TEMP_SIZE 0xFF#8) (Vector.replicate 8 0xFF#8) 8#32
          percentFormat [] = some (str', 1#32) ∧ CutText str' (ascii "%") 1 := by
  refine ⟨by decide, ?_⟩
  rintro ⟨str', hrun, -⟩
  exact absurd hrun (Option.some_ne_none _).symm

end MiqOSoft
