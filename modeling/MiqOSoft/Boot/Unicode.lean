import MiqOSoft.Machine.Memory

/-!
The conversion of `string.c` from UTF-16 to UTF-8, unit by unit as for the long file names of
`fat.c`.

* `utf16ToCodepoint`, `codepointToUtf8`, `transcode`: the two functions and the loop.
* `Transcribes`: the loop leaves exactly the UTF-8 bytes of the characters, at the output pointer
  and nowhere else.
* `transcodeLoop_units`: what the loop does to the units of any sequence of characters.
* `transcribes_iff`: the loop transcribes a sequence exactly if all its characters are written with
  one unit and with more than one byte.
-/

namespace MiqOSoft

open Machine

/-! ### The functions -/

/-- The bytes at and around the running output pointer. -/
structure Utf8Output where
  bytes : ℕ → Byte
  pos : ℕ

/-- `*stringOutput++ = c`. -/
def Utf8Output.push (out : Utf8Output) (c : Byte) : Utf8Output where
  bytes := Function.update out.bytes out.pos c
  pos := out.pos + 1

/-- The branch of `utf16_to_codepoint`: what it stores to `*codepoint`, if it is taken, and the
string behind it. -/
def utf16Pair (c1 : Word) (string : List Word) : Option (Option Word × List Word) :=
  if (0xd800#32).sle c1 ∧ c1.slt 0xdc00#32 then
    match string with
    | [] => none
    | c2 :: string =>
        some (some (((c1 &&& 0x3ff#32) <<< 10) + (c2 &&& 0x3ff#32) + 0x10000#32), string)
  else some (none, string)

/-- `utf16_to_codepoint` on the units that may be read: the code point, and the string from the
returned pointer on. -/
def utf16ToCodepoint : List Word → Option (Word × List Word)
  | [] => none
  | c1 :: string => do
      let (_codepoint, string) ← utf16Pair c1 string
      -- the assignment behind the branch overwrites what the branch has stored
      some (c1, string)

/-- `codepoint_to_utf8`. -/
def codepointToUtf8 (codepoint : Word) (out : Utf8Output) : Utf8Output :=
  if codepoint.sle 0x7F#32 then
    -- this branch does not advance the pointer
    { out with bytes := Function.update out.bytes out.pos (codepoint.setWidth 8) }
  else if codepoint.sle 0x7FF#32 then
    (out.push ((0xC0#32 ||| (codepoint.sshiftRight 6 &&& 0x1F#32)).setWidth 8)).push
      ((0x80#32 ||| (codepoint &&& 0x3F#32)).setWidth 8)
  else if codepoint.sle 0xFFFF#32 then
    ((out.push ((0xE0#32 ||| (codepoint.sshiftRight 12 &&& 0xF#32)).setWidth 8)).push
      ((0x80#32 ||| (codepoint.sshiftRight 6 &&& 0x3F#32)).setWidth 8)).push
      ((0x80#32 ||| (codepoint &&& 0x3F#32)).setWidth 8)
  else if codepoint.sle 0x1FFFFF#32 then
    (((out.push ((0xF0#32 ||| (codepoint.sshiftRight 18 &&& 0x7#32)).setWidth 8)).push
      ((0x80#32 ||| (codepoint.sshiftRight 12 &&& 0x3F#32)).setWidth 8)).push
      ((0x80#32 ||| (codepoint.sshiftRight 6 &&& 0x3F#32)).setWidth 8)).push
      ((0x80#32 ||| (codepoint &&& 0x3F#32)).setWidth 8)
  else out

/-- The two functions in turn, as in the search for long names of `FAT_FindFile`, up to the last
unit and with so many turns at most. -/
def transcodeLoop : ℕ → List Word → Utf8Output → Option Utf8Output
  | _, [], namePos => some namePos
  | 0, _ :: _, _ => none
  | n + 1, c :: chars, namePos => do
      let (codepoint, chars) ← utf16ToCodepoint (c :: chars)
      transcodeLoop n chars (codepointToUtf8 codepoint namePos)

/-- The loop over all units.  A turn takes one at least. -/
def transcode (chars : List Word) (namePos : Utf8Output) : Option Utf8Output :=
  transcodeLoop chars.length chars namePos

/-! ### What it is for -/

/-- The UTF-16 code units of a character. -/
def utf16Units (c : Char) : List Word :=
  if c.toNat < 0x10000 then [BitVec.ofNat 32 c.toNat]
  else [BitVec.ofNat 32 (0xd800 + (c.toNat - 0x10000) / 0x400),
    BitVec.ofNat 32 (0xdc00 + (c.toNat - 0x10000) % 0x400)]

/-- The UTF-8 bytes of a character. -/
def utf8Bytes (c : Char) : List Byte := (String.utf8EncodeChar c).map UInt8.toBitVec

/-- The text is stored from the pointer of `out` on, `out'` points behind it, and every other byte
is as before. -/
structure Stores (text : List Byte) (out out' : Utf8Output) : Prop where
  pos : out'.pos = out.pos + text.length
  stored : ∀ i, ∀ c ∈ text[i]?, out'.bytes (out.pos + i) = c
  frame : ∀ a, a < out.pos ∨ out.pos + text.length ≤ a → out'.bytes a = out.bytes a

/-- The loop turns the UTF-16 units of the characters into their UTF-8 bytes. -/
def Transcribes (s : List Char) (out : Utf8Output) : Prop :=
  ∃ out', transcode (s.flatMap utf16Units) out = some out' ∧ Stores (s.flatMap utf8Bytes) out out'

/-! ### Stored text -/

@[simp] lemma Utf8Output.pos_push (out : Utf8Output) (c : Byte) :
    (out.push c).pos = out.pos + 1 := rfl

@[simp] lemma Utf8Output.bytes_push (out : Utf8Output) (c : Byte) :
    (out.push c).bytes = Function.update out.bytes out.pos c := rfl

/-- Stored bytes, one after the other. -/
def Utf8Output.pushAll (out : Utf8Output) (text : List Byte) : Utf8Output := text.foldl .push out

lemma stores_nil (out : Utf8Output) : Stores [] out out :=
  ⟨rfl, fun _ _ h => absurd h (by simp), fun _ _ => rfl⟩

lemma stores_cons {c : Byte} {text : List Byte} {out out' : Utf8Output}
    (h : Stores text (out.push c) out') : Stores (c :: text) out out' where
  pos := by
    rw [h.pos, List.length_cons, Utf8Output.pos_push]
    omega
  stored i c' hc' := by
    cases i with
    | zero =>
        obtain rfl := Option.some.inj hc'
        rw [Nat.add_zero, h.frame _ (Or.inl (Nat.lt_succ_self _))]
        exact Function.update_self _ _ _
    | succ i =>
        rw [List.getElem?_cons_succ] at hc'
        rw [← h.stored i c' hc', Utf8Output.pos_push, Nat.add_assoc, Nat.add_comm 1 i]
  frame a ha := by
    rw [List.length_cons] at ha
    have hne : a ≠ out.pos := by omega
    rw [h.frame a (by rw [Utf8Output.pos_push]; omega), Utf8Output.bytes_push]
    exact Function.update_of_ne hne _ _

lemma stores_pushAll (text : List Byte) (out : Utf8Output) :
    Stores text out (out.pushAll text) := by
  induction text generalizing out with
  | nil => exact stores_nil out
  | cons c text ih => exact stores_cons (ih (out.push c))

/-! ### One character -/

lemma utf16Units_ne_nil (c : Char) : utf16Units c ≠ [] := by
  rw [utf16Units]
  split_ifs <;> exact List.cons_ne_nil _ _

/-- The code point that is read for a character: its first unit. -/
def firstUnit (c : Char) : Word :=
  if c.toNat < 0x10000 then BitVec.ofNat 32 c.toNat
  else BitVec.ofNat 32 (0xd800 + (c.toNat - 0x10000) / 0x400)

lemma scalar_toNat (c : Char) :
    c.toNat < 0x110000 ∧ (c.toNat < 0xd800 ∨ 0xdfff < c.toNat) := by
  rcases c.valid with h | ⟨h, h'⟩
  · exact ⟨Nat.lt_trans h (by decide), Or.inl h⟩
  · exact ⟨h', Or.inr h⟩

/-- A character is read as its first unit, and its units are consumed. -/
lemma utf16ToCodepoint_units (c : Char) (rest : List Word) :
    utf16ToCodepoint (utf16Units c ++ rest) = some (firstUnit c, rest) := by
  obtain ⟨hlt, hscalar⟩ := scalar_toNat c
  have hlead : ∀ n < 2 ^ 31, ((0xd800#32).sle (BitVec.ofNat 32 n) ∧
      (BitVec.ofNat 32 n).slt 0xdc00#32) ↔ 0xd800 ≤ n ∧ n < 0xdc00 := fun n hn =>
    and_congr (sle_ofNat (by decide) hn) (slt_ofNat hn (by decide))
  by_cases hbmp : c.toNat < 0x10000
  · rw [utf16Units, firstUnit, if_pos hbmp, if_pos hbmp, List.singleton_append, utf16ToCodepoint,
      utf16Pair.eq_def, if_neg (by rw [hlead _ (by omega)]; omega)]
    rfl
  · rw [utf16Units, firstUnit, if_neg hbmp, if_neg hbmp, List.cons_append, List.singleton_append,
      utf16ToCodepoint, utf16Pair.eq_def, if_pos (by rw [hlead _ (by omega)]; omega)]
    rfl

/-- How far the pointer is advanced over a code point. -/
def utf8Advance (n : ℕ) : ℕ := if n ≤ 0x7F then 0 else if n ≤ 0x7FF then 2 else 3

lemma pos_codepointToUtf8_ofNat {n : ℕ} (hn : n ≤ 0xFFFF) (out : Utf8Output) :
    (codepointToUtf8 (BitVec.ofNat 32 n) out).pos = out.pos + utf8Advance n := by
  have hsle : ∀ k < 2 ^ 31, (BitVec.ofNat 32 n).sle (BitVec.ofNat 32 k) ↔ n ≤ k := fun k hk =>
    sle_ofNat (by omega) hk
  rw [codepointToUtf8, utf8Advance]
  simp only [hsle 0x7F (by decide), hsle 0x7FF (by decide), hsle 0xFFFF (by decide), if_pos hn]
  split_ifs <;> rfl

/-- The first unit of a pair is taken for a code point of three bytes. -/
lemma pos_codepointToUtf8 (c : Char) (out : Utf8Output) :
    (codepointToUtf8 (firstUnit c) out).pos = out.pos + utf8Advance c.toNat := by
  have hlt := (scalar_toNat c).1
  rw [firstUnit]
  split_ifs with hbmp
  · exact pos_codepointToUtf8_ofNat (by omega) out
  · rw [pos_codepointToUtf8_ofNat (by omega) out, utf8Advance, utf8Advance, if_neg (by omega),
      if_neg (by omega), if_neg (by omega), if_neg (by omega)]

lemma length_utf8Bytes (c : Char) : (utf8Bytes c).length =
    if c.toNat ≤ 0x7F then 1 else if c.toNat ≤ 0x7FF then 2
    else if c.toNat ≤ 0xFFFF then 3 else 4 := by
  rw [utf8Bytes, List.length_map, String.utf8EncodeChar]
  simp only [apply_ite List.length]
  rfl

/-- The pointer is advanced by the size of a character at most. -/
lemma utf8Advance_le (c : Char) : utf8Advance c.toNat ≤ (utf8Bytes c).length := by
  rw [length_utf8Bytes, utf8Advance]
  split_ifs <;> omega

/-- It is advanced by less over a character of one byte, and over one of two units. -/
lemma utf8Advance_eq_iff (c : Char) :
    utf8Advance c.toNat = (utf8Bytes c).length ↔ 0x80 ≤ c.toNat ∧ c.toNat ≤ 0xFFFF := by
  rw [length_utf8Bytes, utf8Advance]
  split_ifs <;> grind

/-- Bits of an `int` behind a leading byte pattern, as a `char`. -/
lemma setWidth_or_and (lead x mask : Word) :
    (lead ||| (x &&& mask)).setWidth 8
      = (x.setWidth 8 &&& mask.setWidth 8) ||| lead.setWidth 8 := by
  rw [BitVec.setWidth_or, BitVec.setWidth_and, BitVec.or_comm]

lemma sshiftRight_ofNat {n : ℕ} (hn : n < 2 ^ 31) (k : ℕ) :
    (BitVec.ofNat 32 n).sshiftRight k = BitVec.ofNat 32 n >>> k := by
  refine BitVec.sshiftRight_eq_of_msb_false (BitVec.msb_eq_false_iff_two_mul_lt.mpr ?_)
  rw [BitVec.toNat_ofNat]
  omega

/-- A character of two or three bytes is stored as its UTF-8 bytes. -/
lemma codepointToUtf8_eq_pushAll {c : Char} (hlow : 0x80 ≤ c.toNat) (hhigh : c.toNat ≤ 0xFFFF)
    (out : Utf8Output) :
    codepointToUtf8 (BitVec.ofNat 32 c.toNat) out = out.pushAll (utf8Bytes c) := by
  have hsle : ∀ k < 2 ^ 31, (BitVec.ofNat 32 c.toNat).sle (BitVec.ofNat 32 k) ↔ c.toNat ≤ k :=
    fun k hk => sle_ofNat (by omega) hk
  have hval : BitVec.ofNat 32 c.toNat = c.val.toBitVec := c.val.toBitVec.ofNat_toNat 32
  rw [codepointToUtf8, if_neg (by rw [hsle 0x7F (by decide)]; omega)]
  simp only [sshiftRight_ofNat (show c.toNat < 2 ^ 31 by omega), setWidth_or_and]
  by_cases htwo : c.toNat ≤ 0x7FF
  · have hsize : c.utf8Size = 2 :=
      Char.utf8Size_eq_two_iff.mpr
        ⟨UInt32.lt_iff_toNat_lt.mpr hlow, UInt32.le_iff_toNat_le.mpr htwo⟩
    rw [if_pos (by rwa [hsle 0x7FF (by decide)]), utf8Bytes,
      String.utf8EncodeChar_eq_cons_cons hsize, hval]
    rfl
  · have hsize : c.utf8Size = 3 :=
      Char.utf8Size_eq_three_iff.mpr
        ⟨UInt32.lt_iff_toNat_lt.mpr (Nat.lt_of_not_le htwo), UInt32.le_iff_toNat_le.mpr hhigh⟩
    rw [if_neg (by rwa [hsle 0x7FF (by decide)]), if_pos (by rwa [hsle 0xFFFF (by decide)]),
      utf8Bytes, String.utf8EncodeChar_eq_cons_cons_cons hsize, hval]
    rfl

/-! ### A sequence of characters -/

/-- A turn of the loop takes the units of one character. -/
lemma transcodeLoop_append (c : Char) (rest : List Word) (n : ℕ) (out : Utf8Output) :
    transcodeLoop (n + 1) (utf16Units c ++ rest) out
      = transcodeLoop n rest (codepointToUtf8 (firstUnit c) out) := by
  have hread := utf16ToCodepoint_units c rest
  obtain ⟨u, us, hunits⟩ := List.exists_cons_of_ne_nil (utf16Units_ne_nil c)
  rw [hunits, List.cons_append] at hread ⊢
  rw [transcodeLoop, hread]
  rfl

/-- **The loop** stores for each character what belongs to its first unit. -/
theorem transcodeLoop_units (s : List Char) {n : ℕ} (hn : (s.flatMap utf16Units).length ≤ n)
    (out : Utf8Output) :
    transcodeLoop n (s.flatMap utf16Units) out
      = some (s.foldl (fun out c => codepointToUtf8 (firstUnit c) out) out) := by
  induction s generalizing n out with
  | nil => rw [List.flatMap_nil, transcodeLoop, List.foldl_nil]
  | cons c s ih =>
      have hpos := List.length_pos_iff.mpr (utf16Units_ne_nil c)
      rw [List.flatMap_cons, List.length_append] at hn
      obtain ⟨n, rfl⟩ := Nat.exists_eq_succ_of_ne_zero (n := n) (by omega)
      rw [List.flatMap_cons, transcodeLoop_append, ih (by omega), List.foldl_cons]

lemma transcode_units (s : List Char) (out : Utf8Output) :
    transcode (s.flatMap utf16Units) out
      = some (s.foldl (fun out c => codepointToUtf8 (firstUnit c) out) out) :=
  transcodeLoop_units s le_rfl out

/-- The pointer behind the loop. -/
lemma pos_foldl (s : List Char) (out : Utf8Output) :
    (s.foldl (fun out c => codepointToUtf8 (firstUnit c) out) out).pos
      = out.pos + (s.map fun c => utf8Advance c.toNat).sum := by
  induction s generalizing out with
  | nil => rfl
  | cons c s ih =>
      rw [List.foldl_cons, ih, pos_codepointToUtf8, List.map_cons, List.sum_cons, Nat.add_assoc]

/-- Characters of two or three bytes are stored one after the other. -/
lemma foldl_eq_pushAll {s : List Char} (hs : ∀ c ∈ s, 0x80 ≤ c.toNat ∧ c.toNat ≤ 0xFFFF)
    (out : Utf8Output) :
    s.foldl (fun out c => codepointToUtf8 (firstUnit c) out) out
      = out.pushAll (s.flatMap utf8Bytes) := by
  induction s generalizing out with
  | nil => rfl
  | cons c s ih =>
      obtain ⟨⟨hlow, hhigh⟩, hs⟩ := List.forall_mem_cons.mp hs
      rw [List.foldl_cons, firstUnit, if_pos (Nat.lt_succ_of_le hhigh),
        codepointToUtf8_eq_pushAll hlow hhigh, ih hs, List.flatMap_cons, Utf8Output.pushAll,
        Utf8Output.pushAll, Utf8Output.pushAll, List.foldl_append]

/-- A loop that transcribes has advanced the pointer over all bytes. -/
lemma sum_utf8Advance_of_transcribes {s : List Char} {out : Utf8Output} (h : Transcribes s out) :
    (s.map fun c => utf8Advance c.toNat).sum = (s.map fun c => (utf8Bytes c).length).sum := by
  obtain ⟨out', hrun, hstores⟩ := h
  rw [transcode_units, Option.some_inj] at hrun
  have hpos := hstores.pos
  rwa [← hrun, pos_foldl, List.length_flatMap, Nat.add_left_cancel_iff] at hpos

/-- **Transcription** succeeds exactly if every character is one unit and more than one byte
long: the pointer stays behind after a character of one byte, and after a surrogate pair. -/
theorem transcribes_iff (s : List Char) (out : Utf8Output) :
    Transcribes s out ↔ ∀ c ∈ s, 0x80 ≤ c.toNat ∧ c.toNat ≤ 0xFFFF := by
  constructor
  · intro h c hc
    by_contra hbad
    have hne : utf8Advance c.toNat ≠ (utf8Bytes c).length := mt (utf8Advance_eq_iff c).mp hbad
    have hlt := List.sum_lt_sum (fun c => utf8Advance c.toNat) (fun c => (utf8Bytes c).length)
      (fun c _ => utf8Advance_le c) ⟨c, hc, Nat.lt_of_le_of_ne (utf8Advance_le c) hne⟩
    exact Nat.ne_of_lt hlt (sum_utf8Advance_of_transcribes h)
  · intro hs
    refine ⟨_, transcode_units s out, ?_⟩
    rw [foldl_eq_pushAll hs]
    exact stores_pushAll _ out

/-- A letter, over which the pointer is not advanced, and a character of two units, which is taken
for one of three bytes. -/
theorem transcribes_letter_and_pair :
    ¬Transcribes ['A'] ⟨fun _ => 0#8, 0⟩ ∧
      ¬Transcribes [Char.ofNat 0x1F600] ⟨fun _ => 0#8, 0⟩ := by
  constructor
  · exact fun h => absurd (sum_utf8Advance_of_transcribes h) (by decide)
  · exact fun h => absurd (sum_utf8Advance_of_transcribes h) (by decide)

end MiqOSoft
