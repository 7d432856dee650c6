import MiqOSoft.Kernel.Printf

/-!
Numbers as text: `hex_str_to_int` and `dec_str_to_int` of `shell_commands.c` on what
`fprintf_unsigned` prints.

* `foldl_digits`: a loop that takes a digit at a time computes the number modulo `2^32`.
* `hexStrToInt_digitText`, `decStrToInt_digitText`: both functions on the text of a number.
* `printed_reads_back`: what is printed for a number of 32 bits is read back, and for a number of
  64 bits it has no zero too many in front and fits the buffer.
-/

namespace MiqOSoft

open Machine Numeral

/-! ### The functions -/

/-- What a character adds to the result of `hex_str_to_int`; one that is no digit adds nothing. -/
def hexDigit (c : Byte) : Word :=
  if (ch '0').toInt ≤ c.toInt ∧ c.toInt ≤ (ch '9').toInt then
    BitVec.ofInt 32 (c.toInt - (ch '0').toInt)
  else if (ch 'a').toInt ≤ c.toInt ∧ c.toInt ≤ (ch 'f').toInt then
    BitVec.ofInt 32 (c.toInt - (ch 'a').toInt + 10)
  else if (ch 'A').toInt ≤ c.toInt ∧ c.toInt ≤ (ch 'F').toInt then
    BitVec.ofInt 32 (c.toInt - (ch 'A').toInt + 10)
  else 0#32

/-- `hex_str_to_int`. -/
def hexStrToInt (hexStr : CString) : Word :=
  let hex :=
    if hexStr.byte 0 = ch '0' ∧ hexStr.byte 1 = ch 'x' then hexStr.chars.drop 2 else hexStr.chars
  hex.foldl (fun result c => (result <<< 4) + hexDigit c) 0#32

/-- The loop of `dec_str_to_int`, on the characters in front of the NUL. -/
def decLoop : List Byte → Word → Word
  | [], result => result
  | c :: decStr, result =>
      if (ch '0').toInt ≤ c.toInt ∧ c.toInt ≤ (ch '9').toInt then
        decLoop decStr (result * 10#32 + BitVec.ofInt 32 (c.toInt - (ch '0').toInt))
      else result

/-- `dec_str_to_int`. -/
def decStrToInt (decStr : CString) : Word := decLoop decStr.chars 0#32

/-! ### Digits -/

variable {b n : ℕ}

lemma hexDigit_getD {d : ℕ} (hd : d < 16) :
    hexDigit (hexChars.getD d 0#8) = BitVec.ofNat 32 d := by
  have hall : ∀ d : Fin 16, hexDigit (hexChars.getD d 0#8) = BitVec.ofNat 32 d := by decide
  exact hall ⟨d, hd⟩

lemma digit_of_lt_ten {d : ℕ} (hd : d < 10) :
    ((ch '0').toInt ≤ (hexChars.getD d 0#8).toInt ∧ (hexChars.getD d 0#8).toInt ≤ (ch '9').toInt)
      ∧ BitVec.ofInt 32 ((hexChars.getD d 0#8).toInt - (ch '0').toInt) = BitVec.ofNat 32 d := by
  have hall : ∀ d : Fin 10, ((ch '0').toInt ≤ (hexChars.getD d 0#8).toInt
      ∧ (hexChars.getD d 0#8).toInt ≤ (ch '9').toInt)
      ∧ BitVec.ofInt 32 ((hexChars.getD d 0#8).toInt - (ch '0').toInt) = BitVec.ofNat 32 d := by
    decide
  exact hall ⟨d, hd⟩

/-- No digit is a NUL or the `x` of a prefix, and only zero has the character `0`. -/
lemma getD_hexChars {d : ℕ} (hd : d < 16) : hexChars.getD d 0#8 ≠ 0#8
    ∧ hexChars.getD d 0#8 ≠ ch 'x' ∧ (hexChars.getD d 0#8 = ch '0' → d = 0) := by
  have hall : ∀ d : Fin 16, hexChars.getD d 0#8 ≠ 0#8
      ∧ hexChars.getD d 0#8 ≠ ch 'x' ∧ (hexChars.getD d 0#8 = ch '0' → (d : ℕ) = 0) := by decide
  exact hall ⟨d, hd⟩

lemma forall_mem_digitText {P : Byte → Prop} (hlo : 1 < b)
    (hP : ∀ d < b, P (hexChars.getD d 0#8)) : ∀ c ∈ digitText b n, P c := by
  intro c hc
  rw [digitText] at hc
  obtain ⟨d, hd, rfl⟩ := List.mem_map.mp hc
  exact hP d (lt_of_mem_numeral hlo hd)

/-- The text of a number as a string. -/
def numberText (b n : ℕ) (hlo : 1 < b) (hhi : b ≤ 16) : CString :=
  ⟨digitText b n, fun h0 =>
    forall_mem_digitText (P := fun c => c ≠ 0#8) hlo
      (fun _ hd => (getD_hexChars (hd.trans_le hhi)).1) _ h0 rfl⟩

/-- The same behind a prefix `0x`. -/
def prefixedText (b n : ℕ) (hlo : 1 < b) (hhi : b ≤ 16) : CString :=
  ⟨ch '0' :: ch 'x' :: digitText b n, by
    have hnul := (numberText b n hlo hhi).noNul
    rw [List.mem_cons, List.mem_cons, not_or, not_or]
    exact ⟨by decide, by decide, hnul⟩⟩

/-- No superfluous zero stands in front of a number. -/
lemma digitText_zero (hlo : 1 < b) (hhi : b ≤ 16) (h : (digitText b n).head? = some (ch '0')) :
    digitText b n = [ch '0'] := by
  rw [digitText, List.head?_map] at h
  obtain ⟨d, hhead, hd⟩ := Option.map_eq_some_iff.mp h
  have hlt : d < b := lt_of_mem_numeral hlo (List.mem_of_head? hhead)
  obtain rfl : d = 0 := (getD_hexChars (hlt.trans_le hhi)).2.2 hd
  obtain rfl := head?_numeral hhead
  rw [digitText, numeral_of_lt hlo (by omega)]
  rfl

/-! ### Reading -/

/-- A loop that takes a digit at a time computes the number, modulo `2^32`. -/
lemma foldl_digits {f : Word → Byte → Word}
    (hf : ∀ r d, d < b → f (BitVec.ofNat 32 r) (hexChars.getD d 0#8) = BitVec.ofNat 32 (r * b + d))
    {ds : List ℕ} (hds : ∀ d ∈ ds, d < b) (r : ℕ) :
    (ds.map fun d => hexChars.getD d 0#8).foldl f (BitVec.ofNat 32 r) =
      BitVec.ofNat 32 (ds.foldl (fun r d => r * b + d) r) := by
  induction ds generalizing r with
  | nil => rfl
  | cons d ds ih =>
      obtain ⟨hd, hds⟩ := List.forall_mem_cons.mp hds
      rw [List.map_cons, List.foldl_cons, List.foldl_cons, hf r d hd]
      exact ih hds _

lemma hex_step (r : ℕ) {d : ℕ} (hd : d < 16) :
    (BitVec.ofNat 32 r <<< 4) + hexDigit (hexChars.getD d 0#8) = BitVec.ofNat 32 (r * 16 + d) := by
  rw [hexDigit_getD hd, BitVec.ofNat_add, BitVec.ofNat_mul]
  apply BitVec.eq_of_toNat_eq
  simp only [BitVec.toNat_add, BitVec.toNat_shiftLeft, BitVec.toNat_mul, BitVec.toNat_ofNat,
    Nat.shiftLeft_eq]

/-- The loop of `hex_str_to_int` on the text of a number. -/
lemma foldl_hexDigit (n : ℕ) : (digitText 16 n).foldl
    (fun (result : Word) c => (result <<< 4) + hexDigit c) 0#32 = BitVec.ofNat 32 n := by
  have hdigits : ∀ d ∈ numeral 16 n, d < 16 := fun d hd => lt_of_mem_numeral (by decide) hd
  have hloop := foldl_digits (f := fun result c => (result <<< 4) + hexDigit c)
    (fun r d hd => hex_step r hd) hdigits 0
  exact hloop.trans (congrArg _ (value_numeral 16 n))

/-- **`hex_str_to_int`** reads a number back, modulo `2^32`. -/
theorem hexStrToInt_digitText (n : ℕ) :
    hexStrToInt (numberText 16 n (by decide) (by decide)) = BitVec.ofNat 32 n := by
  have hnox : ¬(numberText 16 n (by decide) (by decide)).byte 1 = ch 'x' := by
    rw [CString.byte]
    by_cases hlen : 1 < (digitText 16 n).length
    · have hmem := List.getElem_mem hlen
      rw [numberText, List.getD_eq_getElem _ _ hlen]
      exact forall_mem_digitText (P := fun c => c ≠ ch 'x') (by decide)
        (fun d hd => (getD_hexChars hd).2.1) _ hmem
    · rw [numberText, List.getD_eq_default _ _ (Nat.not_lt.mp hlen)]
      decide
  rw [hexStrToInt, if_neg fun h => hnox h.2]
  exact foldl_hexDigit n

/-- It does so behind a prefix. -/
theorem hexStrToInt_prefixedText (n : ℕ) :
    hexStrToInt (prefixedText 16 n (by decide) (by decide)) = BitVec.ofNat 32 n := by
  rw [hexStrToInt, if_pos ⟨rfl, rfl⟩]
  exact foldl_hexDigit n

/-- The loop of `dec_str_to_int` does not stop in front of a digit. -/
lemma decLoop_digits {ds : List ℕ} (hds : ∀ d ∈ ds, d < 10) (r : ℕ) :
    decLoop (ds.map fun d => hexChars.getD d 0#8) (BitVec.ofNat 32 r) =
      BitVec.ofNat 32 (ds.foldl (fun r d => r * 10 + d) r) := by
  induction ds generalizing r with
  | nil => rfl
  | cons d ds ih =>
      obtain ⟨hd, hds⟩ := List.forall_mem_cons.mp hds
      obtain ⟨hdigit, hvalue⟩ := digit_of_lt_ten hd
      have hstep :
          BitVec.ofNat 32 r * 10#32 + BitVec.ofNat 32 d = BitVec.ofNat 32 (r * 10 + d) := by
        rw [BitVec.ofNat_add, BitVec.ofNat_mul]
      rw [List.map_cons, decLoop, if_pos hdigit, hvalue, hstep, List.foldl_cons]
      exact ih hds _

/-- **`dec_str_to_int`** reads a number back, modulo `2^32`. -/
theorem decStrToInt_digitText (n : ℕ) :
    decStrToInt (numberText 10 n (by decide) (by decide)) = BitVec.ofNat 32 n := by
  have hdigits : ∀ d ∈ numeral 10 n, d < 10 := fun d hd => lt_of_mem_numeral (by decide) hd
  have hloop := decLoop_digits hdigits 0
  exact hloop.trans (congrArg _ (value_numeral 10 n))

/-- The text of a number of 64 bits, for which the buffer has room. -/
lemma length_digitText_le (hlo : 8 ≤ b) (number : BitVec 64) :
    (digitText b number.toNat).length ≤ 32 := by
  rw [digitText, List.length_map, length_numeral, length_lowDigits_le_iff (by omega) (by decide)]
  calc number.toNat < 2 ^ 64 := number.isLt
    _ ≤ 8 ^ 32 := by norm_num
    _ ≤ b ^ 32 := Nat.pow_le_pow_left hlo 32

/-- **Numbers are read back as they were printed**: a number of 32 bits in radix 16, with or without
a prefix, and in radix 10.  The text of a number of 64 bits in radix 8, 10 or 16 fits the buffer of
`fprintf_unsigned` and has no superfluous zero in front. -/
theorem printed_reads_back :
    (∀ n : Word, ∃ hex prefixed dec : CString,
      fprintfUnsigned (n.setWidth 64) 16 [] = some hex.chars ∧ hexStrToInt hex = n
      ∧ prefixed.chars = ch '0' :: ch 'x' :: hex.chars ∧ hexStrToInt prefixed = n
      ∧ fprintfUnsigned (n.setWidth 64) 10 [] = some dec.chars ∧ decStrToInt dec = n)
    ∧ ∀ number : BitVec 64, ∀ radix ∈ [8, 10, 16], ∃ text,
      fprintfUnsigned number radix [] = some text ∧ text.length ≤ 32
      ∧ (text.head? = some (ch '0') → text = [ch '0']) := by
  refine ⟨fun n => ?_, fun number radix hradix => ?_⟩
  · have hwide : (n.setWidth 64).toNat = n.toNat := by
      have hlt := n.isLt
      rw [BitVec.toNat_setWidth, Nat.mod_eq_of_lt (by omega)]
    have hback : BitVec.ofNat 32 n.toNat = n := by simp
    refine ⟨numberText 16 n.toNat (by decide) (by decide),
      prefixedText 16 n.toNat (by decide) (by decide),
      numberText 10 n.toNat (by decide) (by decide), ?_, ?_, rfl, ?_, ?_, ?_⟩
    · rw [fprintfUnsigned_eq (by decide) (by decide), hwide]
      rfl
    · rw [hexStrToInt_digitText, hback]
    · rw [hexStrToInt_prefixedText, hback]
    · rw [fprintfUnsigned_eq (by decide) (by decide), hwide]
      rfl
    · rw [decStrToInt_digitText, hback]
  · have hrange : 8 ≤ radix ∧ radix ≤ 16 := by
      simp only [List.mem_cons, List.not_mem_nil, or_false] at hradix
      omega
    obtain ⟨hlo, hhi⟩ := hrange
    refine ⟨digitText radix number.toNat, ?_, length_digitText_le hlo number, ?_⟩
    · rw [fprintfUnsigned_eq hlo hhi, List.nil_append]
    · exact digitText_zero (by omega) hhi

end MiqOSoft
