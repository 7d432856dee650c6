import MiqOSoft.Kernel.Printf

/-!
`itoa` and `vsprintf` of the kernel's `string.c`, against `vfprintf`.

* `itoa`: the number is divided as an `int`, and the digit is computed from the remainder.
* `vsprintf`: the characters stored in front of the NUL at the end, and the value returned.
* `Piece`: the formats that both functions document, each conversion with its argument.
* `stored_eq_iff`: what `vsprintf` stores for a piece is what `vfprintf` emits, or it is something
  else that is not longer.
-/

namespace MiqOSoft

open Machine Numeral

/-- The character of a digit: `(rem > 9) ? (rem - 10) + 'a' : rem + '0'`. -/
def itoaDigit (rem : Word) : Byte :=
  if (9#32).slt rem then (rem - 10#32 + 97#32).setWidth 8 else (rem + 48#32).setWidth 8

/-- The loop of `itoa`, which stores at most so many characters. -/
def itoaLoop (base : ℕ) : ℕ → Word → Option (List Byte)
  | 0, num => if num = 0#32 then some [] else none
  | room + 1, num =>
      if num = 0#32 then some []
      else do
        let cs ← itoaLoop base room (num.sdiv (BitVec.ofNat 32 base))
        some (itoaDigit (num.srem (BitVec.ofNat 32 base)) :: cs)

/-- `itoa`: the string stored, in a buffer of 32 characters.  The negation wraps around. -/
def itoa (num : Word) (base : ℕ) : Option (List Byte) :=
  if num = 0#32 then some [ch '0']
  else do
    let isNegative := num.slt 0#32 ∧ base = 10
    let digits ← itoaLoop base 32 (if isNegative then -num else num)
    let str := if isNegative then digits ++ [ch '-'] else digits
    if str.length < 32 then some str.reverse else none

/-- The switch of `vsprintf`: what is stored for the character after a `%`.  Strings are not
NULL here. -/
def vsprintfSpec (c : Byte) (args : VaList) : Option (List Byte × VaList) :=
  if c = ch 's' then do
    let (s, args) ← vaText args
    some (s.chars, args)
  else if c = ch 'd' then do
    let (num, args) ← vaWord args
    let s ← itoa num 10
    some (textOf s, args)
  else if c = ch 'x' then do
    let (num, args) ← vaWord args
    let s ← itoa num 16
    some (textOf s, args)
  else if c = ch 'c' then do
    let (c, args) ← vaWord args
    some ([c.setWidth 8], args)
  else if c = ch '%' then some ([ch '%'], args)
  else some ([ch '%', c], args)

/-- The loop of `vsprintf`.  After a `%` at the end of the format it would read on behind the
terminator. -/
def vsprintfLoop : List Byte → VaList → List Byte → Option (List Byte)
  | [], _, out => some out
  | c :: fmt, args, out =>
      if c ≠ ch '%' then vsprintfLoop fmt args (out ++ [c])
      else
        match fmt with
        | [] => none
        | d :: fmt => do
            let (s, args) ← vsprintfSpec d args
            vsprintfLoop fmt args (out ++ s)

/-- `vsprintf`, for pointers that are not NULL: the characters stored in front of the NUL, and
the value `str_ptr - str` returned. -/
def vsprintf (fmt : CString) (args : VaList) : Option (List Byte × Word) := do
  let out ← vsprintfLoop fmt.chars args []
  some (out, BitVec.ofNat 32 out.length)

/-! ### The formats in common -/

/-- A literal character, or a conversion with its argument. -/
inductive Piece
  | literal (c : Byte) (hpercent : c ≠ ch '%') (hnul : c ≠ 0#8)
  | string (s : CString)
  | decimal (num : Word)
  | hex (num : Word)
  | char (c : Word)
  | percent

namespace Piece

/-- The piece of the format. -/
def text : Piece → List Byte
  | literal c _ _ => [c]
  | string _ => [ch '%', ch 's']
  | decimal _ => [ch '%', ch 'd']
  | hex _ => [ch '%', ch 'x']
  | char _ => [ch '%', ch 'c']
  | percent => [ch '%', ch '%']

/-- The argument, if there is one. -/
def arg : Piece → VaList
  | literal _ _ _ => []
  | string s => [.text s]
  | decimal num => [.word num]
  | hex num => [.word num]
  | char c => [.word c]
  | percent => []

/-- What `vfprintf` emits. -/
def emitted : Piece → List Byte
  | literal c _ _ => [c]
  | string s => s.chars
  | decimal num => signedText 10 num.toInt
  | hex num => digitText 16 num.toNat
  | char c => [c.setWidth 8]
  | percent => [ch '%']

/-- The smallest `int` cannot be negated, and a number whose highest bit is set is negative for
`itoa`. -/
def Regular : Piece → Prop
  | decimal num => num ≠ BitVec.intMin 32
  | hex num => num.toNat < 2 ^ 31
  | _ => True

lemma zero_notMem_text (p : Piece) : 0#8 ∉ p.text := by
  cases p with
  | literal c hpercent hnul => simpa [text] using Ne.symm hnul
  | string s => simp [text, ch]
  | decimal num => simp [text, ch]
  | hex num => simp [text, ch]
  | char c => simp [text, ch]
  | percent => simp [text, ch]

end Piece

/-- The format made of the pieces. -/
def formatOf (ps : List Piece) : CString where
  chars := ps.flatMap Piece.text
  noNul h := by
    obtain ⟨p, -, hp⟩ := List.mem_flatMap.mp h
    exact p.zero_notMem_text hp

/-- Its arguments. -/
def argsOf (ps : List Piece) : VaList := ps.flatMap Piece.arg

/-! ### The loop of `itoa` -/

lemma itoaDigit_of_nonneg {rem : Word} {k : ℕ} (hk : k < 16) (hrem : rem.toInt = k) :
    itoaDigit rem = hexChars.getD k 0#8 := by
  obtain rfl : rem = BitVec.ofNat 32 k := by
    rw [← BitVec.toInt_inj, hrem, toInt_ofNat_radix le_rfl hk.le]
  interval_cases k <;> rfl

/-- A negative remainder gives a character in front of the digits. -/
lemma itoaDigit_of_nonpos {rem : Word} {k : ℕ} (hk : k < 16) (hrem : rem.toInt = -k) :
    itoaDigit rem = BitVec.ofNat 8 (48 - k) := by
  obtain rfl : rem = -BitVec.ofNat 32 k := by
    rw [← BitVec.toInt_inj, hrem]
    interval_cases k <;> rfl
  interval_cases k <;> rfl

/-- The loop finds the digits of the absolute value, each of them with the sign of the number. -/
lemma itoaLoop_eq {base : ℕ} (hlo : 1 < base) (hhi : base ≤ 16) {sign : ℤ}
    (hsign : sign = 1 ∨ sign = -1) {digit : ℕ → Byte}
    (hdigit : ∀ (k : ℕ) (rem : Word), k < 16 → rem.toInt = sign * k → itoaDigit rem = digit k)
    {room m : ℕ} {num : Word} (hnum : num.toInt = sign * m) (hroom : m < base ^ room) :
    itoaLoop base room num = some ((Nat.digits base m).map digit) := by
  have hzero_iff : ∀ {num : Word} {m : ℕ}, num.toInt = sign * m → (num = 0#32 ↔ m = 0) := by
    intro num m hnum
    rw [← BitVec.toInt_inj, hnum, BitVec.toInt_zero]
    rcases hsign with rfl | rfl <;> omega
  induction room generalizing num m with
  | zero =>
      obtain rfl : m = 0 := by simpa using hroom
      rw [itoaLoop, if_pos ((hzero_iff hnum).mpr rfl), Nat.digits_zero]
      rfl
  | succ room ih =>
      by_cases hm : m = 0
      · subst hm
        rw [itoaLoop, if_pos ((hzero_iff hnum).mpr rfl), Nat.digits_zero]
        rfl
      · have hrem : (num.srem (BitVec.ofNat 32 base)).toInt = sign * (m % base : ℕ) := by
          rw [toInt_srem_radix le_rfl hhi, hnum, Int.ofNat_tmod]
          rcases hsign with rfl | rfl
          · rw [one_mul, one_mul]
          · rw [neg_one_mul, neg_one_mul, Int.neg_tmod]
        have hquot : (num.sdiv (BitVec.ofNat 32 base)).toInt = sign * (m / base : ℕ) := by
          rw [toInt_sdiv_radix le_rfl hhi, hnum, Int.ofNat_tdiv]
          rcases hsign with rfl | rfl
          · rw [one_mul, one_mul]
          · rw [neg_one_mul, neg_one_mul, Int.neg_tdiv]
        have hlt : m % base < 16 := (Nat.mod_lt _ (by omega)).trans_le hhi
        have hroom' : m / base < base ^ room :=
          Nat.div_lt_of_lt_mul (by rwa [pow_succ'] at hroom)
        rw [itoaLoop, if_neg (mt (hzero_iff hnum).mp hm), ih hquot hroom', hdigit _ _ hlt hrem,
          Nat.digits_def' hlo (Nat.pos_of_ne_zero hm)]
        rfl

/-- A number of 32 bits has at most 16 digits. -/
lemma length_digits_le {base m : ℕ} (hlo : 8 ≤ base) (hm : m < 2 ^ 32) :
    (Nat.digits base m).length ≤ 16 := by
  rw [Nat.digits_length_le_iff (by omega)]
  calc m < 2 ^ 32 := hm
    _ ≤ 8 ^ 16 := by norm_num
    _ ≤ base ^ 16 := Nat.pow_le_pow_left hlo 16

lemma lt_pow_room {base m : ℕ} (hlo : 8 ≤ base) (hm : m < 2 ^ 32) : m < base ^ 32 :=
  calc m < 2 ^ 32 := hm
    _ ≤ 8 ^ 32 := by norm_num
    _ ≤ base ^ 32 := Nat.pow_le_pow_left hlo 32

lemma digits_reverse {base m : ℕ} (hm : m ≠ 0) : (Nat.digits base m).reverse = numeral base m := by
  rw [numeral, lowDigits_of_ne_zero hm]

/-- The string of a number that is not negated. -/
lemma itoa_eq {base m : ℕ} {num : Word} (hlo : 8 ≤ base) (hhi : base ≤ 16) {sign : ℤ}
    (hsign : sign = 1 ∨ sign = -1) {digit : ℕ → Byte}
    (hdigit : ∀ (k : ℕ) (rem : Word), k < 16 → rem.toInt = sign * k → itoaDigit rem = digit k)
    (hnum : num.toInt = sign * m) (hm : m ≠ 0) (hlt : m < 2 ^ 32)
    (hkeep : ¬(num.slt 0#32 ∧ base = 10)) :
    itoa num base = some ((numeral base m).map digit) := by
  have hne : num ≠ 0#32 := by
    rintro rfl
    rw [BitVec.toInt_zero] at hnum
    rcases hsign with rfl | rfl <;> omega
  have hloop := itoaLoop_eq (by omega) hhi hsign hdigit hnum (lt_pow_room hlo hlt)
  have hlen := length_digits_le hlo hlt
  rw [itoa, if_neg hne]
  simp only [if_neg hkeep, hloop, Option.bind_eq_bind, Option.bind_some, List.length_map]
  rw [if_pos (by omega), ← List.map_reverse, digits_reverse hm]

/-- The string of a negative number in base 10, which is negated. -/
lemma itoa_of_neg {num : Word} (hneg : num.toInt < 0) (hmin : num ≠ BitVec.intMin 32) :
    itoa num 10 = some (ch '-' :: digitText 10 num.toInt.natAbs) := by
  have hne : num ≠ 0#32 := by
    rintro rfl
    exact absurd hneg (by simp)
  have hslt : num.slt 0#32 = true := by
    rw [BitVec.slt_iff_toInt_lt, BitVec.toInt_zero]
    exact hneg
  have hnum : (-num).toInt = 1 * (num.toInt.natAbs : ℤ) := by
    rw [BitVec.toInt_neg_of_ne_intMin hmin]
    omega
  have hlt : num.toInt.natAbs < 2 ^ 32 := by
    have hle : -2 ^ 31 ≤ num.toInt := num.le_toInt
    omega
  have hloop := itoaLoop_eq (by decide) (by decide) (Or.inl rfl)
    (fun k rem hk hrem => itoaDigit_of_nonneg hk (by simpa using hrem)) hnum
    (lt_pow_room (by decide : 8 ≤ 10) hlt)
  have hlen := length_digits_le (by decide : 8 ≤ 10) hlt
  rw [itoa, if_neg hne]
  simp only [hslt, and_self, if_true, hloop, Option.bind_eq_bind, Option.bind_some,
    List.length_append, List.length_map, List.length_singleton]
  rw [if_pos (by omega), List.reverse_append, ← List.map_reverse, digits_reverse (by omega)]
  rfl

/-! ### The pieces -/

lemma hexChars_ne_zero {k : ℕ} (hk : k < 16) : hexChars.getD k 0#8 ≠ 0#8 := by
  interval_cases k <;> decide

/-- A digit is not in front of the digits. -/
lemma le_hexChars {k : ℕ} (hk : k < 16) : 48 ≤ (hexChars.getD k 0#8).toNat := by
  interval_cases k <;> decide

lemma zero_notMem_digitText {base : ℕ} (hlo : 1 < base) (hhi : base ≤ 16) (m : ℕ) :
    0#8 ∉ digitText base m := by
  intro h
  obtain ⟨d, hd, hzero⟩ := List.mem_map.mp h
  exact hexChars_ne_zero ((lt_of_mem_numeral hlo hd).trans_le hhi) hzero

lemma textOf_eq_self {s : List Byte} (h : 0#8 ∉ s) : textOf s = s := by
  refine List.takeWhile_eq_self_iff.mpr ?_
  intro c hc
  exact decide_eq_true fun hzero => h (hzero ▸ hc)

/-- What `vsprintf` stores for a piece. -/
def Piece.stored : Piece → Option (List Byte)
  | .literal c _ _ => some [c]
  | .string s => some s.chars
  | .decimal num => (itoa num 10).map textOf
  | .hex num => (itoa num 16).map textOf
  | .char c => some [c.setWidth 8]
  | .percent => some [ch '%']

/-- Every `int` but the smallest is stored with its sign. -/
lemma itoa_decimal {num : Word} (hmin : num ≠ BitVec.intMin 32) :
    itoa num 10 = some (signedText 10 num.toInt) := by
  rcases lt_trichotomy num.toInt 0 with hneg | hzero | hpos
  · rw [itoa_of_neg hneg hmin, signedText, if_pos hneg]
  · obtain rfl : num = 0#32 := by rw [← BitVec.toInt_inj, hzero, BitVec.toInt_zero]
    rw [itoa, if_pos rfl, signedText, BitVec.toInt_zero, if_neg (lt_irrefl 0)]
    simp [digitText, numeral, hexChars, ascii, ch]
  · have hlt : num.toInt.natAbs < 2 ^ 32 := by
      have hle : num.toInt < 2 ^ 31 := num.toInt_lt
      omega
    have hkeep : ¬(num.slt 0#32 ∧ (10 : ℕ) = 10) := by
      rw [BitVec.slt_iff_toInt_lt, BitVec.toInt_zero]
      omega
    rw [signedText, if_neg (by omega)]
    exact itoa_eq (by decide) (by decide) (Or.inl rfl)
      (fun k rem hk hrem => itoaDigit_of_nonneg hk (by simpa using hrem)) (by omega) (by omega) hlt
      hkeep

/-- Below the highest bit a number is stored in hexadecimal. -/
lemma itoa_hex {num : Word} (hlt : num.toNat < 2 ^ 31) :
    itoa num 16 = some (digitText 16 num.toNat) := by
  have hnum : num.toInt = num.toNat := BitVec.toInt_eq_toNat_of_lt (by omega)
  by_cases hzero : num.toNat = 0
  · obtain rfl : num = 0#32 := BitVec.eq_of_toNat_eq (by simpa using hzero)
    rw [itoa, if_pos rfl]
    simp [digitText, numeral, hexChars, ascii, ch]
  · exact itoa_eq (by decide) (by decide) (Or.inl rfl)
      (fun k rem hk hrem => itoaDigit_of_nonneg hk (by simpa using hrem)) (by omega) hzero
      (by omega) (by omega)

/-- From the highest bit on, what is stored has a character in front of the digits. -/
lemma itoa_hex_of_le {num : Word} (hle : 2 ^ 31 ≤ num.toNat) :
    ∃ s, itoa num 16 = some s ∧ 0#8 ∉ s ∧ s.length ≤ 8 ∧ ∃ c ∈ s, c.toNat < 48 := by
  have hlt := num.isLt
  have hnum : num.toInt = -1 * ((2 ^ 32 - num.toNat : ℕ) : ℤ) := by
    rw [BitVec.toInt_eq_toNat_cond, if_neg (by omega)]
    omega
  generalize hm : 2 ^ 32 - num.toNat = m at hnum
  have hchar : ∀ k < 16, (BitVec.ofNat 8 (48 - k)).toNat = 48 - k := by
    intro k hk
    exact toNat_ofNat_of_lt (by omega)
  have hdigit : ∀ d ∈ numeral 16 m, d < 16 := fun d hd => lt_of_mem_numeral (by decide) hd
  refine ⟨(numeral 16 m).map fun k => BitVec.ofNat 8 (48 - k), ?_, ?_, ?_, ?_⟩
  · exact itoa_eq (by decide) le_rfl (Or.inr rfl)
      (fun k rem hk hrem => itoaDigit_of_nonpos hk (by simpa using hrem)) hnum (by omega)
      (by omega) (by simp)
  · intro h
    obtain ⟨d, hd, hzero⟩ := List.mem_map.mp h
    have hnat := hchar d (hdigit d hd)
    have hd' := hdigit d hd
    rw [hzero] at hnat
    change 0 = 48 - d at hnat
    omega
  · rw [List.length_map, length_numeral, length_lowDigits_le_iff (by decide) (by decide)]
    omega
  · -- the leading digit is not zero
    have hne : m ≠ 0 := by omega
    have hnil : Nat.digits 16 m ≠ [] := Nat.digits_ne_nil_iff_ne_zero.mpr hne
    have hlead : (Nat.digits 16 m).getLast hnil ≠ 0 := Nat.getLast_digit_ne_zero 16 hne
    have hmem : (Nat.digits 16 m).getLast hnil ∈ numeral 16 m := by
      rw [← digits_reverse hne]
      exact List.mem_reverse.mpr (List.getLast_mem hnil)
    refine ⟨_, List.mem_map_of_mem hmem, ?_⟩
    rw [hchar _ (hdigit _ hmem)]
    omega

/-- **One piece**: `vsprintf` stores what `vfprintf` emits, or, for the smallest `int` and for
hexadecimal numbers with the highest bit set, something else that is not longer. -/
theorem Piece.stored_spec (p : Piece) :
    ∃ s, p.stored = some s ∧ s.length ≤ p.emitted.length ∧ (s = p.emitted ↔ p.Regular) := by
  cases p with
  | literal c hpercent hnul => exact ⟨_, rfl, le_rfl, iff_of_true rfl trivial⟩
  | string s => exact ⟨_, rfl, le_rfl, iff_of_true rfl trivial⟩
  | char c => exact ⟨_, rfl, le_rfl, iff_of_true rfl trivial⟩
  | percent => exact ⟨_, rfl, le_rfl, iff_of_true rfl trivial⟩
  | decimal num =>
      by_cases hmin : num = BitVec.intMin 32
      · subst hmin
        have hstored : ∃ s, (Piece.decimal (BitVec.intMin 32)).stored = some s ∧ s.length = 11 ∧
            s ≠ ascii "-2147483648" := ⟨_, rfl, by decide +kernel, by decide +kernel⟩
        have hemitted : (Piece.decimal (BitVec.intMin 32)).emitted = ascii "-2147483648" := by
          decide +kernel
        obtain ⟨s, hs, hlen, hne⟩ := hstored
        refine ⟨s, hs, by rw [hemitted, hlen]; decide, ?_⟩
        exact iff_of_false (by rwa [hemitted]) (by simp [Piece.Regular])
      · have hnul : 0#8 ∉ signedText 10 num.toInt := by
          have hdigits := @zero_notMem_digitText 10 (by decide) (by decide)
            num.toInt.natAbs
          rw [signedText]
          split_ifs
          · exact List.not_mem_cons_of_ne_of_not_mem (by decide) hdigits
          · exact hdigits
        refine ⟨signedText 10 num.toInt, ?_, le_rfl, iff_of_true rfl hmin⟩
        rw [Piece.stored, itoa_decimal hmin, Option.map_some, textOf_eq_self hnul]
  | hex num =>
      by_cases hlt : num.toNat < 2 ^ 31
      · refine ⟨digitText 16 num.toNat, ?_, le_rfl, iff_of_true rfl hlt⟩
        have hnul := @zero_notMem_digitText 16 (by decide) le_rfl num.toNat
        rw [Piece.stored, itoa_hex hlt, Option.map_some, textOf_eq_self hnul]
      · obtain ⟨s, hs, hnul, hlen, c, hc, hlow⟩ := itoa_hex_of_le (not_lt.mp hlt)
        refine ⟨s, by rw [Piece.stored, hs, Option.map_some, textOf_eq_self hnul], ?_, ?_⟩
        · have hlong : ¬(lowDigits 16 num.toNat).length ≤ 7 := by
            rw [length_lowDigits_le_iff (by decide) (by decide)]
            omega
          rw [Piece.emitted, digitText, List.length_map, length_numeral]
          omega
        · refine iff_of_false ?_ hlt
          rintro rfl
          obtain ⟨d, hd, rfl⟩ := List.mem_map.mp hc
          exact absurd (le_hexChars (lt_of_mem_numeral (by decide) hd)) (not_le.mpr hlow)

/-! ### Whole formats -/

/-- `vsprintf` goes through a piece. -/
lemma vsprintfLoop_piece (p : Piece) (fmt : List Byte) (args : VaList) (out : List Byte) :
    vsprintfLoop (p.text ++ fmt) (p.arg ++ args) out =
      p.stored.bind fun s => vsprintfLoop fmt args (out ++ s) := by
  cases p with
  | literal c hpercent hnul =>
      rw [Piece.text, List.singleton_append, vsprintfLoop.eq_def]
      exact if_pos hpercent
  | string s => rfl
  | decimal num =>
      change (vsprintfSpec (ch 'd') (.word num :: args)).bind _ = ((itoa num 10).map textOf).bind _
      cases h : itoa num 10 <;> simp [vsprintfSpec, vaWord, h, ch]
  | hex num =>
      change (vsprintfSpec (ch 'x') (.word num :: args)).bind _ = ((itoa num 16).map textOf).bind _
      cases h : itoa num 16 <;> simp [vsprintfSpec, vaWord, h, ch]
  | char c => rfl
  | percent => rfl

/-- What `vsprintf` stores for a format is not longer than what `vfprintf` emits, and the same
only if it is the same for every piece. -/
lemma vsprintfLoop_spec (ps : List Piece) (rest : VaList) (out : List Byte) :
    ∃ s, vsprintfLoop (formatOf ps).chars (argsOf ps ++ rest) out = some (out ++ s) ∧
      s.length ≤ (ps.flatMap Piece.emitted).length ∧
      (s = ps.flatMap Piece.emitted ↔ ∀ p ∈ ps, p.Regular) := by
  induction ps generalizing out with
  | nil => exact ⟨[], by simp [formatOf, vsprintfLoop], le_rfl, by simp⟩
  | cons p ps ih =>
      obtain ⟨s, hs, hle, hiff⟩ := p.stored_spec
      obtain ⟨ss, hss, hles, hiffs⟩ := ih (out ++ s)
      refine ⟨s ++ ss, ?_, ?_, ?_⟩
      · have hpiece := vsprintfLoop_piece p (formatOf ps).chars (argsOf ps ++ rest) out
        have hargs : argsOf (p :: ps) ++ rest = p.arg ++ (argsOf ps ++ rest) := by simp [argsOf]
        have hchars : (formatOf (p :: ps)).chars = p.text ++ (formatOf ps).chars := rfl
        rw [hchars, hargs, hpiece, hs, Option.bind_some, hss, List.append_assoc]
      · rw [List.flatMap_cons, List.length_append, List.length_append]
        omega
      · rw [List.flatMap_cons, List.forall_mem_cons, ← hiff, ← hiffs]
        constructor
        · intro heq
          have hlen := congrArg List.length heq
          rw [List.length_append, List.length_append] at hlen
          exact List.append_inj heq (by omega)
        · rintro ⟨rfl, rfl⟩
          rfl

/-- The piece as `vfprintf` sees it. -/
def Piece.segment : Piece → Segment
  | .literal c _ _ => .literal c
  | .string _ => .conversion .default (ch 's')
  | .decimal _ => .conversion .default (ch 'd')
  | .hex _ => .conversion .default (ch 'x')
  | .char _ => .conversion .default (ch 'c')
  | .percent => .conversion .default (ch '%')

lemma segments_piece (p : Piece) (fmt : List Byte) :
    segments (p.text ++ fmt) = p.segment :: segments fmt := by
  cases p with
  | literal c hpercent hnul => exact segments_literal hpercent
  | string s => exact segments_default (by decide) (by decide)
  | decimal num => exact segments_default (by decide) (by decide)
  | hex num => exact segments_default (by decide) (by decide)
  | char c => exact segments_default (by decide) (by decide)
  | percent => exact segments_default (by decide) (by decide)

lemma render_piece (p : Piece) (args : VaList) :
    p.segment.render (p.arg ++ args) = some (p.emitted, args) := by
  cases p <;> rfl

/-- What `vfprintf` emits for a format. -/
lemma vfprintf_formatOf (ps : List Piece) (rest : VaList) :
    vfprintf (formatOf ps) (argsOf ps ++ rest) = some (ps.flatMap Piece.emitted, rest) := by
  have hrender : renderAll (segments (formatOf ps).chars) (argsOf ps ++ rest) =
      some (ps.flatMap Piece.emitted, rest) := by
    induction ps with
    | nil => rfl
    | cons p ps ih =>
        have hargs : argsOf (p :: ps) ++ rest = p.arg ++ (argsOf ps ++ rest) := by simp [argsOf]
        have hchars : (formatOf (p :: ps)).chars = p.text ++ (formatOf ps).chars := rfl
        rw [hchars, hargs, segments_piece, renderAll, render_piece]
        simp [ih]
  rw [vfprintf_render, hrender]

/-- **`vsprintf` against `vfprintf`**, on the formats that both document: what is stored is what is
emitted, and the number returned is theirs, exactly when no `%d` prints the smallest `int` and no
`%x` a number whose highest bit is set. -/
theorem vsprintf_eq_vfprintf_iff (ps : List Piece) (rest : VaList) :
    vsprintf (formatOf ps) (argsOf ps ++ rest) =
        (vfprintf (formatOf ps) (argsOf ps ++ rest)).map
          (fun r => (r.1, BitVec.ofNat 32 r.1.length)) ↔
      ∀ p ∈ ps, p.Regular := by
  obtain ⟨s, hs, -, hiff⟩ := vsprintfLoop_spec ps rest []
  rw [vfprintf_formatOf, vsprintf, hs, ← hiff]
  simp only [Option.bind_eq_bind, Option.bind_some, List.nil_append, Option.map_some,
    Option.some.injEq, Prod.mk.injEq]
  constructor
  · rintro ⟨heq, -⟩
    exact heq
  · rintro rfl
    exact ⟨rfl, rfl⟩

/-- All ones in hexadecimal: the character in front of the digits. -/
theorem vsprintf_all_ones :
    (vsprintf (formatOf [.hex (BitVec.allOnes 32)]) [.word (BitVec.allOnes 32)]).map Prod.fst =
        some (ascii "/") ∧
      (vfprintf (formatOf [.hex (BitVec.allOnes 32)]) [.word (BitVec.allOnes 32)]).map Prod.fst =
        some (ascii "ffffffff") := by
  decide +kernel

end MiqOSoft
