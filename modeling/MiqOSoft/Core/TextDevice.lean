import MiqOSoft.Kernel.Printf

/-!
`TextDevice` of the core library: `Write` for characters, strings and numbers, and `VFormat`.

* `CharacterDevice`: what a text is written to, which says how many bytes it has taken.
* `writeNumber`: the template `Write<TNumber>` at the types of one width.  It prepares the unsigned
  absolute value of a negative number, but divides the number itself.
* `vFormat`: the machine of formatted output with these functions as printer.
* `writeNumber_of_nonneg`, `writeNumber_of_neg`: on a device that accepts every write, a number
  that is not negative is written as its digits; of a negative one either a character outside of
  `g_HexChars` is read, or `-0` is written.
-/

namespace MiqOSoft

open Machine Numeral

/-- `CharacterDevice`: `Write` returns the number of bytes it has taken. -/
structure CharacterDevice (δ : Type) where
  write : List Byte → δ → ℕ × δ

/-- The `ok` of the functions that write, the device, and the characters handed to it. -/
structure TextOut (δ : Type) where
  ok : Bool
  device : δ
  written : List Byte

variable {δ : Type}

/-- `ok = ok && Write(c)`. -/
def writeChar (dev : CharacterDevice δ) (c : Byte) (t : TextOut δ) : TextOut δ :=
  if t.ok then
    let r := dev.write [c] t.device
    ⟨decide (r.1 = 1), r.2, t.written ++ [c]⟩
  else t

/-- `ok = ok && Write(str)`: the loop ends at the NUL, or when a character is not taken. -/
def writeString (dev : CharacterDevice δ) : List Byte → TextOut δ → TextOut δ
  | [], t => t
  | c :: str, t => if t.ok then writeString dev str (writeChar dev c t) else t

/-- The loop of `Write<TNumber>` for a signed type, whose operators round towards zero. -/
def storeSigned {w : ℕ} (radix room : ℕ) (number : BitVec w) : Option (List Byte) :=
  digitLoop (fun n => n.srem (BitVec.ofNat w radix)) (fun n => n.sdiv (BitVec.ofNat w radix))
    (fun n => (0#w).slt n) room number

/-- The loop of `Write<TNumber>` for an unsigned type. -/
def storeUnsigned {w : ℕ} (radix room : ℕ) (number : BitVec w) : Option (List Byte) :=
  digitLoop (fun n => n % BitVec.ofNat w radix) (fun n => n / BitVec.ofNat w radix)
    (fun n => decide (0#w < n)) room number

/-- `ok = ok && Write(number, radix)`, called while `ok` is true, for a signed type.  Nothing uses
`unsNumber`. -/
def writeSigned {w : ℕ} (dev : CharacterDevice δ) (number : BitVec w) (radix : ℕ)
    (t : TextOut δ) : Option (TextOut δ) := do
  let t := if number.slt 0#w then writeChar dev (ch '-') t else t
  let buffer ← storeSigned radix 32 number
  some (buffer.foldr (writeChar dev) t)

/-- The same for an unsigned type. -/
def writeUnsigned {w : ℕ} (dev : CharacterDevice δ) (number : BitVec w) (radix : ℕ)
    (t : TextOut δ) : Option (TextOut δ) := do
  let buffer ← storeUnsigned radix 32 number
  some (buffer.foldr (writeChar dev) t)

/-- The functions that `VFormat` prints with, each of them behind `ok &&`. -/
def textPrinter (dev : CharacterDevice δ) : Printer (TextOut δ) where
  goesOn t := t.ok
  char c t := some (writeChar dev c t)
  string s t := some (writeString dev s.chars t)
  signed n radix t := writeSigned dev n radix t
  unsigned n radix t := writeUnsigned dev n radix t

/-- `VFormat`. -/
def vFormat (dev : CharacterDevice δ) (fmt : CString) (args : VaList) (d : δ) :
    Option (TextOut δ) :=
  (formatLoop (textPrinter dev) fmt.chars args ⟨true, d, []⟩).map fun m => m.out

/-! ### Devices that accept every write -/

/-- The device takes every character. -/
def Accepts (dev : CharacterDevice δ) : Prop := ∀ c d, (dev.write [c] d).1 = 1

/-- The characters have been written, and all went well. -/
def Wrote (t : TextOut δ) (text : List Byte) (t' : TextOut δ) : Prop :=
  t'.ok = true ∧ t'.written = t.written ++ text

section Accepting

variable {dev : CharacterDevice δ} (hdev : Accepts dev) {t t' t'' : TextOut δ}

lemma Wrote.trans {text text' : List Byte} (h : Wrote t text t') (h' : Wrote t' text' t'') :
    Wrote t (text ++ text') t'' :=
  ⟨h'.1, by rw [h'.2, h.2, List.append_assoc]⟩

lemma Wrote.nil (hok : t.ok = true) : Wrote t [] t := ⟨hok, (List.append_nil _).symm⟩

include hdev

lemma wrote_writeChar (hok : t.ok = true) (c : Byte) : Wrote t [c] (writeChar dev c t) := by
  rw [writeChar, if_pos hok]
  exact ⟨decide_eq_true (hdev c t.device), rfl⟩

lemma wrote_writeString (hok : t.ok = true) (s : List Byte) :
    Wrote t s (writeString dev s t) := by
  induction s generalizing t with
  | nil => exact Wrote.nil hok
  | cons c s ih =>
      have hc := wrote_writeChar hdev hok c
      rw [writeString, if_pos hok]
      exact hc.trans (ih hc.1)

lemma wrote_foldr (hok : t.ok = true) (buffer : List Byte) :
    Wrote t buffer.reverse (buffer.foldr (writeChar dev) t) := by
  induction buffer with
  | nil => exact Wrote.nil hok
  | cons c buffer ih =>
      rw [List.foldr_cons, List.reverse_cons]
      exact ih.trans (wrote_writeChar hdev ih.1 c)

/-! ### Numbers -/

section Numbers

variable {w radix : ℕ}

omit hdev in
/-- The buffer has room for the digits of any number. -/
lemma toNat_lt_radix_pow (hw' : w ≤ 64) (hlo : 8 ≤ radix) (n : BitVec w) : n.toNat < radix ^ 32 :=
  calc n.toNat < 2 ^ w := n.isLt
    _ ≤ 2 ^ 64 := Nat.pow_le_pow_right (by decide) hw'
    _ ≤ 8 ^ 32 := by norm_num
    _ ≤ radix ^ 32 := Nat.pow_le_pow_left hlo 32

omit hdev in
lemma storeUnsigned_eq (hw : 32 ≤ w) (hw' : w ≤ 64) (hlo : 8 ≤ radix) (hhi : radix ≤ 16)
    (n : BitVec w) : storeUnsigned radix 32 n =
      some ((lowDigits radix n.toNat).map fun d => hexChars.getD d 0#8) := by
  have hradix : (BitVec.ofNat w radix).toNat = radix := toNat_ofNat_radix hw hhi
  refine digitLoop_eq (P := fun _ => True) (by omega) hhi ?_ ?_ (fun _ _ => trivial) ?_ (by decide)
    trivial (toNat_lt_radix_pow hw' hlo n)
  · intro n _
    rw [BitVec.toNat_umod, hradix]
  · intro n _
    rw [BitVec.toNat_udiv, hradix]
  · intro n _
    rw [decide_eq_true_eq, BitVec.lt_def, BitVec.toNat_ofNat, Nat.zero_mod]
    exact Nat.pos_iff_ne_zero

omit hdev in
lemma storeSigned_of_nonneg (hw : 32 ≤ w) (hw' : w ≤ 64) (hlo : 8 ≤ radix) (hhi : radix ≤ 16)
    {n : BitVec w} (hn : 0 ≤ n.toInt) : storeSigned radix 32 n =
      some ((lowDigits radix n.toNat).map fun d => hexChars.getD d 0#8) := by
  refine digitLoop_signed_eq hw (by omega) hhi ?_ (by decide) hn (toNat_lt_radix_pow hw' hlo n)
  intro n hn
  have hnat := toNat_of_toInt_nonneg hn
  rw [BitVec.slt_iff_toInt_lt, BitVec.toInt_zero]
  omega

omit hdev in
/-- Of a negative number the loop looks up a remainder that is not positive, and stops after it. -/
lemma storeSigned_of_neg (hw : 32 ≤ w) (hlo : 8 ≤ radix) (hhi : radix ≤ 16) {n : BitVec w}
    (hn : n.toInt < 0) : storeSigned radix 32 n =
      if n.toInt.natAbs % radix = 0 then some [ch '0'] else none := by
  have hrem := toInt_srem_of_neg hw hhi hn
  have hquot := toInt_sdiv_of_neg hw hhi hn
  have hstop : (0#w).slt (n.sdiv (BitVec.ofNat w radix)) = false := by
    rw [BitVec.slt_eq_decide, BitVec.toInt_zero, decide_eq_false_iff_not, hquot, Int.not_lt]
    exact Int.neg_nonpos_of_nonneg (Int.natCast_nonneg _)
  rw [storeSigned, digitLoop, hstop]
  by_cases hzero : n.toInt.natAbs % radix = 0
  · have hnat : (n.srem (BitVec.ofNat w radix)).toNat = 0 := by
      have hint : (n.srem (BitVec.ofNat w radix)).toInt = 0 := by
        rw [hrem, hzero]
        rfl
      have hcast := toNat_of_toInt_nonneg hint.ge
      omega
    rw [if_pos hzero, hnat]
    rfl
  · have hlt : n.toInt.natAbs % radix < radix := Nat.mod_lt _ (by omega)
    have hneg : (n.srem (BitVec.ofNat w radix)).toInt < 0 := by omega
    have hcast := toNat_of_toInt_neg hneg
    have hpow : (2 : ℤ) ^ 32 ≤ 2 ^ w := pow_le_pow_right₀ (by norm_num) hw
    have hout : 17 ≤ (n.srem (BitVec.ofNat w radix)).toNat := by omega
    have hlen : hexChars.length = 17 := by decide
    rw [if_neg hzero, List.getElem?_eq_none (hlen.trans_le hout)]
    rfl

lemma wrote_writeUnsigned (hw : 32 ≤ w) (hw' : w ≤ 64) (hlo : 8 ≤ radix) (hhi : radix ≤ 16)
    (hok : t.ok = true) (n : BitVec w) :
    ∃ t', writeUnsigned dev n radix t = some t' ∧ Wrote t (digitText radix n.toNat) t' := by
  have hwrote := wrote_foldr hdev hok ((lowDigits radix n.toNat).map fun d => hexChars.getD d 0#8)
  refine ⟨_, by rw [writeUnsigned, storeUnsigned_eq hw hw' hlo hhi]; rfl, ?_⟩
  rwa [← List.map_reverse] at hwrote

/-- **A number that is not negative** is written as its digits. -/
theorem wrote_writeSigned_of_nonneg (hw : 32 ≤ w) (hw' : w ≤ 64) (hlo : 8 ≤ radix)
    (hhi : radix ≤ 16) (hok : t.ok = true) {n : BitVec w} (hn : 0 ≤ n.toInt) :
    ∃ t', writeSigned dev n radix t = some t' ∧ Wrote t (signedText radix n.toInt) t' := by
  have hsign : ¬n.slt 0#w := by
    rw [BitVec.slt_iff_toInt_lt, BitVec.toInt_zero]
    omega
  have habs : n.toInt.natAbs = n.toNat := by
    have hnat := toNat_of_toInt_nonneg hn
    omega
  have hwrote := wrote_foldr hdev hok ((lowDigits radix n.toNat).map fun d => hexChars.getD d 0#8)
  refine ⟨_, by rw [writeSigned, if_neg hsign, storeSigned_of_nonneg hw hw' hlo hhi hn]; rfl, ?_⟩
  rw [signedText, if_neg (by omega), habs]
  rwa [← List.map_reverse] at hwrote

/-- **A negative number** is either not written at all, or as `-0`, which is too short. -/
theorem wrote_writeSigned_of_neg (hw : 32 ≤ w) (hlo : 8 ≤ radix) (hhi : radix ≤ 16)
    (hok : t.ok = true) {n : BitVec w} (hn : n.toInt < 0) :
    writeSigned dev n radix t = none ∨ ∃ t' text, writeSigned dev n radix t = some t' ∧
      Wrote t text t' ∧ text.length < (signedText radix n.toInt).length := by
  have hsign : n.slt 0#w := by
    rw [BitVec.slt_iff_toInt_lt, BitVec.toInt_zero]
    exact hn
  rw [writeSigned, if_pos hsign, storeSigned_of_neg hw hlo hhi hn]
  by_cases hzero : n.toInt.natAbs % radix = 0
  · right
    have hminus := wrote_writeChar hdev hok (ch '-')
    refine ⟨_, [ch '-'] ++ [ch '0'], by rw [if_pos hzero]; rfl,
      hminus.trans (wrote_foldr hdev hminus.1 [ch '0']), ?_⟩
    -- a multiple of the radix has two digits
    have hdigits : ¬(lowDigits radix n.toInt.natAbs).length ≤ 1 := by
      rw [length_lowDigits_le_iff (by omega) one_pos, pow_one, Nat.not_lt]
      exact Nat.le_of_dvd (by omega) (Nat.dvd_of_mod_eq_zero hzero)
    rw [signedText, if_pos hn, digitText]
    simp only [List.length_append, List.length_cons, List.length_nil, List.length_map,
      length_numeral]
    omega
  · left
    rw [if_neg hzero]
    rfl

end Numbers

/-! ### Formats -/

omit hdev in
/-- Printing an argument that is there. -/
lemma takeArg_text {α : Type} {va : VaList → Option (α × VaList)}
    {put : α → TextOut δ → Option (TextOut δ)} {args rest : VaList} {a : α}
    (hok : t.ok = true) (hva : va args = some (a, rest)) :
    takeArg (textPrinter dev) va put (args, t) = (put a t).map fun t' => (rest, t') := by
  have hgo : (textPrinter dev).goesOn t = true := hok
  rw [takeArg, if_pos hgo, hva]
  cases h : put a t <;> simp [h]

omit hdev in
variable (dev) in
/-- Printing a signed argument writes it at its own width. -/
lemma print_signed (b : ℕ) (hok : t.ok = true) {len : FormatLength} {args rest : VaList} {z : ℤ}
    (hva : len.signedArg args = some (z, rest)) :
    ∃ (w : ℕ) (n : BitVec w), 32 ≤ w ∧ w ≤ 64 ∧ n.toInt = z ∧
      (Conversion.signed b).print (textPrinter dev) len (args, t) =
        (writeSigned dev n b t).map fun t' => (rest, t') := by
  rw [FormatLength.signedArg] at hva
  rw [Conversion.print]
  split_ifs at hva ⊢
  · obtain ⟨⟨n, rest⟩, hn, heq⟩ := Option.map_eq_some_iff.mp hva
    obtain ⟨rfl, rfl⟩ := Prod.mk.inj heq
    exact ⟨64, n, by decide, le_rfl, rfl, takeArg_text hok hn⟩
  · obtain ⟨⟨n, rest⟩, hn, heq⟩ := Option.map_eq_some_iff.mp hva
    obtain ⟨rfl, rfl⟩ := Prod.mk.inj heq
    exact ⟨32, n, le_rfl, by decide, rfl, takeArg_text hok hn⟩

omit hdev in
variable (dev) in
lemma print_unsigned (b : ℕ) (hok : t.ok = true) {len : FormatLength} {m : ℕ} {args rest : VaList}
    (hva : len.unsignedArg args = some (m, rest)) :
    ∃ (w : ℕ) (n : BitVec w), 32 ≤ w ∧ w ≤ 64 ∧ n.toNat = m ∧
      (Conversion.unsigned b).print (textPrinter dev) len (args, t) =
        (writeUnsigned dev n b t).map fun t' => (rest, t') := by
  rw [FormatLength.unsignedArg] at hva
  rw [Conversion.print]
  split_ifs at hva ⊢
  · obtain ⟨⟨n, rest⟩, hn, heq⟩ := Option.map_eq_some_iff.mp hva
    obtain ⟨rfl, rfl⟩ := Prod.mk.inj heq
    exact ⟨64, n, by decide, le_rfl, rfl, takeArg_text hok hn⟩
  · obtain ⟨⟨n, rest⟩, hn, heq⟩ := Option.map_eq_some_iff.mp hva
    obtain ⟨rfl, rfl⟩ := Prod.mk.inj heq
    exact ⟨32, n, le_rfl, by decide, rfl, takeArg_text hok hn⟩

end Accepting

/-- The value that a piece prints with a sign. -/
def Segment.signedArg? (args : VaList) : Segment → Option ℤ
  | .literal _ => none
  | .conversion len c =>
      match conversion? c with
      | some (.signed _) => (len.signedArg args).map Prod.fst
      | _ => none

/-- The values that a format prints with `%d` and `%i`, whatever the length. -/
def signedArgs : List Segment → VaList → List ℤ
  | [], _ => []
  | s :: ss, args =>
      match s.render args with
      | none => []
      | some (_, rest) => (s.signedArg? args).toList ++ signedArgs ss rest

section Formats

variable {dev : CharacterDevice δ} (hdev : Accepts dev) {t : TextOut δ}

include hdev

/-- A piece that has no negative value to print is written as its text. -/
lemma print_of_nonneg (hok : t.ok = true) {s : Segment} {args rest : VaList} {text : List Byte}
    (hs : s.render args = some (text, rest)) (hsigned : ∀ z, s.signedArg? args = some z → 0 ≤ z) :
    ∃ t', s.print (textPrinter dev) (args, t) = some (rest, t') ∧ Wrote t text t' := by
  cases s with
  | literal c =>
      obtain ⟨rfl, rfl⟩ := Prod.mk.inj (Option.some.inj hs)
      refine ⟨_, ?_, wrote_writeChar hdev hok c⟩
      rw [Segment.print, takeArg_text hok rfl]
      rfl
  | conversion len c =>
      cases hc : conversion? c with
      | none =>
          rw [render_of_none hc] at hs
          obtain ⟨rfl, rfl⟩ := Prod.mk.inj (Option.some.inj hs)
          exact ⟨t, print_of_none hc _, Wrote.nil hok⟩
      | some k =>
          rw [render_of_some hc] at hs
          rw [print_of_some hc]
          cases k with
          | char =>
              obtain ⟨⟨v, rest⟩, hva, heq⟩ := Option.map_eq_some_iff.mp hs
              obtain ⟨rfl, rfl⟩ := Prod.mk.inj heq
              refine ⟨_, ?_, wrote_writeChar hdev hok (v.setWidth 8)⟩
              rw [Conversion.print, takeArg_text hok hva]
              rfl
          | string =>
              obtain ⟨⟨v, rest⟩, hva, heq⟩ := Option.map_eq_some_iff.mp hs
              obtain ⟨rfl, rfl⟩ := Prod.mk.inj heq
              refine ⟨_, ?_, wrote_writeString hdev hok v.chars⟩
              rw [Conversion.print, takeArg_text hok hva]
              rfl
          | percent =>
              obtain ⟨rfl, rfl⟩ := Prod.mk.inj (Option.some.inj hs)
              refine ⟨_, ?_, wrote_writeChar hdev hok (ch '%')⟩
              rw [Conversion.print, takeArg_text hok rfl]
              rfl
          | signed b =>
              obtain ⟨hlo, hhi⟩ := radix_of_conversion (Or.inl hc)
              obtain ⟨⟨z, rest⟩, hva, heq⟩ := Option.map_eq_some_iff.mp hs
              obtain ⟨rfl, rfl⟩ := Prod.mk.inj heq
              obtain ⟨w, n, hw, hw', rfl, hprint⟩ := print_signed dev b hok hva
              have hn : 0 ≤ n.toInt := hsigned _ (by rw [Segment.signedArg?, hc, hva]; rfl)
              obtain ⟨t', hwrite, ht'⟩ :=
                wrote_writeSigned_of_nonneg hdev hw hw' hlo hhi hok hn
              exact ⟨t', by rw [hprint, hwrite]; rfl, ht'⟩
          | unsigned b =>
              obtain ⟨hlo, hhi⟩ := radix_of_conversion (Or.inr hc)
              obtain ⟨⟨m, rest⟩, hva, heq⟩ := Option.map_eq_some_iff.mp hs
              obtain ⟨rfl, rfl⟩ := Prod.mk.inj heq
              obtain ⟨w, n, hw, hw', rfl, hprint⟩ := print_unsigned dev b hok hva
              obtain ⟨t', hwrite, ht'⟩ := wrote_writeUnsigned hdev hw hw' hlo hhi hok n
              exact ⟨t', by rw [hprint, hwrite]; rfl, ht'⟩

/-- A piece that has a negative value to print is not written, or too short. -/
lemma print_of_neg (hok : t.ok = true) {s : Segment} {args rest : VaList} {text : List Byte}
    (hs : s.render args = some (text, rest)) {z : ℤ} (hsigned : s.signedArg? args = some z)
    (hz : z < 0) :
    s.print (textPrinter dev) (args, t) = none ∨
      ∃ t' u, s.print (textPrinter dev) (args, t) = some (rest, t') ∧ Wrote t u t' ∧
        u.length < text.length := by
  cases s with
  | literal c => simp [Segment.signedArg?] at hsigned
  | conversion len c =>
      rw [Segment.signedArg?] at hsigned
      split at hsigned
      · rename_i b hc
        obtain ⟨hlo, hhi⟩ := radix_of_conversion (Or.inl hc)
        rw [render_of_some hc] at hs
        obtain ⟨⟨y, rest⟩, hva, heq⟩ := Option.map_eq_some_iff.mp hs
        obtain ⟨rfl, rfl⟩ := Prod.mk.inj heq
        obtain rfl : y = z := by simpa [hva] using hsigned
        obtain ⟨w, n, hw, hw', rfl, hprint⟩ := print_signed dev b hok hva
        rw [print_of_some hc, hprint]
        rcases wrote_writeSigned_of_neg hdev hw hlo hhi hok hz with hnone | ⟨t', u, hwrite, ht'⟩
        · left
          rw [hnone]
          rfl
        · right
          exact ⟨t', u, by rw [hwrite]; rfl, ht'⟩
      · simp at hsigned

/-- Without negative values the text of the format is written. -/
lemma printAll_of_nonneg (hok : t.ok = true) {ss : List Segment} {args rest : VaList}
    {text : List Byte} (hss : renderAll ss args = some (text, rest))
    (hsigned : ∀ z ∈ signedArgs ss args, 0 ≤ z) :
    ∃ t', printAll (textPrinter dev) ss (args, t) = some (rest, t') ∧ Wrote t text t' := by
  induction ss generalizing args text t with
  | nil =>
      obtain ⟨rfl, rfl⟩ := Prod.mk.inj (Option.some.inj hss)
      exact ⟨t, rfl, Wrote.nil hok⟩
  | cons s ss ih =>
      obtain ⟨u, mid, us, hs, htail, rfl⟩ := renderAll_cons_eq_some hss
      simp only [signedArgs, hs, List.mem_append, Option.mem_toList] at hsigned
      obtain ⟨t₁, hprint, ht₁⟩ := print_of_nonneg hdev hok hs fun z hz => hsigned z (Or.inl hz)
      obtain ⟨t', hrest, ht'⟩ := ih ht₁.1 htail fun z hz => hsigned z (Or.inr hz)
      refine ⟨t', ?_, ht₁.trans ht'⟩
      rw [printAll, List.foldlM_cons, hprint]
      exact hrest

/-- With a negative value, what is written is shorter, if anything is written. -/
lemma printAll_length (hok : t.ok = true) {ss : List Segment} {args rest : VaList}
    {text : List Byte} (hss : renderAll ss args = some (text, rest)) :
    printAll (textPrinter dev) ss (args, t) = none ∨
      ∃ t' u, printAll (textPrinter dev) ss (args, t) = some (rest, t') ∧ Wrote t u t' ∧
        u.length ≤ text.length ∧
        ((∃ z ∈ signedArgs ss args, z < 0) → u.length < text.length) := by
  induction ss generalizing args text t with
  | nil =>
      obtain ⟨rfl, rfl⟩ := Prod.mk.inj (Option.some.inj hss)
      exact Or.inr ⟨t, [], rfl, Wrote.nil hok, le_rfl, by simp [signedArgs]⟩
  | cons s ss ih =>
      obtain ⟨v, mid, vs, hs, htail, rfl⟩ := renderAll_cons_eq_some hss
      -- the first piece
      have hfirst : s.print (textPrinter dev) (args, t) = none ∨
          ∃ t₁ u, s.print (textPrinter dev) (args, t) = some (mid, t₁) ∧ Wrote t u t₁ ∧
            u.length ≤ v.length ∧ ((∃ z ∈ s.signedArg? args, z < 0) → u.length < v.length) := by
        by_cases hneg : ∃ z ∈ s.signedArg? args, z < 0
        · obtain ⟨z, hz, hlt⟩ := hneg
          rcases print_of_neg hdev hok hs hz hlt with hnone | ⟨t₁, u, hprint, ht₁, hlen⟩
          · exact Or.inl hnone
          · exact Or.inr ⟨t₁, u, hprint, ht₁, hlen.le, fun _ => hlen⟩
        · have hnonneg : ∀ z, s.signedArg? args = some z → 0 ≤ z := by
            intro z hz
            by_contra hlt
            exact hneg ⟨z, hz, not_le.mp hlt⟩
          obtain ⟨t₁, hprint, ht₁⟩ := print_of_nonneg hdev hok hs hnonneg
          exact Or.inr ⟨t₁, v, hprint, ht₁, le_rfl, fun h => absurd h hneg⟩
      rcases hfirst with hnone | ⟨t₁, u, hprint, ht₁, hle, hlt⟩
      · left
        rw [printAll, List.foldlM_cons, hnone]
        rfl
      · have hfold : printAll (textPrinter dev) (s :: ss) (args, t) =
            printAll (textPrinter dev) ss (mid, t₁) := by
          rw [printAll, List.foldlM_cons, hprint]
          rfl
        rw [hfold]
        rcases ih ht₁.1 htail with hnone | ⟨t', us, hrest, ht', hles, hlts⟩
        · exact Or.inl hnone
        · refine Or.inr ⟨t', u ++ us, hrest, ht₁.trans ht', ?_, ?_⟩
          · rw [List.length_append, List.length_append]
            omega
          · rintro ⟨z, hz, hneg⟩
            simp only [signedArgs, hs, List.mem_append, Option.mem_toList] at hz
            rw [List.length_append, List.length_append]
            rcases hz with hz | hz
            · have := hlt ⟨z, hz, hneg⟩
              omega
            · have := hlts ⟨z, hz, hneg⟩
              omega

end Formats

/-- `VFormat` writes the pieces of the format. -/
lemma vFormat_eq (dev : CharacterDevice δ) (fmt : CString) (args : VaList) (d : δ) :
    vFormat dev fmt args d =
      (printAll (textPrinter dev) (segments fmt.chars) (args, ⟨true, d, []⟩)).map Prod.snd := by
  rw [vFormat, ← format_eq_print (textPrinter dev) (parses_segments fmt.chars), Option.map_map]
  rfl

/-- **`VFormat` against `vfprintf`**: on a device that accepts every write, and for arguments that
match the format, both emit the same characters exactly when no value that is printed with a sign
is negative. -/
theorem vFormat_eq_vfprintf_iff {dev : CharacterDevice δ} (hdev : Accepts dev) (fmt : CString)
    {args : VaList} (hmatch : (renderAll (segments fmt.chars) args).isSome) (d : δ) :
    (vFormat dev fmt args d).map TextOut.written = (vfprintf fmt args).map Prod.fst ↔
      ∀ z ∈ signedArgs (segments fmt.chars) args, 0 ≤ z := by
  obtain ⟨⟨text, rest⟩, hrender⟩ := Option.isSome_iff_exists.mp hmatch
  have hprintf : (vfprintf fmt args).map Prod.fst = some text := by
    rw [vfprintf_render, hrender]
    rfl
  rw [hprintf, vFormat_eq]
  constructor
  · intro heq
    by_contra hnot
    have hneg : ∃ z ∈ signedArgs (segments fmt.chars) args, z < 0 := by
      simpa only [not_forall, not_le, exists_prop] using hnot
    have hlength := printAll_length (t := ⟨true, d, []⟩) hdev rfl hrender
    rcases hlength with hnone | ⟨t', u, hprint, ht', -, hlt⟩
    · rw [hnone] at heq
      exact absurd heq (by simp)
    · rw [hprint] at heq
      have htext : t'.written = text := Option.some.inj heq
      have hu : t'.written = u := ht'.2
      have hshort := hlt hneg
      rw [← htext, hu] at hshort
      exact lt_irrefl _ hshort
  · intro hnonneg
    have hwritten := printAll_of_nonneg (t := ⟨true, d, []⟩) hdev rfl hrender hnonneg
    obtain ⟨t', hprint, ht'⟩ := hwritten
    rw [hprint]
    exact congrArg some ht'.2

/-- A device that takes everything, and keeps it. -/
def recorder : CharacterDevice (List Byte) := ⟨fun bs d => (bs.length, d ++ bs)⟩

/-- The format `%d`. -/
def percentD : CString := ⟨ascii "%d", by decide⟩

/-- A number that is not negative is written alike. -/
theorem vFormat_ten :
    (vFormat recorder percentD [.word 10#32] []).map TextOut.written =
      (vfprintf percentD [.word 10#32]).map Prod.fst :=
  (vFormat_eq_vfprintf_iff (fun _ _ => rfl) percentD (by decide +kernel) []).mpr
    (by decide +kernel)

/-- Minus ten becomes `-0`. -/
theorem vFormat_minus_ten :
    (vFormat recorder percentD [.word (-10#32)] []).map TextOut.written = some (ascii "-0") ∧
      (vfprintf percentD [.word (-10#32)]).map Prod.fst = some (ascii "-10") := by
  decide +kernel

end MiqOSoft
