import MiqOSoft.Common.Format

/-!
`fprintf_unsigned`, `fprintf_signed` and `vfprintf` of the kernel's `stdio.c`.

The output is the list of the characters given to `fputc`.  `vfprintf` is the machine of formatted
output with the kernel's functions as printer.

* `storeDigits_eq`: the digits that the loop of `fprintf_unsigned` stores, and that they fit into
  its buffer.
* `fprintfUnsigned_eq`, `fprintfSigned_eq`: the text of a number, over the whole range.
-/

namespace MiqOSoft

open Machine Numeral

/-- `fputc`. -/
def fputc (c : Byte) (out : List Byte) : List Byte := out ++ [c]

/-- `fputs`. -/
def fputs (s : CString) (out : List Byte) : List Byte :=
  s.chars.foldl (fun out c => fputc c out) out

/-- The loop of `fprintf_unsigned`. -/
def storeDigits (radix room : ℕ) (number : BitVec 64) : Option (List Byte) :=
  digitLoop (fun n => n % BitVec.ofNat 64 radix) (fun n => n / BitVec.ofNat 64 radix)
    (fun n => decide (0#64 < n)) room number

/-- `fprintf_unsigned`: the buffer has 32 places, and is printed from its end. -/
def fprintfUnsigned (number : BitVec 64) (radix : ℕ) (out : List Byte) : Option (List Byte) := do
  let buffer ← storeDigits radix 32 number
  some (buffer.foldr fputc out)

/-- `fprintf_signed`. -/
def fprintfSigned (number : BitVec 64) (radix : ℕ) (out : List Byte) : Option (List Byte) :=
  if number.slt 0#64 then fprintfUnsigned (-number) radix (fputc (ch '-') out)
  else fprintfUnsigned number radix out

/-- The functions that `vfprintf` prints with.  Numbers are widened to 64 bits by the calls. -/
def printfPrinter : Printer (List Byte) where
  goesOn _ := true
  char c out := some (fputc c out)
  string s out := some (fputs s out)
  signed n radix out := fprintfSigned (n.signExtend 64) radix out
  unsigned n radix out := fprintfUnsigned (n.setWidth 64) radix out

/-- `vfprintf`: the characters emitted, and the arguments not taken. -/
def vfprintf (fmt : CString) (args : VaList) : Option (List Byte × VaList) :=
  (formatLoop printfPrinter fmt.chars args []).map fun m => (m.out, m.args)

/-! ### Numbers -/

/-- The loop stores the digits, lowest first. -/
lemma storeDigits_eq {radix : ℕ} (hlo : 1 < radix) (hhi : radix ≤ 16) {room : ℕ}
    (hroom : 0 < room) {number : BitVec 64} (hnumber : number.toNat < radix ^ room) :
    storeDigits radix room number =
      some ((lowDigits radix number.toNat).map fun d => hexChars.getD d 0#8) := by
  have hradix : (BitVec.ofNat 64 radix).toNat = radix := toNat_ofNat_of_lt (by omega)
  refine digitLoop_eq (P := fun _ => True) hlo hhi ?_ ?_ (fun _ _ => trivial) ?_ hroom trivial
    hnumber
  · intro n _
    rw [BitVec.toNat_umod, hradix]
  · intro n _
    rw [BitVec.toNat_udiv, hradix]
  · intro n _
    rw [decide_eq_true_eq, BitVec.lt_def]
    exact Nat.pos_iff_ne_zero

lemma foldr_fputc (buffer out : List Byte) : buffer.foldr fputc out = out ++ buffer.reverse := by
  induction buffer with
  | nil => simp
  | cons c buffer ih => rw [List.foldr_cons, ih, fputc, List.reverse_cons, List.append_assoc]

lemma foldl_fputc (s out : List Byte) : s.foldl (fun out c => fputc c out) out = out ++ s := by
  induction s generalizing out with
  | nil => simp
  | cons c s ih => rw [List.foldl_cons, ih, fputc, List.append_assoc, List.singleton_append]

/-- **An unsigned number** is printed as its digits, for which the buffer has room. -/
theorem fprintfUnsigned_eq {radix : ℕ} (hlo : 8 ≤ radix) (hhi : radix ≤ 16) (number : BitVec 64)
    (out : List Byte) :
    fprintfUnsigned number radix out = some (out ++ digitText radix number.toNat) := by
  have hfits : number.toNat < radix ^ 32 :=
    calc number.toNat < 2 ^ 64 := number.isLt
      _ ≤ 8 ^ 32 := by norm_num
      _ ≤ radix ^ 32 := Nat.pow_le_pow_left hlo 32
  rw [fprintfUnsigned, storeDigits_eq (by omega) hhi (by decide) hfits]
  simp only [Option.bind_eq_bind, Option.bind_some, foldr_fputc, ← List.map_reverse]
  rfl

/-- The negation of a negative number, as an unsigned one, is its absolute value, also where the
negation wraps around. -/
lemma toNat_neg_of_slt {number : BitVec 64} (h : number.slt 0#64) :
    (-number).toNat = number.toInt.natAbs := by
  have hneg : number.toInt < 0 := by simpa [BitVec.slt] using h
  have hlt := number.isLt
  rw [BitVec.toNat_neg]
  rw [BitVec.toInt_eq_toNat_cond] at hneg ⊢
  split_ifs at hneg ⊢ <;> omega

/-- **A signed number** is printed with its sign, over the whole range. -/
theorem fprintfSigned_eq {radix : ℕ} (hlo : 8 ≤ radix) (hhi : radix ≤ 16) (number : BitVec 64)
    (out : List Byte) :
    fprintfSigned number radix out = some (out ++ signedText radix number.toInt) := by
  have hsign : number.slt 0#64 ↔ number.toInt < 0 := by simp [BitVec.slt]
  rw [fprintfSigned, signedText]
  by_cases hneg : number.toInt < 0
  · have hslt : number.slt 0#64 = true := hsign.mpr hneg
    rw [if_pos hslt, if_pos hneg, fprintfUnsigned_eq hlo hhi, toNat_neg_of_slt hslt, fputc,
      List.append_assoc, List.singleton_append]
  · have hnat : number.toNat = number.toInt.natAbs := by
      have hlt := number.isLt
      rw [BitVec.toInt_eq_toNat_cond] at hneg ⊢
      split_ifs at hneg ⊢ <;> omega
    rw [if_neg (mt hsign.mp hneg), if_neg hneg, fprintfUnsigned_eq hlo hhi, hnat]

/-! ### The format -/

lemma vfprintf_eq {fmt : CString} {ss : List Segment} (h : Parses fmt.chars ss) (args : VaList) :
    vfprintf fmt args = (printAll printfPrinter ss (args, [])).map fun r => (r.2, r.1) := by
  rw [vfprintf, ← format_eq_print printfPrinter h, Option.map_map]
  rfl

/-- Taking an argument and appending its text. -/
lemma takeArg_eq {α : Type} {p : Printer (List Byte)} (hp : ∀ out, p.goesOn out = true)
    {va : VaList → Option (α × VaList)} {put : α → List Byte → Option (List Byte)}
    {text : α → List Byte} (hput : ∀ a out, put a out = some (out ++ text a)) (args : VaList)
    (out : List Byte) :
    takeArg p va put (args, out) = (va args).map fun r => (r.2, out ++ text r.1) := by
  rw [takeArg, if_pos (hp out)]
  cases va args with
  | none => rfl
  | some r => simp [hput]

/-- The kernel's functions print the text of every piece. -/
lemma print_printfPrinter (s : Segment) (args : VaList) (out : List Byte) :
    s.print printfPrinter (args, out) = (s.render args).map fun r => (r.2, out ++ r.1) := by
  have hgo : ∀ out, printfPrinter.goesOn out = true := fun _ => rfl
  cases s with
  | literal c => rfl
  | conversion len c =>
      cases hc : conversion? c with
      | none => simp [print_of_none hc, render_of_none hc]
      | some k =>
          rw [print_of_some hc, render_of_some hc]
          cases k with
          | char =>
              have hput : ∀ (w : Word) (out : List Byte),
                  printfPrinter.char (w.setWidth 8) out = some (out ++ [w.setWidth 8]) :=
                fun _ _ => rfl
              rw [Conversion.print, takeArg_eq hgo hput, Conversion.render, Option.map_map]
              rfl
          | string =>
              have hput : ∀ (s : CString) (out : List Byte),
                  printfPrinter.string s out = some (out ++ s.chars) :=
                fun s out => congrArg some (foldl_fputc s.chars out)
              rw [Conversion.print, takeArg_eq hgo hput, Conversion.render, Option.map_map]
              rfl
          | percent => rfl
          | signed b =>
              obtain ⟨hlo, hhi⟩ := radix_of_conversion (Or.inl hc)
              have hput : ∀ {w : ℕ}, w ≤ 64 → ∀ (n : BitVec w) (out : List Byte),
                  printfPrinter.signed n b out = some (out ++ signedText b n.toInt) := by
                intro w hw n out
                have hwiden : (n.signExtend 64).toInt = n.toInt := BitVec.toInt_signExtend_of_le hw
                rw [← hwiden]
                exact fprintfSigned_eq hlo hhi _ out
              rw [Conversion.print, Conversion.render, FormatLength.signedArg]
              split_ifs
              · rw [takeArg_eq hgo (hput le_rfl), Option.map_map, Option.map_map]
                rfl
              · rw [takeArg_eq hgo (hput (by decide)), Option.map_map, Option.map_map]
                rfl
          | unsigned b =>
              obtain ⟨hlo, hhi⟩ := radix_of_conversion (Or.inr hc)
              have hput : ∀ {w : ℕ}, w ≤ 64 → ∀ (n : BitVec w) (out : List Byte),
                  printfPrinter.unsigned n b out = some (out ++ digitText b n.toNat) := by
                intro w hw n out
                have hwiden : (n.setWidth 64).toNat = n.toNat := BitVec.toNat_setWidth_of_le hw
                rw [← hwiden]
                exact fprintfUnsigned_eq hlo hhi _ out
              rw [Conversion.print, Conversion.render, FormatLength.unsignedArg]
              split_ifs
              · rw [takeArg_eq hgo (hput le_rfl), Option.map_map, Option.map_map]
                rfl
              · rw [takeArg_eq hgo (hput (by decide)), Option.map_map, Option.map_map]
                rfl

lemma vfprintf_of_parses {fmt : CString} {ss : List Segment} (h : Parses fmt.chars ss)
    (args : VaList) : vfprintf fmt args = renderAll ss args := by
  rw [vfprintf_eq h, printAll_eq_renderAll print_printfPrinter, Option.map_map]
  cases renderAll ss args <;> rfl

lemma vfprintf_render (fmt : CString) (args : VaList) :
    vfprintf fmt args = renderAll (segments fmt.chars) args :=
  vfprintf_of_parses (parses_segments fmt.chars) args

/-- **`vfprintf` prints what the grammar of formats says**: the format falls into pieces, of which
the last may be cut off, and what is emitted is the concatenation of the texts of the pieces, each
of them depending only on the piece and on the arguments the earlier ones have left. -/
theorem vfprintf_eq_renderAll (fmt : CString) (args : VaList) :
    Parses fmt.chars (segments fmt.chars) ∧
      vfprintf fmt args = renderAll (segments fmt.chars) args :=
  ⟨parses_segments fmt.chars, vfprintf_render fmt args⟩

end MiqOSoft
