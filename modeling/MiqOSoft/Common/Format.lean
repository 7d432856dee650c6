import MiqOSoft.Common.Strings
import MiqOSoft.Numeral.Digits

/-!
Formatted output: what `vfprintf` of `stdio.c` and `TextDevice::VFormat` have in common.

* `Arg`, `VaList`: the arguments behind the format, and `va_arg` at the types that are used.
* `FormatMachine`, `formatChar`: the loop over the format, with its five states and five variables,
  the same text in both files up to the functions that do the printing.  These are the fields of
  a `Printer`.
* `Segment`, `segments`: the grammar of formats; `Segment.print` is the meaning of a segment on a
  printer, and `format_eq_print` says that the loop prints the segments one after another.
* `Segment.render`: the text that a segment stands for.
-/

namespace MiqOSoft

open Machine

/-- A character of C. -/
def ch (c : Char) : Byte := BitVec.ofNat 8 c.toNat

/-! ### Arguments -/

/-- An argument: `int`, `long` and their unsigned versions have 32 bits, `long long` has 64. -/
inductive Arg
  | word (w : Word)
  | dword (d : BitVec 64)
  | text (s : CString)

/-- `va_list`: the arguments not yet taken. -/
abbrev VaList := List Arg

/-- `va_arg` at a type of 32 bits.  It is undefined at an argument of another kind. -/
def vaWord : VaList → Option (Word × VaList)
  | .word w :: args => some (w, args)
  | _ => none

/-- `va_arg` at a type of 64 bits. -/
def vaDword : VaList → Option (BitVec 64 × VaList)
  | .dword d :: args => some (d, args)
  | _ => none

/-- `va_arg` at `const char*`. -/
def vaText : VaList → Option (CString × VaList)
  | .text s :: args => some (s, args)
  | _ => none

/-! ### The machine -/

/-- `PRINTF_STATE_*` and `FormatState`. -/
inductive FormatState
  | normal | length | lengthShort | lengthLong | spec
deriving DecidableEq

/-- `PRINTF_LENGTH_*` and `FormatLength`. -/
inductive FormatLength
  | default | shortShort | short | long | longLong
deriving DecidableEq

/-- The functions that do the printing, on an output of type `σ`.  Numbers are printed in a
radix, at their own width.  While `goesOn` is false nothing is printed, and no argument is
taken for it. -/
structure Printer (σ : Type) where
  goesOn : σ → Bool
  char : Byte → σ → Option σ
  string : CString → σ → Option σ
  signed : {w : ℕ} → BitVec w → ℕ → σ → Option σ
  unsigned : {w : ℕ} → BitVec w → ℕ → σ → Option σ

/-- The variables of the loop, the arguments and the output. -/
structure FormatMachine (σ : Type) where
  state : FormatState
  length : FormatLength
  radix : ℕ
  sign : Bool
  number : Bool
  args : VaList
  out : σ

variable {σ : Type}

namespace FormatMachine

/-- The initial values, which every conversion restores. -/
def start (args : VaList) (out : σ) : FormatMachine σ :=
  ⟨.normal, .default, 10, false, false, args, out⟩

/-- Something is printed. -/
def print (p : Printer σ) (put : σ → Option σ) (m : FormatMachine σ) :
    Option (FormatMachine σ) :=
  if p.goesOn m.out then do
    let out ← put m.out
    some { m with out := out }
  else some m

/-- An argument is taken and printed. -/
def printArg {α : Type} (p : Printer σ) (va : VaList → Option (α × VaList))
    (put : α → σ → Option σ) (m : FormatMachine σ) : Option (FormatMachine σ) :=
  if p.goesOn m.out then do
    let (a, args) ← va m.args
    let out ← put a m.out
    some { m with args := args, out := out }
  else some m

end FormatMachine

/-- The switch over the conversion character. -/
def formatSwitch (p : Printer σ) (c : Byte) (m : FormatMachine σ) : Option (FormatMachine σ) :=
  if c = ch 'c' then m.printArg p vaWord fun w => p.char (w.setWidth 8)
  else if c = ch 's' then m.printArg p vaText p.string
  else if c = ch '%' then m.print p (p.char (ch '%'))
  else if c = ch 'd' ∨ c = ch 'i' then some { m with radix := 10, sign := true, number := true }
  else if c = ch 'u' then some { m with radix := 10, sign := false, number := true }
  else if c = ch 'X' ∨ c = ch 'x' ∨ c = ch 'p' then
    some { m with radix := 16, sign := false, number := true }
  else if c = ch 'o' then some { m with radix := 8, sign := false, number := true }
  else some m

/-- The number, if the switch has asked for one. -/
def formatNumber (p : Printer σ) (m : FormatMachine σ) : Option (FormatMachine σ) :=
  if m.number then
    if m.sign then
      match m.length with
      | .shortShort | .short | .default => m.printArg p vaWord fun w => p.signed w m.radix
      | .long => m.printArg p vaWord fun w => p.signed w m.radix
      | .longLong => m.printArg p vaDword fun d => p.signed d m.radix
    else
      match m.length with
      | .shortShort | .short | .default => m.printArg p vaWord fun w => p.unsigned w m.radix
      | .long => m.printArg p vaWord fun w => p.unsigned w m.radix
      | .longLong => m.printArg p vaDword fun d => p.unsigned d m.radix
  else some m

/-- The state `SPEC`, to which the other states jump as well. -/
def formatSpec (p : Printer σ) (c : Byte) (m : FormatMachine σ) : Option (FormatMachine σ) := do
  let m ← formatSwitch p c m
  let m ← formatNumber p m
  some (FormatMachine.start m.args m.out)

/-- The body of the loop, for the character `c` of the format. -/
def formatChar (p : Printer σ) (m : FormatMachine σ) (c : Byte) : Option (FormatMachine σ) :=
  match m.state with
  | .normal =>
      if c = ch '%' then some { m with state := .length } else m.print p (p.char c)
  | .length =>
      if c = ch 'h' then some { m with length := .short, state := .lengthShort }
      else if c = ch 'l' then some { m with length := .long, state := .lengthLong }
      else formatSpec p c m
  | .lengthShort =>
      if c = ch 'h' then some { m with length := .shortShort, state := .spec }
      else formatSpec p c m
  | .lengthLong =>
      if c = ch 'l' then some { m with length := .longLong, state := .spec }
      else formatSpec p c m
  | .spec => formatSpec p c m

/-- The loop over the characters of the format. -/
def formatLoop (p : Printer σ) (fmt : List Byte) (args : VaList) (out : σ) :
    Option (FormatMachine σ) :=
  fmt.foldlM (formatChar p) (FormatMachine.start args out)

/-! ### The grammar -/

/-- The prefix that stands for a length. -/
def FormatLength.text : FormatLength → List Byte
  | .default => []
  | .shortShort => [ch 'h', ch 'h']
  | .short => [ch 'h']
  | .long => [ch 'l']
  | .longLong => [ch 'l', ch 'l']

/-- A piece of a format: a character standing for itself, or `%`, a length and a character. -/
inductive Segment
  | literal (c : Byte)
  | conversion (len : FormatLength) (c : Byte)
deriving DecidableEq

/-- The piece as it is written. -/
def Segment.text : Segment → List Byte
  | .literal c => [c]
  | .conversion len c => ch '%' :: (len.text ++ [c])

/-- The pieces of a format.  A length is as long as it can be, and a conversion that the end of
the format cuts off is no piece. -/
def segments : List Byte → List Segment
  | [] => []
  | c :: fmt =>
      if c = ch '%' then
        match fmt with
        | [] => []
        | d :: fmt =>
            if d = ch 'h' then
              match fmt with
              | [] => []
              | e :: fmt =>
                  if e = ch 'h' then
                    match fmt with
                    | [] => []
                    | f :: fmt => .conversion .shortShort f :: segments fmt
                  else .conversion .short e :: segments fmt
            else if d = ch 'l' then
              match fmt with
              | [] => []
              | e :: fmt =>
                  if e = ch 'l' then
                    match fmt with
                    | [] => []
                    | f :: fmt => .conversion .longLong f :: segments fmt
                  else .conversion .long e :: segments fmt
            else .conversion .default d :: segments fmt
      else .literal c :: segments fmt

lemma segments_literal {c : Byte} {fmt : List Byte} (hc : c ≠ ch '%') :
    segments (c :: fmt) = .literal c :: segments fmt := by
  rw [segments.eq_def]
  simp [hc]

lemma segments_default {c : Byte} {fmt : List Byte} (hh : c ≠ ch 'h') (hl : c ≠ ch 'l') :
    segments (ch '%' :: c :: fmt) = .conversion .default c :: segments fmt := by
  rw [segments.eq_def]
  simp [hh, hl]

lemma segments_short {c : Byte} {fmt : List Byte} (hc : c ≠ ch 'h') :
    segments (ch '%' :: ch 'h' :: c :: fmt) = .conversion .short c :: segments fmt := by
  rw [segments.eq_def]
  simp [hc]

lemma segments_long {c : Byte} {fmt : List Byte} (hc : c ≠ ch 'l') :
    segments (ch '%' :: ch 'l' :: c :: fmt) = .conversion .long c :: segments fmt := by
  have hne : ch 'l' ≠ ch 'h' := by decide
  rw [segments.eq_def]
  simp [hc, hne]

/-- A length is not followed by a character that would make it longer. -/
def FormatLength.EndsAt : FormatLength → Byte → Prop
  | .default, c => c ≠ ch 'h' ∧ c ≠ ch 'l'
  | .short, c => c ≠ ch 'h'
  | .long, c => c ≠ ch 'l'
  | .shortShort, _ => True
  | .longLong, _ => True

/-- The grammar: a format is a sequence of pieces, and perhaps the beginning of a conversion that
the end of the format cuts off. -/
inductive Parses : List Byte → List Segment → Prop
  | nil : Parses [] []
  | cutOff (len : FormatLength) : Parses (ch '%' :: len.text) []
  | literal {c : Byte} {fmt : List Byte} {ss : List Segment} (hc : c ≠ ch '%')
      (h : Parses fmt ss) : Parses ((Segment.literal c).text ++ fmt) (.literal c :: ss)
  | conversion {len : FormatLength} {c : Byte} {fmt : List Byte} {ss : List Segment}
      (hc : len.EndsAt c) (h : Parses fmt ss) :
      Parses ((Segment.conversion len c).text ++ fmt) (.conversion len c :: ss)

/-- **The pieces of a format are those of the grammar.** -/
theorem parses_segments (fmt : List Byte) : Parses fmt (segments fmt) := by
  induction fmt using segments.induct with
  | case1 => exact .nil
  | case2 => exact .cutOff .default
  | case3 => exact .cutOff .short
  | case4 => exact .cutOff .shortShort
  | case5 f fmt ih => exact @Parses.conversion .shortShort f _ _ trivial ih
  | case6 e fmt he ih =>
      rw [segments_short he]
      exact @Parses.conversion .short e _ _ he ih
  | case7 => exact .cutOff .long
  | case8 => exact .cutOff .longLong
  | case9 f fmt _ ih => exact @Parses.conversion .longLong f _ _ trivial ih
  | case10 e fmt he _ ih =>
      rw [segments_long he]
      exact @Parses.conversion .long e _ _ he ih
  | case11 d fmt hh hl ih =>
      rw [segments_default hh hl]
      exact @Parses.conversion .default d _ _ ⟨hh, hl⟩ ih
  | case12 c fmt hc ih =>
      rw [segments_literal hc]
      exact .literal hc ih

/-- What a conversion character asks for. -/
inductive Conversion
  | char | string | percent
  | signed (radix : ℕ)
  | unsigned (radix : ℕ)
deriving DecidableEq

/-- The conversions there are. -/
def conversion? (c : Byte) : Option Conversion :=
  if c = ch 'c' then some .char
  else if c = ch 's' then some .string
  else if c = ch '%' then some .percent
  else if c = ch 'd' ∨ c = ch 'i' then some (.signed 10)
  else if c = ch 'u' then some (.unsigned 10)
  else if c = ch 'X' ∨ c = ch 'x' ∨ c = ch 'p' then some (.unsigned 16)
  else if c = ch 'o' then some (.unsigned 8)
  else none

/-! ### The meaning of a piece on a printer -/

/-- An argument is taken and printed. -/
def takeArg {α : Type} (p : Printer σ) (va : VaList → Option (α × VaList))
    (put : α → σ → Option σ) (r : VaList × σ) : Option (VaList × σ) :=
  if p.goesOn r.2 then do
    let (a, args) ← va r.1
    let out ← put a r.2
    some (args, out)
  else some r

/-- What a conversion prints. -/
def Conversion.print (p : Printer σ) (len : FormatLength) :
    Conversion → VaList × σ → Option (VaList × σ)
  | .char => takeArg p vaWord fun w => p.char (w.setWidth 8)
  | .string => takeArg p vaText p.string
  | .percent => takeArg p (fun args => some ((), args)) fun _ => p.char (ch '%')
  | .signed b =>
      if len = .longLong then takeArg p vaDword fun d => p.signed d b
      else takeArg p vaWord fun w => p.signed w b
  | .unsigned b =>
      if len = .longLong then takeArg p vaDword fun d => p.unsigned d b
      else takeArg p vaWord fun w => p.unsigned w b

/-- What a piece prints.  Other characters than those of the conversions print nothing. -/
def Segment.print (p : Printer σ) : Segment → VaList × σ → Option (VaList × σ)
  | .literal c => takeArg p (fun args => some ((), args)) fun _ => p.char c
  | .conversion len c => fun r =>
      match conversion? c with
      | none => some r
      | some k => k.print p len r

lemma print_of_some {p : Printer σ} {len : FormatLength} {c : Byte} {k : Conversion}
    (h : conversion? c = some k) (r : VaList × σ) :
    (Segment.conversion len c).print p r = k.print p len r := by
  rw [Segment.print, h]

lemma print_of_none {p : Printer σ} {len : FormatLength} {c : Byte} (h : conversion? c = none)
    (r : VaList × σ) : (Segment.conversion len c).print p r = some r := by
  rw [Segment.print, h]

/-- The pieces one after another. -/
def printAll (p : Printer σ) (ss : List Segment) (r : VaList × σ) : Option (VaList × σ) :=
  ss.foldlM (fun r s => s.print p r) r

section Loop

variable (p : Printer σ)

lemma print_eq (put : σ → Option σ) (m : FormatMachine σ) :
    m.print p put = (takeArg p (fun args => some ((), args)) (fun _ => put) (m.args, m.out)).map
      fun r => { m with args := r.1, out := r.2 } := by
  rw [FormatMachine.print, takeArg]
  split_ifs
  · cases put m.out <;> rfl
  · rfl

lemma printArg_eq {α : Type} (va : VaList → Option (α × VaList)) (put : α → σ → Option σ)
    (m : FormatMachine σ) :
    m.printArg p va put = (takeArg p va put (m.args, m.out)).map
      fun r => { m with args := r.1, out := r.2 } := by
  rw [FormatMachine.printArg, takeArg]
  split_ifs
  · cases va m.args with
    | none => rfl
    | some a => cases h : put a.1 m.out <;> simp [h]
  · rfl

/-- The switch, read off the table of conversions. -/
lemma formatSwitch_eq (c : Byte) (m : FormatMachine σ) :
    formatSwitch p c m =
      match conversion? c with
      | none => some m
      | some .char => m.printArg p vaWord fun w => p.char (w.setWidth 8)
      | some .string => m.printArg p vaText p.string
      | some .percent => m.print p (p.char (ch '%'))
      | some (.signed b) => some { m with radix := b, sign := true, number := true }
      | some (.unsigned b) => some { m with radix := b, sign := false, number := true } := by
  rw [formatSwitch, conversion?]
  split_ifs <;> rfl

/-- A number is printed in the radix and with the sign the switch has set. -/
lemma formatNumber_eq (m : FormatMachine σ) (hnumber : m.number = true) :
    formatNumber p m = ((if m.sign then Conversion.signed m.radix
      else Conversion.unsigned m.radix).print p m.length (m.args, m.out)).map
      fun r => { m with args := r.1, out := r.2 } := by
  obtain ⟨state, len, radix, sign, number, args, out⟩ := m
  rw [formatNumber, if_pos hnumber]
  cases sign <;> cases len <;> simp [Conversion.print, printArg_eq]

/-- Without a number there is nothing more to print. -/
lemma formatNumber_of_false (m : FormatMachine σ) (hnumber : m.number = false) :
    formatNumber p m = some m := by
  rw [formatNumber, hnumber]
  rfl

/-- **The state `SPEC`** prints the conversion and restores the variables. -/
theorem formatSpec_eq (c : Byte) (len : FormatLength) (state : FormatState) (args : VaList)
    (out : σ) :
    formatSpec p c { FormatMachine.start args out with state := state, length := len } =
      ((Segment.conversion len c).print p (args, out)).map
        fun r => FormatMachine.start r.1 r.2 := by
  -- after the switch there is a number to print, or there is not
  have hplain : ∀ r : Option (VaList × σ),
      (do
        let m ← r.map fun r => { FormatMachine.start args out with
          state := state, length := len, args := r.1, out := r.2 }
        let m ← formatNumber p m
        some (FormatMachine.start m.args m.out)) = r.map fun r => FormatMachine.start r.1 r.2 := by
    intro r
    cases r with
    | none => rfl
    | some r => simp [formatNumber_of_false, FormatMachine.start]
  have hnumber : ∀ (b : ℕ) (sign : Bool),
      (do
        let m ← formatNumber p { FormatMachine.start args out with
          state := state, length := len, radix := b, sign := sign, number := true }
        some (FormatMachine.start m.args m.out)) =
      ((if sign then Conversion.signed b else Conversion.unsigned b).print p len (args, out)).map
        fun r => FormatMachine.start r.1 r.2 := by
    intro b sign
    rw [formatNumber_eq p _ rfl]
    cases hr : (if sign then Conversion.signed b else Conversion.unsigned b).print p len
      (args, out) <;> simp [FormatMachine.start, hr]
  rw [formatSpec, formatSwitch_eq, Segment.print]
  cases conversion? c with
  | none => exact hplain (some (args, out))
  | some k =>
      cases k with
      | char => simp only [printArg_eq]; exact hplain _
      | string => simp only [printArg_eq]; exact hplain _
      | percent => simp only [print_eq]; exact hplain _
      | signed b => exact hnumber b true
      | unsigned b => exact hnumber b false

/-- A character that starts no conversion is printed. -/
lemma formatChar_literal {c : Byte} (hc : c ≠ ch '%') (args : VaList) (out : σ) :
    formatChar p (FormatMachine.start args out) c =
      ((Segment.literal c).print p (args, out)).map fun r => FormatMachine.start r.1 r.2 := by
  have hchar : formatChar p (FormatMachine.start args out) c =
      (FormatMachine.start args out).print p (p.char c) := if_neg hc
  rw [hchar, print_eq]
  rfl

/-- The loop goes through a conversion and is back at its start. -/
lemma formatLoop_conversion {len : FormatLength} {c : Byte} (hc : len.EndsAt c)
    (fmt : List Byte) (args : VaList) (out : σ) :
    formatLoop p ((Segment.conversion len c).text ++ fmt) args out =
      ((Segment.conversion len c).print p (args, out)).bind
        fun r => formatLoop p fmt r.1 r.2 := by
  have hspec : ∀ state, (formatSpec p c
      { FormatMachine.start args out with state := state, length := len }).bind
        (fun m => fmt.foldlM (formatChar p) m) =
      ((Segment.conversion len c).print p (args, out)).bind
        fun r => formatLoop p fmt r.1 r.2 := by
    intro state
    rw [formatSpec_eq]
    cases (Segment.conversion len c).print p (args, out) <;> rfl
  cases len with
  | default =>
      rw [← hspec .length]
      obtain ⟨hh, hl⟩ := hc
      simp [formatLoop, Segment.text, FormatLength.text, formatChar, FormatMachine.start, hh, hl]
  | shortShort =>
      rw [← hspec .spec]
      simp [formatLoop, Segment.text, FormatLength.text, formatChar, FormatMachine.start]
  | short =>
      rw [← hspec .lengthShort]
      have hh : c ≠ ch 'h' := hc
      simp [formatLoop, Segment.text, FormatLength.text, formatChar, FormatMachine.start, hh]
  | long =>
      rw [← hspec .lengthLong]
      have hl : c ≠ ch 'l' := hc
      have hne : ch 'l' ≠ ch 'h' := by decide
      simp [formatLoop, Segment.text, FormatLength.text, formatChar, FormatMachine.start, hl, hne]
  | longLong =>
      rw [← hspec .spec]
      have hne : ch 'l' ≠ ch 'h' := by decide
      simp [formatLoop, Segment.text, FormatLength.text, formatChar, FormatMachine.start, hne]

/-- The loop goes through a literal character. -/
lemma formatLoop_literal {c : Byte} (hc : c ≠ ch '%') (fmt : List Byte) (args : VaList) (out : σ) :
    formatLoop p (c :: fmt) args out =
      ((Segment.literal c).print p (args, out)).bind fun r => formatLoop p fmt r.1 r.2 := by
  rw [formatLoop, List.foldlM_cons, formatChar_literal p hc]
  cases (Segment.literal c).print p (args, out) <;> rfl

/-- The loop prints nothing for a conversion that is cut off. -/
lemma formatLoop_cutOff (len : FormatLength) (args : VaList) (out : σ) :
    (formatLoop p (ch '%' :: len.text) args out).map (fun m => (m.args, m.out)) =
      some (args, out) := by
  cases len <;> rfl

/-- **The loop prints the pieces of the format**, one after another. -/
theorem format_eq_print {fmt : List Byte} {ss : List Segment} (h : Parses fmt ss) (args : VaList)
    (out : σ) :
    (formatLoop p fmt args out).map (fun m => (m.args, m.out)) = printAll p ss (args, out) := by
  induction h generalizing args out with
  | nil => rfl
  | cutOff len => exact formatLoop_cutOff p len args out
  | @literal c fmt ss hc h ih =>
      rw [Segment.text, List.singleton_append, formatLoop_literal p hc, printAll, List.foldlM_cons]
      cases (Segment.literal c).print p (args, out) with
      | none => rfl
      | some r => exact ih r.1 r.2
  | @conversion len c fmt ss hc h ih =>
      rw [formatLoop_conversion p hc, printAll, List.foldlM_cons]
      cases (Segment.conversion len c).print p (args, out) with
      | none => rfl
      | some r => exact ih r.1 r.2

end Loop

/-! ### The text that a piece stands for -/

/-- `g_HexChars`, with the NUL at its end. -/
def hexChars : List Byte := ascii "0123456789abcdef" ++ [0#8]

/-- The loop that stores the digits of a number in `buffer`, from its start, as long as there is
room for so many: `rem` and `div` are the remainder and the quotient by the radix, and `more` is the
loop's condition.  A character too many, or one outside of `g_HexChars`, is undefined. -/
def digitLoop {w : ℕ} (rem div : BitVec w → BitVec w) (more : BitVec w → Bool) :
    ℕ → BitVec w → Option (List Byte)
  | 0, _ => none
  | room + 1, number => do
      let c ← hexChars[(rem number).toNat]?
      if more (div number) then
        let cs ← digitLoop rem div more room (div number)
        some (c :: cs)
      else some [c]

/-- A number in a base. -/
def digitText (b n : ℕ) : List Byte :=
  (Numeral.numeral b n).map fun d => hexChars.getD d 0#8

/-- A number with its sign. -/
def signedText (b : ℕ) (z : ℤ) : List Byte :=
  if z < 0 then ch '-' :: digitText b z.natAbs else digitText b z.natAbs

/-- The value of a signed argument: `int` for no prefix, `h` and `hh`, `long` for `l`, which has
as many bits, and `long long` for `ll`. -/
def FormatLength.signedArg (len : FormatLength) (args : VaList) : Option (ℤ × VaList) :=
  if len = .longLong then (vaDword args).map fun r => (r.1.toInt, r.2)
  else (vaWord args).map fun r => (r.1.toInt, r.2)

/-- The value of an unsigned argument. -/
def FormatLength.unsignedArg (len : FormatLength) (args : VaList) : Option (ℕ × VaList) :=
  if len = .longLong then (vaDword args).map fun r => (r.1.toNat, r.2)
  else (vaWord args).map fun r => (r.1.toNat, r.2)

/-- The text of a conversion, and the arguments after it. -/
def Conversion.render (len : FormatLength) (args : VaList) :
    Conversion → Option (List Byte × VaList)
  | .char => (vaWord args).map fun r => ([r.1.setWidth 8], r.2)
  | .string => (vaText args).map fun r => (r.1.chars, r.2)
  | .percent => some ([ch '%'], args)
  | .signed b => (len.signedArg args).map fun r => (signedText b r.1, r.2)
  | .unsigned b => (len.unsignedArg args).map fun r => (digitText b r.1, r.2)

/-- The text of a piece, and the arguments after it. -/
def Segment.render (args : VaList) : Segment → Option (List Byte × VaList)
  | .literal c => some ([c], args)
  | .conversion len c =>
      match conversion? c with
      | none => some ([], args)
      | some k => k.render len args

lemma render_of_some {len : FormatLength} {c : Byte} {k : Conversion} (h : conversion? c = some k)
    (args : VaList) : (Segment.conversion len c).render args = k.render len args := by
  rw [Segment.render, h]

lemma render_of_none {len : FormatLength} {c : Byte} (h : conversion? c = none) (args : VaList) :
    (Segment.conversion len c).render args = some ([], args) := by
  rw [Segment.render, h]

/-- The texts of the pieces, one after another. -/
def renderAll : List Segment → VaList → Option (List Byte × VaList)
  | [], args => some ([], args)
  | s :: ss, args => do
      let (t, args) ← s.render args
      let (ts, args) ← renderAll ss args
      some (t ++ ts, args)

lemma renderAll_cons_eq_some {s : Segment} {ss : List Segment} {args rest : VaList}
    {text : List Byte} (h : renderAll (s :: ss) args = some (text, rest)) :
    ∃ t mid ts, s.render args = some (t, mid) ∧ renderAll ss mid = some (ts, rest) ∧
      text = t ++ ts := by
  rw [renderAll] at h
  obtain ⟨⟨t, mid⟩, hs, h⟩ := Option.bind_eq_some_iff.mp h
  obtain ⟨⟨ts, rest'⟩, hss, h⟩ := Option.bind_eq_some_iff.mp h
  obtain ⟨rfl, rfl⟩ := Prod.mk.inj (Option.some.inj h)
  exact ⟨t, mid, ts, hs, hss, rfl⟩

/-- A number that is not too large for an `int`. -/
lemma signedText_ofNat {n : ℕ} (hn : n < 2 ^ 31) :
    signedText 10 (BitVec.ofNat 32 n).toInt = digitText 10 n := by
  rw [toInt_ofNat hn, signedText, if_neg (by omega), Int.natAbs_natCast]

/-- Characters that stand for themselves. -/
lemma renderAll_literals (text : List Byte) (ss : List Segment) (args : VaList) :
    renderAll (text.map .literal ++ ss) args =
      (renderAll ss args).map fun r => (text ++ r.1, r.2) := by
  induction text with
  | nil =>
      rw [List.map_nil, List.nil_append]
      cases renderAll ss args <;> rfl
  | cons c text ih =>
      rw [List.map_cons, List.cons_append, renderAll]
      simp only [Segment.render, Option.bind_eq_bind, Option.bind_some, ih]
      cases renderAll ss args <;> rfl

/-- A string. -/
lemma renderAll_string (s : CString) (ss : List Segment) (args : VaList) :
    renderAll (.conversion .default (ch 's') :: ss) (.text s :: args) =
      (renderAll ss args).map fun r => (s.chars ++ r.1, r.2) := by
  have hs : conversion? (ch 's') = some .string := by decide
  rw [renderAll, render_of_some hs]
  simp only [Conversion.render, vaText, Option.map_some, Option.bind_eq_bind, Option.bind_some]
  cases renderAll ss args <;> rfl

/-- A decimal number. -/
lemma renderAll_decimal {n : ℕ} (hn : n < 2 ^ 31) (ss : List Segment) (args : VaList) :
    renderAll (.conversion .default (ch 'd') :: ss) (.word (BitVec.ofNat 32 n) :: args) =
      (renderAll ss args).map fun r => (digitText 10 n ++ r.1, r.2) := by
  have hd : conversion? (ch 'd') = some (.signed 10) := by decide
  rw [renderAll, render_of_some hd, ← signedText_ofNat hn]
  simp only [Conversion.render, FormatLength.signedArg, vaWord, reduceCtorEq, if_false,
    Option.map_some, Option.bind_eq_bind, Option.bind_some]
  cases renderAll ss args <;> rfl

lemma getElem?_hexChars {d : ℕ} (hd : d < 16) : hexChars[d]? = some (hexChars.getD d 0#8) := by
  have hlen : hexChars.length = 17 := by decide
  rw [List.getElem?_eq_getElem (by omega), List.getD_eq_getElem _ _ (by omega)]

/-- The loop stores the digits, lowest first, of a number that it divides as `radix` does. -/
lemma digitLoop_eq {w radix : ℕ} {rem div : BitVec w → BitVec w} {more : BitVec w → Bool}
    {P : BitVec w → Prop} (hlo : 1 < radix) (hhi : radix ≤ 16)
    (hrem : ∀ n, P n → (rem n).toNat = n.toNat % radix)
    (hdiv : ∀ n, P n → (div n).toNat = n.toNat / radix) (hP : ∀ n, P n → P (div n))
    (hmore : ∀ n, P n → (more n = true ↔ n.toNat ≠ 0)) {room : ℕ} (hroom : 0 < room)
    {number : BitVec w} (hn : P number) (hnumber : number.toNat < radix ^ room) :
    digitLoop rem div more room number =
      some ((Numeral.lowDigits radix number.toNat).map fun d => hexChars.getD d 0#8) := by
  induction room generalizing number with
  | zero => exact absurd hroom (lt_irrefl 0)
  | succ room ih =>
      have hlt : number.toNat % radix < 16 := (Nat.mod_lt _ (by omega)).trans_le hhi
      have hcond : more (div number) = true ↔ number.toNat / radix ≠ 0 := by
        rw [hmore _ (hP _ hn), hdiv _ hn]
      rw [digitLoop, hrem _ hn, getElem?_hexChars hlt, Numeral.lowDigits_eq hlo]
      by_cases hq : number.toNat / radix = 0
      · have hstop : more (div number) = false := by
          simpa [hq] using hcond
        simp [hstop, hq]
      · have hbound : (div number).toNat < radix ^ room := by
          rw [hdiv _ hn]
          exact Nat.div_lt_of_lt_mul (by rwa [pow_succ'] at hnumber)
        have hroom' : 0 < room := by
          rcases Nat.eq_zero_or_pos room with rfl | h
          · rw [pow_zero, hdiv _ hn] at hbound
            exact absurd (Nat.lt_one_iff.mp hbound) hq
          · exact h
        rw [ih hroom' (hP _ hn) hbound, hdiv _ hn]
        simp [hcond.mpr hq, hq]

/-- The radix of a conversion is one of three. -/
lemma radix_of_conversion {c : Byte} {b : ℕ}
    (h : conversion? c = some (.signed b) ∨ conversion? c = some (.unsigned b)) :
    8 ≤ b ∧ b ≤ 16 := by
  rw [conversion?] at h
  split_ifs at h <;> simp at h <;> omega

/-- A printer that appends the text of every piece prints the text of the whole format. -/
lemma printAll_eq_renderAll {p : Printer (List Byte)}
    (hp : ∀ (s : Segment) (args : VaList) (out : List Byte), s.print p (args, out) =
      (s.render args).map fun r => (r.2, out ++ r.1))
    (ss : List Segment) (args : VaList) (out : List Byte) :
    printAll p ss (args, out) = (renderAll ss args).map fun r => (r.2, out ++ r.1) := by
  induction ss generalizing args out with
  | nil => simp [printAll, renderAll]
  | cons s ss ih =>
      rw [printAll, List.foldlM_cons, hp, renderAll]
      cases s.render args with
      | none => rfl
      | some r =>
          have hrest := ih r.2 (out ++ r.1)
          rw [printAll] at hrest
          simp only [Option.map_some, Option.bind_eq_bind, Option.bind_some, hrest]
          cases renderAll ss r.2 <;> simp

/-! ### Signed numbers and a radix -/

section Signed

variable {w radix : ℕ}

lemma toNat_ofNat_radix (hw : 32 ≤ w) (hhi : radix ≤ 16) :
    (BitVec.ofNat w radix).toNat = radix := by
  have hpow : 2 ^ 32 ≤ 2 ^ w := Nat.pow_le_pow_right (by decide) hw
  exact toNat_ofNat_of_lt (by omega)

lemma toInt_ofNat_radix (hw : 32 ≤ w) (hhi : radix ≤ 16) :
    (BitVec.ofNat w radix).toInt = radix := by
  have hpow : 2 ^ 32 ≤ 2 ^ w := Nat.pow_le_pow_right (by decide) hw
  have hnat : (BitVec.ofNat w radix).toNat = radix := toNat_ofNat_radix hw hhi
  rw [BitVec.toInt_eq_toNat_of_lt (by omega), hnat]

/-- The remainder of C. -/
lemma toInt_srem_radix (hw : 32 ≤ w) (hhi : radix ≤ 16) (n : BitVec w) :
    (n.srem (BitVec.ofNat w radix)).toInt = n.toInt.tmod radix := by
  rw [BitVec.toInt_srem, toInt_ofNat_radix hw hhi]

/-- The quotient of C, which does not overflow. -/
lemma toInt_sdiv_radix (hw : 32 ≤ w) (hhi : radix ≤ 16) (n : BitVec w) :
    (n.sdiv (BitVec.ofNat w radix)).toInt = n.toInt.tdiv radix := by
  have hpow : 2 ^ 32 ≤ 2 ^ w := Nat.pow_le_pow_right (by decide) hw
  have hne : BitVec.ofNat w radix ≠ -1#w := by
    intro h
    have hnat := congrArg BitVec.toNat h
    rw [toNat_ofNat_radix hw hhi, BitVec.neg_one_eq_allOnes, BitVec.toNat_allOnes] at hnat
    omega
  rw [BitVec.toInt_sdiv_of_ne_or_ne _ _ (Or.inr hne), toInt_ofNat_radix hw hhi]

/-- Of a negative number both have the negative sign. -/
lemma toInt_srem_of_neg (hw : 32 ≤ w) (hhi : radix ≤ 16) {n : BitVec w} (hn : n.toInt < 0) :
    (n.srem (BitVec.ofNat w radix)).toInt = -((n.toInt.natAbs % radix : ℕ) : ℤ) := by
  have habs : n.toInt = -(n.toInt.natAbs : ℤ) := by omega
  rw [toInt_srem_radix hw hhi, Int.ofNat_tmod, ← Int.neg_tmod, ← habs]

lemma toInt_sdiv_of_neg (hw : 32 ≤ w) (hhi : radix ≤ 16) {n : BitVec w} (hn : n.toInt < 0) :
    (n.sdiv (BitVec.ofNat w radix)).toInt = -((n.toInt.natAbs / radix : ℕ) : ℤ) := by
  have habs : n.toInt = -(n.toInt.natAbs : ℤ) := by omega
  rw [toInt_sdiv_radix hw hhi, Int.ofNat_tdiv, ← Int.neg_tdiv, ← habs]

lemma toNat_of_toInt_nonneg {n : BitVec w} (h : 0 ≤ n.toInt) : (n.toNat : ℤ) = n.toInt := by
  have hlt := n.isLt
  rw [BitVec.toInt_eq_toNat_cond] at h ⊢
  split_ifs at h ⊢ <;> omega

lemma toNat_of_toInt_neg {n : BitVec w} (h : n.toInt < 0) : (n.toNat : ℤ) = 2 ^ w + n.toInt := by
  have hlt := n.isLt
  rw [BitVec.toInt_eq_toNat_cond] at h ⊢
  split_ifs at h ⊢ <;> push_cast <;> omega

/-- The digits of a number that is not negative are found by signed division as well. -/
lemma digitLoop_signed_eq (hw : 32 ≤ w) (hlo : 1 < radix) (hhi : radix ≤ 16)
    {more : BitVec w → Bool} (hmore : ∀ n : BitVec w, 0 ≤ n.toInt → (more n = true ↔ n.toNat ≠ 0))
    {room : ℕ} (hroom : 0 < room) {n : BitVec w} (hn : 0 ≤ n.toInt)
    (hfits : n.toNat < radix ^ room) :
    digitLoop (fun n => n.srem (BitVec.ofNat w radix)) (fun n => n.sdiv (BitVec.ofNat w radix)) more
      room n = some ((Numeral.lowDigits radix n.toNat).map fun d => hexChars.getD d 0#8) := by
  have hrem : ∀ n : BitVec w, 0 ≤ n.toInt →
      (n.srem (BitVec.ofNat w radix)).toNat = n.toNat % radix := by
    intro n hn
    have hint := toInt_srem_radix hw hhi n
    rw [← toNat_of_toInt_nonneg hn, ← Int.ofNat_tmod] at hint
    have hnonneg : 0 ≤ (n.srem (BitVec.ofNat w radix)).toInt := by
      rw [hint]
      exact Int.natCast_nonneg _
    exact Int.ofNat_inj.mp ((toNat_of_toInt_nonneg hnonneg).trans hint)
  have hdiv : ∀ n : BitVec w, 0 ≤ n.toInt → 0 ≤ (n.sdiv (BitVec.ofNat w radix)).toInt ∧
      (n.sdiv (BitVec.ofNat w radix)).toNat = n.toNat / radix := by
    intro n hn
    have hint := toInt_sdiv_radix hw hhi n
    rw [← toNat_of_toInt_nonneg hn, ← Int.ofNat_tdiv] at hint
    have hnonneg : 0 ≤ (n.sdiv (BitVec.ofNat w radix)).toInt := by
      rw [hint]
      exact Int.natCast_nonneg _
    exact ⟨hnonneg, Int.ofNat_inj.mp ((toNat_of_toInt_nonneg hnonneg).trans hint)⟩
  exact digitLoop_eq (P := fun n => 0 ≤ n.toInt) hlo hhi hrem (fun n hn => (hdiv n hn).2)
    (fun n hn => (hdiv n hn).1) hmore hroom hn hfits

end Signed

end MiqOSoft
