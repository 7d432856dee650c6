import MiqOSoft.Core.TextDevice
import MiqOSoft.Transition.Loop

/-!
The dump of a buffer in hexadecimal: `fprint_buffer` of the kernel, `print_buffer` of the second
stage of the boot loader, and `TextDevice::FormatBuffer`.

* `bufferTurn`: a turn of the loop that the three have in common.  Its index has 16 bits, and is
  compared with a count of 32 bits.
* `leaves_bufferTurn`: below 65536 the loop ends, and has written two digits for every byte.
* `bufferTurn_ne_none`: from 65536 on it does not end.
* `dump_iff`: which buffers the three functions dump.
-/

namespace MiqOSoft

open Machine Transition

variable {σ δ : Type}

/-- `g_HexChars` at a number below 16. -/
def hexChar (d : Byte) : Byte := hexChars.getD d.toNat 0#8

/-- The variables of the loop: `i`, and the output. -/
structure BufferLoop (σ : Type) where
  i : BitVec 16
  out : σ

/-- A turn of the loop over the bytes of `u8Buffer`. -/
def bufferTurn (put : Byte → σ → σ) (count : Word) (u8Buffer : Vector Byte count.toNat)
    (m : BufferLoop σ) : Option (BufferLoop σ) :=
  if h : m.i.setWidth 32 < count then
    let b := u8Buffer.get ⟨m.i.toNat, by bv_omega⟩
    some ⟨m.i + 1, put (hexChar (b &&& 0xF#8)) (put (hexChar (b >>> 4)) m.out)⟩
  else none

/-- The output of the loop, if it ends within the turns. -/
def bufferLoop (put : Byte → σ → σ) (turns : ℕ) (count : Word)
    (u8Buffer : Vector Byte count.toNat) (out : σ) : Option σ :=
  (leaves (bufferTurn put count u8Buffer) turns ⟨0#16, out⟩).map BufferLoop.out

/-- The string `"\n"`. -/
def newline : CString := ⟨[10#8], by decide⟩

/-- `fprint_buffer`: the characters given to `fputc`. -/
def fprintBuffer (turns : ℕ) (msg : CString) (count : Word) (buffer : Vector Byte count.toNat)
    (out : List Byte) : Option (List Byte) := do
  let out ← bufferLoop fputc turns count buffer (fputs msg out)
  some (fputs newline out)

namespace Stage2

/-- `putc`: the character is kept as it is given. -/
def putc (c : Byte) (out : List Byte) : List Byte := out ++ [c]

/-- `puts`. -/
def puts (str : CString) (out : List Byte) : List Byte :=
  str.chars.foldl (fun out c => putc c out) out

/-- `print_buffer`: the characters given to `putc`. -/
def printBuffer (turns : ℕ) (msg : CString) (count : Word) (buffer : Vector Byte count.toNat)
    (out : List Byte) : Option (List Byte) := do
  let out ← bufferLoop putc turns count buffer (puts msg out)
  some (puts newline out)

end Stage2

/-- `TextDevice::FormatBuffer`, where every `Write` is behind `ok &&`. -/
def formatBuffer (dev : CharacterDevice δ) (turns : ℕ) (msg : CString) (count : Word)
    (buffer : Vector Byte count.toNat) (d : δ) : Option (TextOut δ) := do
  let t ← bufferLoop (writeChar dev) turns count buffer (writeString dev msg.chars ⟨true, d, []⟩)
  some (writeString dev newline.chars t)

/-! ### The text of a dump -/

/-- The two digits of a byte. -/
def hexByte (b : Byte) : List Byte :=
  [hexChars.getD (b.toNat / 16) 0#8, hexChars.getD (b.toNat % 16) 0#8]

/-- The message, two digits for every byte, and a newline. -/
def dumpText (msg : CString) (bytes : List Byte) : List Byte :=
  msg.chars ++ bytes.flatMap hexByte ++ [10#8]

lemma hexByte_eq (b : Byte) : hexByte b = [hexChar (b >>> 4), hexChar (b &&& 0xF#8)] := by
  have hhigh : (b >>> 4).toNat = b.toNat / 16 := by
    rw [BitVec.toNat_ushiftRight, Nat.shiftRight_eq_div_pow]
  have hlow : (b &&& 0xF#8).toNat = b.toNat % 16 := by
    rw [BitVec.toNat_and]
    exact Nat.and_two_pow_sub_one_eq_mod b.toNat 4
  rw [hexByte, hexChar, hexChar, hhigh, hlow]

/-! ### The loop -/

/-- The bytes are put one after another. -/
def putHex (put : Byte → σ → σ) (bytes : List Byte) (out : σ) : σ :=
  (bytes.flatMap hexByte).foldl (fun out c => put c out) out

lemma putHex_append (put : Byte → σ → σ) (bytes : List Byte) (b : Byte) (out : σ) :
    putHex put (bytes ++ [b]) out =
      put (hexChar (b &&& 0xF#8)) (put (hexChar (b >>> 4)) (putHex put bytes out)) := by
  rw [putHex, List.flatMap_append, List.foldl_append, List.flatMap_singleton, hexByte_eq]
  rfl

section Turns

variable {put : Byte → σ → σ} {count : Word} {buffer : Vector Byte count.toNat}

/-- The state before the turn with the number `k`. -/
def atTurn (put : Byte → σ → σ) (buffer : Vector Byte count.toNat) (out : σ) (k : ℕ) :
    BufferLoop σ :=
  ⟨BitVec.ofNat 16 k, putHex put (buffer.toList.take k) out⟩

/-- Below 65536 the index is the number of the turn. -/
lemma bufferTurn_atTurn (hcount : count.toNat < 65536) (out : σ) {k : ℕ} (hk : k < count.toNat) :
    bufferTurn put count buffer (atTurn put buffer out k) =
      some (atTurn put buffer out (k + 1)) := by
  have hi : (BitVec.ofNat 16 k).toNat = k := toNat_ofNat_of_lt (by omega)
  have hlt : (BitVec.ofNat 16 k).setWidth 32 < count := by
    rw [BitVec.lt_def, BitVec.toNat_setWidth, hi]
    omega
  have hlen : k < buffer.toList.length := by rwa [Vector.length_toList]
  have hnext : BitVec.ofNat 16 k + 1#16 = BitVec.ofNat 16 (k + 1) := by
    rw [BitVec.ofNat_add]
  rw [bufferTurn, atTurn, dif_pos hlt, atTurn, List.take_succ_eq_append_getElem hlen,
    putHex_append, ← hnext]
  simp only [hi, Vector.getElem_toList]
  rfl

lemma bufferTurn_last (hcount : count.toNat < 65536) (out : σ) :
    bufferTurn put count buffer (atTurn put buffer out count.toNat) = none := by
  have hge : ¬(BitVec.ofNat 16 count.toNat).setWidth 32 < count := by
    rw [BitVec.lt_def, BitVec.toNat_setWidth, BitVec.toNat_ofNat]
    omega
  rw [bufferTurn, atTurn, dif_neg hge]

/-- **Below 65536** the loop ends, and every byte has been put. -/
theorem leaves_bufferTurn (hcount : count.toNat < 65536) (out : σ) :
    bufferLoop put (count.toNat + 1) count buffer out =
      some (putHex put buffer.toList out) := by
  have hleft : leaves (bufferTurn put count buffer) (count.toNat + 1) (atTurn put buffer out 0) =
      some (atTurn put buffer out (0 + count.toNat)) := by
    refine leaves_of_counts ?_ ?_
    · intro n hn
      rw [Nat.zero_add]
      exact bufferTurn_atTurn hcount out hn
    · rw [Nat.zero_add]
      exact bufferTurn_last hcount out
  have hall : buffer.toList.take count.toNat = buffer.toList :=
    List.take_of_length_le (Vector.length_toList).le
  rw [Nat.zero_add] at hleft
  rw [bufferLoop]
  refine (congrArg (Option.map BufferLoop.out) hleft).trans ?_
  rw [Option.map_some, atTurn, hall]

/-- **From 65536 on** no index reaches the count. -/
theorem bufferTurn_ne_none (hcount : 65536 ≤ count.toNat) (m : BufferLoop σ) :
    bufferTurn put count buffer m ≠ none := by
  have hlt : m.i.setWidth 32 < count := by
    have hi := m.i.isLt
    rw [BitVec.lt_def, BitVec.toNat_setWidth]
    omega
  rw [bufferTurn, dif_pos hlt]
  exact Option.some_ne_none _

lemma bufferLoop_eq_none (hcount : 65536 ≤ count.toNat) (turns : ℕ) (out : σ) :
    bufferLoop put turns count buffer out = none := by
  rw [bufferLoop, leaves_eq_none (bufferTurn_ne_none hcount), Option.map_none]

end Turns

/-! ### The three functions -/

section Dump

variable {msg : CString} {count : Word} {buffer : Vector Byte count.toNat}

/-- The second stage has the same function. -/
lemma stage2_printBuffer_eq (turns : ℕ) (out : List Byte) :
    Stage2.printBuffer turns msg count buffer out = fprintBuffer turns msg count buffer out := rfl

lemma fprintBuffer_eq (hcount : count.toNat < 65536) (out : List Byte) :
    fprintBuffer (count.toNat + 1) msg count buffer out =
      some (out ++ dumpText msg buffer.toList) := by
  rw [fprintBuffer, leaves_bufferTurn hcount]
  simp only [Option.bind_eq_bind, Option.bind_some, putHex, fputs, foldl_fputc, dumpText, newline,
    List.append_assoc]

lemma fprintBuffer_eq_none (hcount : 65536 ≤ count.toNat) (turns : ℕ) (out : List Byte) :
    fprintBuffer turns msg count buffer out = none := by
  rw [fprintBuffer, bufferLoop_eq_none hcount]
  rfl

lemma fprintBuffer_iff (out : List Byte) :
    (∃ turns, fprintBuffer turns msg count buffer out = some (out ++ dumpText msg buffer.toList)) ↔
      count.toNat < 65536 := by
  constructor
  · rintro ⟨turns, hdone⟩
    by_contra hlarge
    rw [fprintBuffer_eq_none (Nat.le_of_not_lt hlarge)] at hdone
    exact Option.some_ne_none _ hdone.symm
  · intro hcount
    exact ⟨_, fprintBuffer_eq hcount out⟩

variable {dev : CharacterDevice δ}

lemma wrote_putHex (hdev : Accepts dev) (bytes : List Byte) {t : TextOut δ} (hok : t.ok = true) :
    Wrote t (bytes.flatMap hexByte) (putHex (writeChar dev) bytes t) := by
  rw [putHex]
  generalize bytes.flatMap hexByte = cs
  induction cs generalizing t with
  | nil => exact Wrote.nil hok
  | cons c cs ih =>
      have hc := wrote_writeChar hdev hok c
      exact hc.trans (ih hc.1)

lemma formatBuffer_eq (hdev : Accepts dev) (hcount : count.toNat < 65536) (d : δ) :
    ∃ t, formatBuffer dev (count.toNat + 1) msg count buffer d = some t ∧ t.ok = true ∧
      t.written = dumpText msg buffer.toList := by
  have hmsg := wrote_writeString hdev (t := ⟨true, d, []⟩) rfl msg.chars
  have hbytes := wrote_putHex hdev buffer.toList hmsg.1
  have hend := wrote_writeString hdev hbytes.1 newline.chars
  have hall := (hmsg.trans hbytes).trans hend
  refine ⟨_, by rw [formatBuffer, leaves_bufferTurn hcount]; rfl, hall.1, ?_⟩
  rw [hall.2, List.nil_append]
  rfl

/-- **A buffer is dumped exactly if it has fewer than 65536 bytes**, by each of the functions: the
message, two digits for every byte, and a newline.  A larger one keeps each of them in its loop. -/
theorem dump_iff (hdev : Accepts dev) (msg : CString) (count : Word)
    (buffer : Vector Byte count.toNat) (out : List Byte) (d : δ) :
    ((∃ turns, fprintBuffer turns msg count buffer out =
        some (out ++ dumpText msg buffer.toList)) ↔ count.toNat < 65536) ∧
      ((∃ turns, Stage2.printBuffer turns msg count buffer out =
        some (out ++ dumpText msg buffer.toList)) ↔ count.toNat < 65536) ∧
      ((∃ turns t, formatBuffer dev turns msg count buffer d = some t ∧ t.ok = true ∧
        t.written = dumpText msg buffer.toList) ↔ count.toNat < 65536) := by
  refine ⟨fprintBuffer_iff out, ?_, ?_⟩
  · simp only [stage2_printBuffer_eq]
    exact fprintBuffer_iff out
  · constructor
    · rintro ⟨turns, t, hdone, -⟩
      by_contra hlarge
      rw [formatBuffer, bufferLoop_eq_none (Nat.le_of_not_lt hlarge)] at hdone
      exact Option.some_ne_none _ hdone.symm
    · intro hcount
      exact ⟨_, formatBuffer_eq hdev hcount d⟩

/-- One byte after a message of one character. -/
theorem dump_iff_one_byte :
    (∃ turns, fprintBuffer turns newline 1#32 (Vector.replicate 1 0xAB#8) [] =
      some (ascii "\nab\n")) ∧
    (∃ turns t, formatBuffer recorder turns newline 1#32 (Vector.replicate 1 0xAB#8) [] = some t ∧
      t.ok = true ∧ t.written = ascii "\nab\n") := by
  have hrecorder : Accepts recorder := fun _ _ => rfl
  have hdump := dump_iff hrecorder newline 1#32 (Vector.replicate 1 0xAB#8) [] []
  exact ⟨hdump.1.mpr (by decide), hdump.2.2.mpr (by decide)⟩

/-- With 65536 bytes the loop of the kernel is not left after any number of turns. -/
theorem large_dump_endless : ¬∃ turns,
    fprintBuffer turns newline 65536#32 (Vector.replicate 65536 0#8) [] =
      some (dumpText newline (Vector.replicate 65536 0#8).toList) := by
  rintro ⟨turns, hdone⟩
  rw [fprintBuffer_eq_none (by decide)] at hdone
  exact Option.some_ne_none _ hdone.symm

end Dump

end MiqOSoft
