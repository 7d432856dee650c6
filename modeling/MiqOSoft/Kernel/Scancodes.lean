import MiqOSoft.Kernel.Keyboard
import MiqOSoft.Common.Format

/-!
The interrupt handler `keyboard_handler` of `keyboard.c`, which turns scancodes into characters.

* `keymap`, `deadCompositions`: the tables; `keyboardHandler`: the handler, for one byte.
* `KeyStream`: a physical keyboard, with the keys that are down and the prefix of the extended keys.
* `modifiers_iff`: the flags tell which of the Shift keys and AltGr are down, exactly as long as no
  Shift key is released while the other one is down, nor the left Alt key while AltGr is.
* `never_composes`: the dead keys are in no row of `keymap`, so that no character is composed.
-/

namespace MiqOSoft

open Machine Queue Transition

/-! ### The tables -/

/-- `DEAD_ACUTE`. -/
def DEAD_ACUTE : Byte := 0x01#8

/-- `DEAD_DIERESIS`. -/
def DEAD_DIERESIS : Byte := 0x02#8

/-- `DEAD_GRAVE`. -/
def DEAD_GRAVE : Byte := 0x03#8

/-- `DEAD_TILDE`. -/
def DEAD_TILDE : Byte := 0x04#8

/-- `DEAD_CIRCUMFLEX`. -/
def DEAD_CIRCUMFLEX : Byte := 0x05#8

/-- `KeyMapping`. -/
structure KeyMapping where
  scancode : Byte
  normal : Byte
  shift : Byte
  altgr : Byte
  isDeadKey : Bool
deriving DecidableEq

/-- `keymap`. -/
def keymap : List KeyMapping := [
  ⟨0x02#8, ch '1', ch '!', ch '|', false⟩,
  ⟨0x03#8, ch '2', ch '"', ch '@', false⟩,
  ⟨0x04#8, ch '3', 0xFA#8, ch '#', false⟩,
  ⟨0x05#8, ch '4', ch '$', ch '~', false⟩,
  ⟨0x06#8, ch '5', ch '%', 0xEE#8, false⟩,
  ⟨0x07#8, ch '6', ch '&', 0xAA#8, false⟩,
  ⟨0x08#8, ch '7', ch '/', 0#8, false⟩,
  ⟨0x09#8, ch '8', ch '(', 0#8, false⟩,
  ⟨0x0A#8, ch '9', ch ')', 0#8, false⟩,
  ⟨0x0B#8, ch '0', ch '=', 0#8, false⟩,
  ⟨0x0C#8, 39#8, ch '?', 0#8, false⟩,
  ⟨0x0D#8, 0xAD#8, 0xA8#8, 0#8, false⟩,
  ⟨0x0E#8, 8#8, 8#8, 8#8, false⟩,
  ⟨0x0F#8, 9#8, 9#8, 9#8, false⟩,
  ⟨0x10#8, ch 'q', ch 'Q', 0#8, false⟩,
  ⟨0x11#8, ch 'w', ch 'W', 0#8, false⟩,
  ⟨0x12#8, ch 'e', ch 'E', 0xEE#8, false⟩,
  ⟨0x13#8, ch 'r', ch 'R', 0#8, false⟩,
  ⟨0x14#8, ch 't', ch 'T', 0#8, false⟩,
  ⟨0x15#8, ch 'y', ch 'Y', 0#8, false⟩,
  ⟨0x16#8, ch 'u', ch 'U', 0#8, false⟩,
  ⟨0x17#8, ch 'i', ch 'I', 0#8, false⟩,
  ⟨0x18#8, ch 'o', ch 'O', 0#8, false⟩,
  ⟨0x19#8, ch 'p', ch 'P', 0#8, false⟩,
  ⟨0x1B#8, ch '+', ch '*', ch ']', false⟩,
  ⟨0x1C#8, 10#8, 10#8, 10#8, false⟩,
  ⟨0x1E#8, ch 'a', ch 'A', 0#8, false⟩,
  ⟨0x1F#8, ch 's', ch 'S', 0#8, false⟩,
  ⟨0x20#8, ch 'd', ch 'D', 0#8, false⟩,
  ⟨0x21#8, ch 'f', ch 'F', 0#8, false⟩,
  ⟨0x22#8, ch 'g', ch 'G', 0#8, false⟩,
  ⟨0x23#8, ch 'h', ch 'H', 0#8, false⟩,
  ⟨0x24#8, ch 'j', ch 'J', 0#8, false⟩,
  ⟨0x25#8, ch 'k', ch 'K', 0#8, false⟩,
  ⟨0x26#8, ch 'l', ch 'L', 0#8, false⟩,
  ⟨0x27#8, 0xA4#8, 0xA5#8, 0#8, false⟩,
  ⟨0x29#8, 0xF8#8, 0xA6#8, 92#8, false⟩,
  ⟨0x56#8, ch '<', ch '>', 0#8, false⟩,
  ⟨0x2C#8, ch 'z', ch 'Z', 0#8, false⟩,
  ⟨0x2D#8, ch 'x', ch 'X', 0#8, false⟩,
  ⟨0x2E#8, ch 'c', ch 'C', 0#8, false⟩,
  ⟨0x2F#8, ch 'v', ch 'V', 0#8, false⟩,
  ⟨0x30#8, ch 'b', ch 'B', 0#8, false⟩,
  ⟨0x31#8, ch 'n', ch 'N', 0#8, false⟩,
  ⟨0x32#8, ch 'm', ch 'M', 0#8, false⟩,
  ⟨0x33#8, ch ',', ch ';', 0#8, false⟩,
  ⟨0x34#8, ch '.', ch ':', 0#8, false⟩,
  ⟨0x35#8, ch '-', ch '_', 0#8, false⟩,
  ⟨0x37#8, ch '*', ch '*', ch '*', false⟩,
  ⟨0x39#8, ch ' ', ch ' ', ch ' ', false⟩]

/-- `DeadKeyComposition`. -/
structure DeadKeyComposition where
  deadType : Byte
  baseChar : Byte
  result : Byte
deriving DecidableEq

/-- `dead_compositions`. -/
def deadCompositions : List DeadKeyComposition := [
  ⟨DEAD_ACUTE, ch 'a', 0xA0#8⟩,
  ⟨DEAD_ACUTE, ch 'A', 0xB5#8⟩,
  ⟨DEAD_ACUTE, ch 'e', 0x82#8⟩,
  ⟨DEAD_ACUTE, ch 'E', 0x90#8⟩,
  ⟨DEAD_ACUTE, ch 'i', 0xA1#8⟩,
  ⟨DEAD_ACUTE, ch 'I', 0xD6#8⟩,
  ⟨DEAD_ACUTE, ch 'o', 0xA2#8⟩,
  ⟨DEAD_ACUTE, ch 'O', 0xE0#8⟩,
  ⟨DEAD_ACUTE, ch 'u', 0xA3#8⟩,
  ⟨DEAD_ACUTE, ch 'U', 0xE9#8⟩,
  ⟨DEAD_DIERESIS, ch 'u', 0x81#8⟩,
  ⟨DEAD_DIERESIS, ch 'U', 0x9A#8⟩,
  ⟨DEAD_GRAVE, ch 'a', 0x85#8⟩,
  ⟨DEAD_GRAVE, ch 'A', 0x85#8⟩,
  ⟨DEAD_GRAVE, ch 'e', 0x8A#8⟩,
  ⟨DEAD_GRAVE, ch 'E', 0x8A#8⟩,
  ⟨DEAD_GRAVE, ch 'i', 0x8D#8⟩,
  ⟨DEAD_GRAVE, ch 'I', 0x8D#8⟩,
  ⟨DEAD_GRAVE, ch 'o', 0x93#8⟩,
  ⟨DEAD_GRAVE, ch 'O', 0x93#8⟩,
  ⟨DEAD_GRAVE, ch 'u', 0x97#8⟩,
  ⟨DEAD_GRAVE, ch 'U', 0x97#8⟩,
  ⟨DEAD_TILDE, ch 'n', 0xA4#8⟩,
  ⟨DEAD_TILDE, ch 'N', 0xA5#8⟩,
  ⟨DEAD_TILDE, ch 'a', 0xC6#8⟩,
  ⟨DEAD_TILDE, ch 'A', 0xC6#8⟩,
  ⟨DEAD_TILDE, ch 'o', 0xE4#8⟩,
  ⟨DEAD_TILDE, ch 'O', 0xE4#8⟩,
  ⟨DEAD_CIRCUMFLEX, ch 'a', 0x83#8⟩,
  ⟨DEAD_CIRCUMFLEX, ch 'A', 0x83#8⟩,
  ⟨DEAD_CIRCUMFLEX, ch 'e', 0x88#8⟩,
  ⟨DEAD_CIRCUMFLEX, ch 'E', 0x88#8⟩,
  ⟨DEAD_CIRCUMFLEX, ch 'i', 0x8C#8⟩,
  ⟨DEAD_CIRCUMFLEX, ch 'I', 0x8C#8⟩,
  ⟨DEAD_CIRCUMFLEX, ch 'o', 0x93#8⟩,
  ⟨DEAD_CIRCUMFLEX, ch 'O', 0x93#8⟩,
  ⟨DEAD_CIRCUMFLEX, ch 'u', 0x96#8⟩,
  ⟨DEAD_CIRCUMFLEX, ch 'U', 0x96#8⟩]

/-! ### The handler -/

/-- The character buffer with the pending dead key, `shift_pressed`, `altgr_pressed`, `caps_lock`
and `extended_key`. -/
structure KeyboardState where
  keyboard : Keyboard
  shiftPressed : Bool
  altgrPressed : Bool
  capsLock : Bool
  extendedKey : Bool

/-- What the handler does to the outside: a call of `keyboard_buffer_push`, which takes the
character or not, of `putc`, or of `handle_delete_key`. -/
inductive KeyOutput
  | push (c : Byte) (taken : Bool)
  | putc (c : Byte)
  | deleteKey
deriving DecidableEq

namespace KeyboardState

/-- The buffer has a first place. -/
local instance neZero_bufferSize : NeZero KEYBOARD_BUFFER_SIZE := ⟨by decide⟩

/-- Nothing typed yet. -/
def init : KeyboardState := ⟨⟨⟨fun _ => 0#8, 0, 0⟩, DEAD_NONE⟩, false, false, false, false⟩

/-- `dead_key_state`. -/
def deadKeyState (s : KeyboardState) : Byte := s.keyboard.deadKeyState

/-- `dead_key_state = d`. -/
def setDeadKey (s : KeyboardState) (d : Byte) : KeyboardState :=
  { s with keyboard := { s.keyboard with deadKeyState := d } }

/-- A call of `keyboard_buffer_push`. -/
def push (c : Byte) (s : KeyboardState) : KeyboardState × List KeyOutput :=
  let r := keyboardBufferPush c s.keyboard
  ({ s with keyboard := r.2 }, [.push c r.1])

end KeyboardState

/-- `get_dead_key_type`. -/
def getDeadKeyType (scancode : Byte) (shiftPressed : Bool) : Byte :=
  if scancode = 0x1A#8 then if shiftPressed then DEAD_CIRCUMFLEX else DEAD_GRAVE
  else if scancode = 0x28#8 then if shiftPressed then DEAD_DIERESIS else DEAD_ACUTE
  else DEAD_NONE

/-- `find_dead_key_composition`. -/
def findDeadKeyComposition (deadType baseChar : Byte) : Byte :=
  match deadCompositions.find? fun d => d.deadType = deadType ∧ d.baseChar = baseChar with
  | some d => d.result
  | none => 0#8

/-- `output_dead_key_symbol`. -/
def outputDeadKeySymbol (deadType : Byte) : List KeyOutput :=
  if deadType = DEAD_ACUTE then [.putc 0xEF#8]
  else if deadType = DEAD_DIERESIS then [.putc 0xF9#8]
  else if deadType = DEAD_GRAVE then [.putc 96#8]
  else if deadType = DEAD_TILDE then [.putc (ch '~')]
  else if deadType = DEAD_CIRCUMFLEX then [.putc (ch '^')]
  else []

/-- `apply_caps_lock`. -/
def applyCapsLock (capsLock : Bool) (ascii : Byte) : Byte :=
  if capsLock ∧ (ch 'a').toInt ≤ ascii.toInt ∧ ascii.toInt ≤ (ch 'z').toInt then
    ascii - ch 'a' + ch 'A'
  else if capsLock ∧ (ch 'A').toInt ≤ ascii.toInt ∧ ascii.toInt ≤ (ch 'Z').toInt then
    ascii - ch 'A' + ch 'a'
  else ascii

/-- The character of a key before caps lock. -/
def KeyMapping.ascii (m : KeyMapping) (shiftPressed altgrPressed : Bool) : Byte :=
  if altgrPressed ∧ m.altgr ≠ 0#8 then m.altgr
  else if shiftPressed ∧ m.shift ≠ 0#8 then m.shift
  else m.normal

/-- The byte behind `0xE0`. -/
def handleExtended (scancode : Byte) (s : KeyboardState) : KeyboardState × List KeyOutput :=
  if scancode = 0x38#8 then ({ s with altgrPressed := true }, [])
  else if scancode = 0xB8#8 then ({ s with altgrPressed := false }, [])
  else if scancode = 0x48#8 then s.push 0x01#8
  else if scancode = 0x50#8 then s.push 0x02#8
  else if scancode = 0x4B#8 then s.push 0x03#8
  else if scancode = 0x4D#8 then s.push 0x04#8
  else if scancode = 0x53#8 then (s, [.deleteKey])
  else (s, [])

/-- A key is released. -/
def handleRelease (key : Byte) (s : KeyboardState) : KeyboardState :=
  if key = 0x2A#8 ∨ key = 0x36#8 then { s with shiftPressed := false }
  else if key = 0x38#8 then { s with altgrPressed := false }
  else s

/-- A dead key is pressed. -/
def handleDeadKey (m : KeyMapping) (scancode : Byte) (s : KeyboardState) :
    KeyboardState × List KeyOutput :=
  if s.altgrPressed ∧ m.altgr ≠ 0#8 then s.push m.altgr
  else
    (s.setDeadKey (getDeadKeyType scancode s.shiftPressed),
      if s.deadKeyState ≠ DEAD_NONE then outputDeadKeySymbol s.deadKeyState else [])

/-- The character of a key goes to the buffer, composed with a pending dead key. -/
def handleCharacter (ascii : Byte) (s : KeyboardState) : KeyboardState × List KeyOutput :=
  if s.deadKeyState ≠ DEAD_NONE then
    let composed := findDeadKeyComposition s.deadKeyState ascii
    let (s', out) :=
      if composed ≠ 0#8 then s.push composed
      else ((s.push ascii).1, outputDeadKeySymbol s.deadKeyState ++ (s.push ascii).2)
    (s'.setDeadKey DEAD_NONE, out)
  else s.push ascii

/-- A key is pressed that is none of Shift, Alt and Caps Lock. -/
def handleKey (scancode : Byte) (s : KeyboardState) : KeyboardState × List KeyOutput :=
  match keymap.find? fun m => m.scancode = scancode with
  | none => (s, [])
  | some m =>
      if m.isDeadKey then handleDeadKey m scancode s
      else
        let ascii := m.ascii s.shiftPressed s.altgrPressed
        if ascii = 0#8 then (s, [])
        else
          let ascii :=
            if ¬s.shiftPressed ∧ ¬s.altgrPressed then applyCapsLock s.capsLock ascii else ascii
          handleCharacter ascii s

/-- `keyboard_handler`, for the byte that the keyboard delivers. -/
def keyboardHandler (scancode : Byte) (s : KeyboardState) : KeyboardState × List KeyOutput :=
  if scancode = 0xE0#8 then ({ s with extendedKey := true }, [])
  else if s.extendedKey then handleExtended scancode { s with extendedKey := false }
  else if scancode &&& 0x80#8 ≠ 0#8 then (handleRelease (scancode &&& 0x7F#8) s, [])
  else if scancode = 0x2A#8 ∨ scancode = 0x36#8 then ({ s with shiftPressed := true }, [])
  else if scancode = 0x38#8 then (s, [])
  else if scancode = 0x3A#8 then ({ s with capsLock := !s.capsLock }, [])
  else handleKey scancode s

/-! ### What the handler does to the flags -/

variable {s : KeyboardState} {b c : Byte}

/-- The flags. -/
def KeyboardState.flags (s : KeyboardState) : Bool × Bool × Bool × Bool :=
  (s.shiftPressed, s.altgrPressed, s.capsLock, s.extendedKey)

@[simp] lemma flags_push (c : Byte) (s : KeyboardState) : (s.push c).1.flags = s.flags := rfl

@[simp] lemma flags_setDeadKey (s : KeyboardState) (d : Byte) : (s.setDeadKey d).flags = s.flags :=
  rfl

lemma flags_handleDeadKey (m : KeyMapping) (b : Byte) (s : KeyboardState) :
    (handleDeadKey m b s).1.flags = s.flags := by
  rw [handleDeadKey]
  split_ifs <;> rfl

lemma flags_handleCharacter (c : Byte) (s : KeyboardState) :
    (handleCharacter c s).1.flags = s.flags := by
  rw [handleCharacter]
  split_ifs with hdead
  · dsimp only
    split_ifs <;> rfl
  · rfl

/-- Keys other than Shift, Alt and Caps Lock leave the flags alone. -/
lemma flags_handleKey (b : Byte) (s : KeyboardState) : (handleKey b s).1.flags = s.flags := by
  rw [handleKey]
  cases keymap.find? fun m => m.scancode = b with
  | none => rfl
  | some m =>
      dsimp only
      by_cases hdead : m.isDeadKey = true
      · rw [if_pos hdead]
        exact flags_handleDeadKey m b s
      · rw [if_neg hdead]
        by_cases hzero : m.ascii s.shiftPressed s.altgrPressed = 0#8
        · rw [if_pos hzero]
        · rw [if_neg hzero]
          exact flags_handleCharacter _ s

/-- Behind the prefix only AltGr changes a flag. -/
lemma flags_handleExtended (b : Byte) (s : KeyboardState) : (handleExtended b s).1.flags =
    (s.shiftPressed, if b = 0x38#8 then true else if b = 0xB8#8 then false else s.altgrPressed,
      s.capsLock, s.extendedKey) := by
  rw [handleExtended]
  split_ifs <;> rfl

/-- A key with a code below 128 is pressed or released by the bytes with its code in them. -/
lemma and_low_eq_iff (hc : c.toNat < 128) : b &&& 0x7F#8 = c ↔ b = c ∨ b = c + 0x80#8 := by
  have hmod : (b &&& 0x7F#8).toNat = b.toNat % 128 := by
    rw [BitVec.toNat_and]
    exact Nat.and_two_pow_sub_one_eq_mod b.toNat 7
  rw [← BitVec.toNat_inj, ← BitVec.toNat_inj, ← BitVec.toNat_inj, hmod, BitVec.toNat_add]
  have hb := b.isLt
  have hhigh : (0x80#8).toNat = 128 := rfl
  omega

lemma and_high_eq_zero_iff : b &&& 0x80#8 = 0#8 ↔ b.toNat < 128 := by
  have hall : ∀ b : Byte, b &&& 0x80#8 = 0#8 ↔ b.toNat < 128 := by decide
  exact hall b

/-- A break code clears the flag of its key. -/
lemma flags_handleRelease (hhigh : b &&& 0x80#8 ≠ 0#8) (s : KeyboardState) :
    (handleRelease (b &&& 0x7F#8) s).flags =
      (if b = 0xAA#8 ∨ b = 0xB6#8 then false else s.shiftPressed,
        if b = 0xB8#8 then false else s.altgrPressed, s.capsLock, s.extendedKey) := by
  have hge : 128 ≤ b.toNat := Nat.not_lt.mp (mt and_high_eq_zero_iff.mpr hhigh)
  have hrelease : ∀ c : Byte, c.toNat < 128 → (b &&& 0x7F#8 = c ↔ b = c + 0x80#8) := by
    intro c hc
    refine (and_low_eq_iff hc).trans (or_iff_right ?_)
    rintro rfl
    omega
  simp only [handleRelease, hrelease 0x2A#8 (by decide), hrelease 0x36#8 (by decide),
    hrelease 0x38#8 (by decide), BitVec.reduceAdd]
  by_cases hshift : b = 0xAA#8 ∨ b = 0xB6#8
  · rw [if_pos hshift]
    rcases hshift with rfl | rfl <;> simp [KeyboardState.flags]
  · by_cases halt : b = 0xB8#8 <;> simp [KeyboardState.flags, hshift, halt]

/-- **The flags after a byte.** -/
theorem flags_keyboardHandler (b : Byte) (s : KeyboardState) : (keyboardHandler b s).1.flags =
    (if s.extendedKey ∨ b = 0xE0#8 then s.shiftPressed
      else if b = 0xAA#8 ∨ b = 0xB6#8 then false
      else if b = 0x2A#8 ∨ b = 0x36#8 then true else s.shiftPressed,
    if b = 0xB8#8 then false
      else if s.extendedKey ∧ b = 0x38#8 then true else s.altgrPressed,
    if ¬s.extendedKey ∧ b = 0x3A#8 then !s.capsLock else s.capsLock,
    decide (b = 0xE0#8)) := by
  by_cases hescape : b = 0xE0#8
  · subst hescape
    simp [keyboardHandler, KeyboardState.flags]
  rw [keyboardHandler, if_neg hescape]
  by_cases hext : s.extendedKey = true
  · rw [if_pos hext, flags_handleExtended]
    by_cases hpress : b = 0x38#8
    · subst hpress
      simp [hext]
    · simp [hext, hescape, hpress]
  rw [if_neg hext]
  by_cases hhigh : b &&& 0x80#8 = 0#8
  · have hlt := and_high_eq_zero_iff.mp hhigh
    have hne : ∀ c : Byte, 128 ≤ c.toNat → b ≠ c := fun c hc h => by
      rw [h] at hlt
      omega
    have hAA := hne 0xAA#8 (by decide)
    have hB6 := hne 0xB6#8 (by decide)
    have hB8 := hne 0xB8#8 (by decide)
    rw [if_neg (not_not.mpr hhigh)]
    by_cases hshift : b = 0x2A#8 ∨ b = 0x36#8
    · rw [if_pos hshift]
      rcases hshift with rfl | rfl <;> simp [KeyboardState.flags, hext]
    rw [if_neg hshift]
    by_cases halt : b = 0x38#8
    · subst halt
      simp [KeyboardState.flags, hext]
    rw [if_neg halt]
    by_cases hcaps : b = 0x3A#8
    · subst hcaps
      simp [KeyboardState.flags, hext]
    rw [if_neg hcaps, flags_handleKey]
    simp [KeyboardState.flags, hext, hescape, hAA, hB6, hB8, hshift, hcaps]
  · have hge : 128 ≤ b.toNat := Nat.not_lt.mp (mt and_high_eq_zero_iff.mpr hhigh)
    have hne : ∀ c : Byte, c.toNat < 128 → b ≠ c := fun c hc h => by
      rw [h] at hge
      omega
    have h2A := hne 0x2A#8 (by decide)
    have h36 := hne 0x36#8 (by decide)
    have h3A := hne 0x3A#8 (by decide)
    rw [if_pos hhigh, flags_handleRelease hhigh]
    simp [hext, hescape, h2A, h36, h3A]

/-! ### A keyboard with keys held down -/

/-- A physical key: its code, and whether a prefix comes with it. -/
structure Key where
  extended : Bool
  code : Byte
deriving DecidableEq

namespace Key

/-- The left Shift key. -/
def leftShift : Key := ⟨false, 0x2A#8⟩

/-- The right Shift key. -/
def rightShift : Key := ⟨false, 0x36#8⟩

/-- AltGr. -/
def altGr : Key := ⟨true, 0x38#8⟩

end Key

/-- The keys that are down, and whether the byte sent last was the prefix. -/
structure KeyStream where
  down : Finset Key
  prefixed : Bool
deriving DecidableEq

namespace KeyStream

/-- The key that a byte other than the prefix is about. -/
def key (t : KeyStream) (b : Byte) : Key := ⟨t.prefixed, b &&& 0x7F#8⟩

/-- The keys that are down after a byte: a key goes down with its make code, and up with its break
code. -/
def send (t : KeyStream) (b : Byte) : KeyStream :=
  if b = 0xE0#8 then { t with prefixed := true }
  else ⟨if b &&& 0x80#8 = 0#8 then insert (t.key b) t.down else t.down.erase (t.key b), false⟩

/-- A byte that a keyboard can send: the prefix is not sent twice, and the make and break codes of
each key alternate. -/
def CanSend (t : KeyStream) (b : Byte) : Prop :=
  (b = 0xE0#8 → t.prefixed = false) ∧ (b ≠ 0xE0#8 → (t.key b ∈ t.down ↔ b &&& 0x80#8 ≠ 0#8))

instance (t : KeyStream) (b : Byte) : Decidable (t.CanSend b) :=
  inferInstanceAs (Decidable (_ ∧ _))

variable {t : KeyStream} {k : Key}

/-- **Whether a key is down after a byte.** -/
lemma mem_send (hk : k.code.toNat < 96) : k ∈ (t.send b).down ↔
    if t.prefixed = k.extended ∧ b = k.code then True
    else if t.prefixed = k.extended ∧ b = k.code + 0x80#8 then False else k ∈ t.down := by
  have hadd : (k.code + 0x80#8).toNat = k.code.toNat + 128 := by
    have hhigh : (0x80#8).toNat = 128 := rfl
    rw [BitVec.toNat_add, hhigh, Nat.mod_eq_of_lt (by omega)]
  have hne : ∀ c : Byte, c.toNat ≠ b.toNat → b ≠ c := fun c hc h => hc (h ▸ rfl)
  by_cases hescape : b = 0xE0#8
  · have hb : b.toNat = 224 := by rw [hescape]; rfl
    have hpress : b ≠ k.code := hne _ (by omega)
    have hrelease : b ≠ k.code + 0x80#8 := hne _ (by omega)
    simp [send, hescape ▸ hpress, hescape ▸ hrelease, hescape]
  have hkey : k = t.key b ↔ t.prefixed = k.extended ∧ (b = k.code ∨ b = k.code + 0x80#8) := by
    rw [← and_low_eq_iff (by omega : k.code.toNat < 128), key]
    obtain ⟨extended, code⟩ := k
    rw [Key.mk.injEq, eq_comm (a := extended), eq_comm (a := code)]
  rw [send, if_neg hescape]
  by_cases hhigh : b &&& 0x80#8 = 0#8
  · have hlt := and_high_eq_zero_iff.mp hhigh
    have hrelease : b ≠ k.code + 0x80#8 := hne _ (by omega)
    simp only [if_pos hhigh, Finset.mem_insert, hkey, hrelease, or_false, and_false, if_false]
    by_cases hpress : t.prefixed = k.extended ∧ b = k.code <;> simp [hpress]
  · have hge : 128 ≤ b.toNat := Nat.not_lt.mp (mt and_high_eq_zero_iff.mpr hhigh)
    have hpress : b ≠ k.code := hne _ (by omega)
    simp only [if_neg hhigh, Finset.mem_erase, ne_eq, hkey, hpress, false_or, and_false, if_false]
    by_cases hrelease : t.prefixed = k.extended ∧ b = k.code + 0x80#8 <;> simp [hrelease]

end KeyStream

/-- The driver and the keyboard. -/
structure Typing where
  state : KeyboardState
  stream : KeyStream

namespace Typing

/-- No key is down yet. -/
def init : Typing := ⟨.init, ∅, false⟩

/-- A byte is sent and handled. -/
def step (w : Typing) (b : Byte) : Option Typing :=
  some ⟨(keyboardHandler b w.state).1, w.stream.send b⟩

/-- The bytes `bs`, which a keyboard can send, lead to `w`. -/
abbrev KeyRun (bs : List Byte) (w : Typing) : Prop :=
  Run step (fun w b => w.stream.CanSend b) init bs w

/-- The flags tell which of the keys are down. -/
def FlagsTell (w : Typing) : Prop :=
  (w.state.shiftPressed = true ↔ Key.leftShift ∈ w.stream.down ∨ Key.rightShift ∈ w.stream.down) ∧
    (w.state.altgrPressed = true ↔ Key.altGr ∈ w.stream.down)

/-- The byte releases no Shift key while the other one is down, and not the left Alt key while AltGr
is down. -/
def ReleasedAlone (w : Typing) (b : Byte) : Prop :=
  w.stream.prefixed = false →
    (b = 0xAA#8 → Key.rightShift ∉ w.stream.down) ∧ (b = 0xB6#8 → Key.leftShift ∉ w.stream.down) ∧
      (b = 0xB8#8 → Key.altGr ∉ w.stream.down)

end Typing

namespace Typing

variable {w : Typing}

/-- What holds of the driver and the keyboard: the prefix is pending in both, and the flags tell
which of the keys are down. -/
def Tracks (w : Typing) : Prop := w.state.extendedKey = w.stream.prefixed ∧ w.FlagsTell

lemma prefixed_send (t : KeyStream) (b : Byte) : (t.send b).prefixed = decide (b = 0xE0#8) := by
  rw [KeyStream.send]
  split_ifs with hescape <;> simp [hescape]

/-- **One byte**: afterwards the flags tell the keys exactly if it released none alone of two that
share a flag. -/
theorem flagsTell_next_iff (h : w.Tracks) (b : Byte) :
    FlagsTell ⟨(keyboardHandler b w.state).1, w.stream.send b⟩ ↔ w.ReleasedAlone b := by
  obtain ⟨⟨keyboard, shift, altgr, caps, extended⟩, ⟨down, prefixed⟩⟩ := w
  obtain ⟨hext, hshift, haltgr⟩ := h
  obtain rfl : extended = prefixed := hext
  dsimp only at hshift haltgr
  have hflags := flags_keyboardHandler b ⟨keyboard, shift, altgr, caps, extended⟩
  simp only [KeyboardState.flags, Prod.mk.injEq] at hflags
  obtain ⟨hshift', haltgr', -, -⟩ := hflags
  rw [FlagsTell, hshift', haltgr', KeyStream.mem_send (by decide), KeyStream.mem_send (by decide),
    KeyStream.mem_send (by decide)]
  simp only [ReleasedAlone, Key.leftShift, Key.rightShift, Key.altGr, BitVec.reduceAdd] at *
  cases extended with
  | true =>
      by_cases hpress : b = 0x38#8
      · subst hpress
        simp [hshift]
      · by_cases hrelease : b = 0xB8#8
        · subst hrelease
          simp [hshift]
        · simp [hpress, hrelease, hshift, haltgr]
  | false =>
      by_cases hescape : b = 0xE0#8
      · subst hescape
        simp [hshift, haltgr]
      by_cases hpress : b = 0x2A#8 ∨ b = 0x36#8
      · rcases hpress with rfl | rfl <;> simp [haltgr]
      by_cases hleft : b = 0xAA#8
      · subst hleft
        simp [haltgr]
      by_cases hright : b = 0xB6#8
      · subst hright
        simp [haltgr]
      by_cases halt : b = 0xB8#8
      · subst halt
        simp [hshift]
      rw [not_or] at hpress
      simp [hescape, hpress, hleft, hright, halt, hshift, haltgr]

/-- **The flags tell which modifier keys are down** after every byte that a keyboard sends, exactly
if it never releases a Shift key while the other one is down, nor the left Alt key while AltGr
is. -/
theorem modifiers_iff {bs : List Byte} {w : Typing} (hrun : KeyRun bs w) :
    (∀ pre post u, bs = pre ++ post → KeyRun pre u → u.FlagsTell) ↔
      ∀ pre b post u, bs = pre ++ b :: post → KeyRun pre u → u.ReleasedAlone b := by
  refine (Run.forall_prefix_iff (P := Tracks) (fun u hu => hu.2) ?_ ?_ ⟨rfl, ?_⟩ hrun).symm
  · rintro u b u' hu - hb hstep
    obtain rfl := Option.some.inj hstep
    refine ⟨?_, (flagsTell_next_iff hu b).mpr hb⟩
    have hflags := flags_keyboardHandler b u.state
    simp only [KeyboardState.flags, Prod.mk.injEq] at hflags
    exact hflags.2.2.2.trans (prefixed_send u.stream b).symm
  · rintro u b u' hu - hb hstep
    obtain rfl := Option.some.inj hstep
    exact mt (flagsTell_next_iff hu b).mp hb
  · simp [FlagsTell, init, KeyboardState.init]

/-- The equivalence while the left Shift key is pressed and released. -/
theorem modifiers_iff_shift : ∃ w, KeyRun [0x2A#8, 0xAA#8] w ∧
    ((∀ pre post u, [0x2A#8, 0xAA#8] = pre ++ post → KeyRun pre u → u.FlagsTell) ↔
      ∀ pre b post u, [0x2A#8, 0xAA#8] = pre ++ b :: post → KeyRun pre u →
        u.ReleasedAlone b) := by
  have hrun : KeyRun [0x2A#8, 0xAA#8] _ :=
    Run.cons (by decide) rfl (Run.cons (by decide) rfl (Run.nil _))
  exact ⟨_, hrun, modifiers_iff hrun⟩

/-- The left Shift key is held, the right one pressed and released: Shift counts as released. -/
theorem shift_lost : ∃ w, KeyRun [0x2A#8, 0x36#8, 0xB6#8] w ∧
    Key.leftShift ∈ w.stream.down ∧ w.state.shiftPressed = false ∧ ¬w.FlagsTell := by
  have hrun : KeyRun [0x2A#8, 0x36#8, 0xB6#8] _ :=
    Run.cons (by decide) rfl (Run.cons (by decide) rfl (Run.cons (by decide) rfl (Run.nil _)))
  refine ⟨_, hrun, by decide, by decide, fun h => ?_⟩
  exact absurd (h.1.mpr (Or.inl (by decide))) (by decide)

end Typing

/-! ### Dead keys -/

/-- The character of a key, as it is without a dead key. -/
def keyCharacter (scancode : Byte) (s : KeyboardState) : Option Byte :=
  (keymap.find? fun m => m.scancode = scancode).bind fun m =>
    let ascii := m.ascii s.shiftPressed s.altgrPressed
    if ascii = 0#8 then none
    else some
      (if ¬s.shiftPressed ∧ ¬s.altgrPressed then applyCapsLock s.capsLock ascii else ascii)

/-- The bytes are handled, one after the other. -/
def handleAll : List Byte → KeyboardState → KeyboardState × List KeyOutput
  | [], s => (s, [])
  | b :: bs, s =>
      let r := keyboardHandler b s
      ((handleAll bs r.1).1, r.2 ++ (handleAll bs r.1).2)

/-- The characters for which `keyboard_buffer_push` is called. -/
def pushed (out : List KeyOutput) : List Byte :=
  out.filterMap fun
    | .push c _ => some c
    | _ => none

/-- A byte that comes with no character: the break code of a key, or the make code of Shift, Alt or
Caps Lock. -/
def IsSilent (b : Byte) : Prop :=
  b ≠ 0xE0#8 ∧ (128 ≤ b.toNat ∨ b = 0x2A#8 ∨ b = 0x36#8 ∨ b = 0x38#8 ∨ b = 0x3A#8)

instance : DecidablePred IsSilent := fun _ => inferInstanceAs (Decidable (_ ∧ _))

lemma handleAll_append (bs cs : List Byte) (s : KeyboardState) :
    handleAll (bs ++ cs) s = ((handleAll cs (handleAll bs s).1).1,
      (handleAll bs s).2 ++ (handleAll cs (handleAll bs s).1).2) := by
  induction bs generalizing s with
  | nil => rfl
  | cons b bs ih =>
      rw [List.cons_append, handleAll, handleAll, ih]
      simp only [List.append_assoc]

@[simp] lemma deadKeyState_push (c : Byte) (s : KeyboardState) :
    (s.push c).1.deadKeyState = s.deadKeyState := by
  rw [KeyboardState.push, KeyboardState.deadKeyState, keyboardBufferPush]
  dsimp only
  split_ifs <;> rfl

/-- Without a dead key pending, a key gives its character to the buffer; no row of `keymap` is one
of a dead key. -/
lemma handleKey_eq (hs : s.deadKeyState = DEAD_NONE) (b : Byte) :
    handleKey b s = match keyCharacter b s with
      | none => (s, [])
      | some c => s.push c := by
  have hrows : ∀ m ∈ keymap, m.isDeadKey = false := by decide
  rw [handleKey, keyCharacter]
  cases hfind : keymap.find? fun m => m.scancode = b with
  | none => rfl
  | some m =>
      have hplain := hrows m (List.mem_of_find?_eq_some hfind)
      simp only [hplain, Bool.false_eq_true, if_false, Option.bind_some]
      split_ifs <;> simp_all [handleCharacter]

lemma deadKeyState_handleExtended (b : Byte) (s : KeyboardState) :
    (handleExtended b s).1.deadKeyState = s.deadKeyState := by
  rw [handleExtended]
  split_ifs <;> first | rfl | exact deadKeyState_push _ _

/-- **No dead key is ever pending.** -/
theorem deadKeyState_keyboardHandler (hs : s.deadKeyState = DEAD_NONE) (b : Byte) :
    (keyboardHandler b s).1.deadKeyState = DEAD_NONE := by
  rw [keyboardHandler, handleRelease, handleKey_eq hs]
  split_ifs
  · exact hs
  · exact (deadKeyState_handleExtended b _).trans hs
  · exact hs
  · exact hs
  · exact hs
  · exact hs
  · exact hs
  · exact hs
  · cases keyCharacter b s with
    | none => exact hs
    | some c => exact (deadKeyState_push c s).trans hs

lemma deadKeyState_handleAll (bs : List Byte) (hs : s.deadKeyState = DEAD_NONE) :
    (handleAll bs s).1.deadKeyState = DEAD_NONE := by
  induction bs generalizing s with
  | nil => exact hs
  | cons b bs ih => exact ih (deadKeyState_keyboardHandler hs b)

/-- The keys that were to be dead do nothing. -/
lemma keyboardHandler_dead (hb : b = 0x1A#8 ∨ b = 0x28#8) (s : KeyboardState) :
    keyboardHandler b s = ({ s with extendedKey := false }, []) := by
  obtain ⟨keyboard, shift, altgr, caps, extended⟩ := s
  cases extended <;> rcases hb with rfl | rfl <;> rfl

lemma extendedKey_keyboardHandler (b : Byte) (s : KeyboardState) :
    (keyboardHandler b s).1.extendedKey = decide (b = 0xE0#8) :=
  congrArg (fun f => f.2.2.2) (flags_keyboardHandler b s)

lemma altgrPressed_keyboardHandler (hext : s.extendedKey = false) (haltgr : s.altgrPressed = false)
    (b : Byte) : (keyboardHandler b s).1.altgrPressed = false := by
  have hflag := congrArg (fun f => f.2.1) (flags_keyboardHandler b s)
  refine hflag.trans ?_
  simp [hext, haltgr]

lemma keyboardHandler_silent (hb : IsSilent b) (hext : s.extendedKey = false) :
    (keyboardHandler b s).2 = [] := by
  obtain ⟨hescape, hb⟩ := hb
  have hnot : ¬s.extendedKey = true := by simp [hext]
  rw [keyboardHandler, if_neg hescape, if_neg hnot]
  by_cases hhigh : b &&& 0x80#8 = 0#8
  · have hlt := and_high_eq_zero_iff.mp hhigh
    rw [if_neg (not_not.mpr hhigh)]
    rcases hb with hge | rfl | rfl | rfl | rfl
    · omega
    all_goals rfl
  · rw [if_pos hhigh]

/-- Bytes without a character leave AltGr up. -/
lemma handleAll_silent {bs : List Byte} (hbs : ∀ b ∈ bs, IsSilent b) (hext : s.extendedKey = false)
    (haltgr : s.altgrPressed = false) : (handleAll bs s).2 = [] ∧
      (handleAll bs s).1.extendedKey = false ∧ (handleAll bs s).1.altgrPressed = false := by
  induction bs generalizing s with
  | nil => exact ⟨rfl, hext, haltgr⟩
  | cons b bs ih =>
      obtain ⟨hb, hbs⟩ := List.forall_mem_cons.mp hbs
      have hnext : (keyboardHandler b s).1.extendedKey = false :=
        (extendedKey_keyboardHandler b s).trans (decide_eq_false hb.1)
      obtain ⟨hout, hrest⟩ := ih hbs hnext (altgrPressed_keyboardHandler hext haltgr b)
      refine ⟨?_, hrest⟩
      rw [handleAll, keyboardHandler_silent hb hext, hout, List.nil_append]

/-- A key with a character gives it to the buffer. -/
lemma keyboardHandler_character (hs : s.deadKeyState = DEAD_NONE) (hext : s.extendedKey = false)
    (hc : keyCharacter b s = some c) : keyboardHandler b s = s.push c := by
  have hcodes : ∀ m ∈ keymap, m.scancode ≠ 0xE0#8 ∧ m.scancode &&& 0x80#8 = 0#8 ∧
      m.scancode ≠ 0x2A#8 ∧ m.scancode ≠ 0x36#8 ∧ m.scancode ≠ 0x38#8 ∧ m.scancode ≠ 0x3A#8 := by
    decide
  obtain ⟨m, hfind, -⟩ := Option.bind_eq_some_iff.mp hc
  have hm : m.scancode = b := by simpa using List.find?_some hfind
  obtain ⟨hescape, hlow, hleft, hright, halt, hcaps⟩ := hcodes m (List.mem_of_find?_eq_some hfind)
  rw [hm] at hescape hlow hleft hright halt hcaps
  have hnot : ¬s.extendedKey = true := by simp [hext]
  rw [keyboardHandler, if_neg hescape, if_neg hnot, if_neg (not_not.mpr hlow),
    if_neg (not_or.mpr ⟨hleft, hright⟩), if_neg halt, if_neg hcaps, handleKey_eq hs, hc]

/-- **No character is composed**: after any scancodes that leave AltGr up, a dead key and a key that
the table has an entry for with it give the plain character to the buffer. -/
theorem never_composes (history mods : List Byte) (d b c r : Byte)
    (haltgr : (handleAll history .init).1.altgrPressed = false) (hd : d = 0x1A#8 ∨ d = 0x28#8)
    (hmods : ∀ m ∈ mods, IsSilent m)
    (hc : keyCharacter b (handleAll (history ++ d :: mods) .init).1 = some c)
    (hentry : ⟨getDeadKeyType d (handleAll history .init).1.shiftPressed, c, r⟩ ∈
      deadCompositions) :
    pushed (handleAll (d :: mods ++ [b]) (handleAll history .init).1).2 = [c] ∧
      ¬(pushed (handleAll (d :: mods ++ [b]) (handleAll history .init).1).2 = [r] ∧
        (handleAll (history ++ d :: mods ++ [b]) .init).1.deadKeyState = DEAD_NONE) := by
  have hentries : ∀ e ∈ deadCompositions, e.baseChar ≠ e.result := by decide
  have hpushed : pushed (handleAll (d :: mods ++ [b]) (handleAll history .init).1).2 = [c] := by
    set s := (handleAll history .init).1 with hs
    have hdead : s.deadKeyState = DEAD_NONE := deadKeyState_handleAll history rfl
    obtain ⟨hout, hext, -⟩ := handleAll_silent hmods
      (s := { s with extendedKey := false }) rfl haltgr
    have hafter : (handleAll (d :: mods) s) =
        ((handleAll mods { s with extendedKey := false }).1, []) := by
      rw [handleAll, keyboardHandler_dead hd, hout]
      rfl
    rw [handleAll_append, ← hs, hafter] at hc
    have hkey := keyboardHandler_character
      (deadKeyState_handleAll mods (s := { s with extendedKey := false }) hdead) hext hc
    rw [handleAll_append, hafter, handleAll, handleAll, hkey]
    rfl
  refine ⟨hpushed, fun h => ?_⟩
  rw [hpushed] at h
  exact hentries _ hentry (List.cons.inj h.1).1

/-- The acute accent and an `a`: the `a` is given to the buffer. -/
theorem never_composes_acute :
    pushed (handleAll ([0x28#8] ++ [0xA8#8] ++ [0x1E#8]) .init).2 = [ch 'a'] ∧
      ¬(pushed (handleAll ([0x28#8] ++ [0xA8#8] ++ [0x1E#8]) .init).2 = [0xA0#8] ∧
        (handleAll ([] ++ [0x28#8] ++ [0xA8#8] ++ [0x1E#8]) .init).1.deadKeyState = DEAD_NONE) :=
  never_composes [] [0xA8#8] 0x28#8 0x1E#8 (ch 'a') 0xA0#8 rfl (Or.inr rfl) (by decide) (by decide)
    (by decide)

/-- The grave accent, with Shift, and an `O`: the `O` is given to the buffer, not composed. -/
theorem dead_key_ignored : (handleAll [] .init).1.altgrPressed = false ∧
    ⟨getDeadKeyType 0x1A#8 true, ch 'O', 0x93#8⟩ ∈ deadCompositions ∧
      pushed (handleAll [0x2A#8, 0x1A#8, 0x9A#8, 0x18#8] .init).2 = [ch 'O'] ∧
      pushed (handleAll [0x2A#8, 0x1A#8, 0x9A#8, 0x18#8] .init).2 ≠ [0x93#8] := by
  decide

end MiqOSoft
