import MiqOSoft.Queue.Ring
import MiqOSoft.Machine.Memory
import MiqOSoft.Transition.Run

/-!
The character buffer of `keyboard.c`, filled by the keyboard interrupt while the main program
empties it.

* `Keyboard`: `key_buffer`, `kb_head` and `kb_tail`, and `dead_key_state`.
* `keyboardBufferPush`, `keyboardBufferPop`, `keyboardClearBuffer`: the functions, run to their
  end.
* `KeyWorld`, `keyStep`: the interrupt and the main program.  The interrupt handler is not itself
  interrupted, so that a push is one step; between any two steps of `keyboard_buffer_pop` and
  `keyboard_clear_buffer` it may come any number of times.
* `KeyInv`: what holds between any two steps.
-/

namespace MiqOSoft

open Machine Queue Transition

/-- `KEYBOARD_BUFFER_SIZE`. -/
abbrev KEYBOARD_BUFFER_SIZE : ℕ := 256

/-- `DEAD_NONE`. -/
def DEAD_NONE : Byte := 0#8

/-- `key_buffer` with `kb_head` and `kb_tail`, whose values are always places in it, and
`dead_key_state`. -/
structure Keyboard where
  buffer : Ring Byte KEYBOARD_BUFFER_SIZE
  deadKeyState : Byte

/-- `keyboard_buffer_push`: whether the character was taken. -/
def keyboardBufferPush (c : Byte) (k : Keyboard) : Bool × Keyboard :=
  if next k.buffer.head = k.buffer.tail then (false, k)
  else (true, { k with buffer := k.buffer.put c })

/-- `keyboard_buffer_pop`: the character delivered, if the function returns true. -/
def keyboardBufferPop (k : Keyboard) : Option Byte × Keyboard :=
  if k.buffer.head = k.buffer.tail then (none, k)
  else (some (k.buffer.slots k.buffer.tail), { k with buffer := k.buffer.advance })

/-- `keyboard_clear_buffer`. -/
def keyboardClearBuffer (k : Keyboard) : Keyboard :=
  { buffer := { k.buffer with head := 0, tail := 0 }, deadKeyState := DEAD_NONE }

/-! ### The main program and the interrupt -/

/-- Where the main program is. -/
inductive MainAt
  /-- in neither function -/
  | idle
  /-- in `keyboard_buffer_pop`, in front of `*c = key_buffer[kb_tail]` -/
  | slotRead
  /-- in `keyboard_buffer_pop`, which has stored `c`, in front of the assignment to `kb_tail` -/
  | tailAdvance (c : Byte)
  /-- in `keyboard_clear_buffer`, in front of `kb_tail = 0` -/
  | clearTail
  /-- in `keyboard_clear_buffer`, in front of `dead_key_state = DEAD_NONE` -/
  | clearDead
deriving DecidableEq

/-- What happened at the buffer. -/
inductive KeyEvent
  /-- `keyboard_buffer_push` returned -/
  | pushed (c : Byte) (taken : Bool)
  /-- `keyboard_buffer_pop` returned true -/
  | popped (c : Byte)
  /-- `keyboard_buffer_pop` returned false -/
  | foundEmpty
  /-- `kb_head = 0` was executed -/
  | cleared

/-- The keyboard, the place of the main program, and what happened so far, newest first. -/
structure KeyWorld where
  keyboard : Keyboard
  main : MainAt
  trace : List KeyEvent

/-- A step: the interrupt handler pushes a character or notes a dead key, or the main program
calls one of the functions and executes its first statement, or executes the next one. -/
inductive KeyAction
  | push (c : Byte)
  | deadKey (d : Byte)
  | pop
  | clear
  | resume

namespace KeyWorld

/-- Nothing typed yet. -/
def init : KeyWorld := ⟨⟨⟨fun _ => 0#8, 0, 0⟩, DEAD_NONE⟩, .idle, []⟩

/-- `key_buffer` with `kb_head` and `kb_tail`. -/
abbrev buffer (w : KeyWorld) : Ring Byte KEYBOARD_BUFFER_SIZE := w.keyboard.buffer

/-- The buffer is replaced. -/
def setBuffer (w : KeyWorld) (r : Ring Byte KEYBOARD_BUFFER_SIZE) : KeyWorld :=
  { w with keyboard := { w.keyboard with buffer := r } }

/-- The queue that is pending: while a clear is about to set `kb_tail`, the one from place 0 on. -/
def queue (w : KeyWorld) : Ring Byte KEYBOARD_BUFFER_SIZE :=
  if w.main = .clearTail then { w.buffer with tail := 0 } else w.buffer

/-- The characters pending. -/
def pending (w : KeyWorld) : List Byte := w.queue.contents

end KeyWorld

/-- A push by the interrupt handler. -/
def pushStep (c : Byte) (w : KeyWorld) : KeyWorld :=
  let r := keyboardBufferPush c w.keyboard
  { w with keyboard := r.2, trace := .pushed c r.1 :: w.trace }

/-- The test of `keyboard_buffer_pop`. -/
def popStep (w : KeyWorld) : KeyWorld :=
  if w.buffer.head = w.buffer.tail then { w with trace := .foundEmpty :: w.trace }
  else { w with main := .slotRead }

/-- The first assignment of `keyboard_clear_buffer`. -/
def clearStep (w : KeyWorld) : KeyWorld :=
  { w.setBuffer { w.buffer with head := 0 } with main := .clearTail, trace := .cleared :: w.trace }

/-- The next statement of the function the main program is in. -/
def resumeStep (w : KeyWorld) : Option KeyWorld :=
  match w.main with
  | .idle => none
  | .slotRead => some { w with main := .tailAdvance (w.buffer.slots w.buffer.tail) }
  | .tailAdvance c =>
      some { w.setBuffer w.buffer.advance with main := .idle, trace := .popped c :: w.trace }
  | .clearTail => some { w.setBuffer { w.buffer with tail := 0 } with main := .clearDead }
  | .clearDead =>
      some { w with keyboard := { w.keyboard with deadKeyState := DEAD_NONE }, main := .idle }

/-- One step.  The main program calls a function only when it is in none. -/
def keyStep (w : KeyWorld) : KeyAction → Option KeyWorld
  | .push c => some (pushStep c w)
  | .deadKey d => some { w with keyboard := { w.keyboard with deadKeyState := d } }
  | .pop => if w.main = .idle then some (popStep w) else none
  | .clear => if w.main = .idle then some (clearStep w) else none
  | .resume => resumeStep w

/-- The characters taken since the last clear took effect, in the order of the pushes. -/
def charsTaken : List KeyEvent → List Byte
  | [] => []
  | .cleared :: _ => []
  | .pushed c true :: t => charsTaken t ++ [c]
  | .pushed _ false :: t => charsTaken t
  | .popped _ :: t => charsTaken t
  | .foundEmpty :: t => charsTaken t

/-- The characters delivered since the last clear took effect, in the order of the pops. -/
def charsPopped : List KeyEvent → List Byte
  | [] => []
  | .cleared :: _ => []
  | .popped c :: t => charsPopped t ++ [c]
  | .pushed _ _ :: t => charsPopped t
  | .foundEmpty :: t => charsPopped t

/-! ### The invariant -/

/-- What the main program relies on at its place: the test it has made, the character it has
read, and, within a clear, that `kb_head` has not reached the old `kb_tail`. -/
def MainRelies (r : Ring Byte KEYBOARD_BUFFER_SIZE) : MainAt → Prop
  | .idle => True
  | .slotRead => r.head ≠ r.tail
  | .tailAdvance c => r.head ≠ r.tail ∧ r.slots r.tail = c
  | .clearTail => r.tail = 0 ∨ r.head < r.tail
  | .clearDead => True

/-- What holds between any two steps. -/
structure KeyInv (w : KeyWorld) : Prop where
  fifo : charsTaken w.trace = charsPopped w.trace ++ w.pending
  relies : MainRelies w.buffer w.main

section Pushes

variable {r : Ring Byte KEYBOARD_BUFFER_SIZE} {w : KeyWorld}

/-- An interrupt keeps what the main program relies on. -/
lemma mainRelies_put {m : MainAt} (h : MainRelies r m) (c : Byte) (hroom : next r.head ≠ r.tail) :
    MainRelies (r.put c) m := by
  cases m with
  | idle => trivial
  | slotRead => exact hroom
  | tailAdvance d =>
      obtain ⟨hne, hread⟩ := h
      have hpos : 0 < r.count := Nat.pos_of_ne_zero (mt r.count_eq_zero_iff.mp hne)
      have hkept : (r.put c).slots r.tail = r.slots r.tail := by
        simpa using Ring.put_slots_of_lt c hpos
      exact ⟨hroom, hkept.trans hread⟩
  | clearTail =>
      rcases h with hzero | hlt
      · exact Or.inl hzero
      · right
        have hval := Ring.val_next r.head
        have hne : (next r.head : ℕ) ≠ r.tail := mt Fin.ext hroom
        have htail := r.tail.isLt
        rw [Fin.lt_def] at hlt ⊢
        change (next r.head : ℕ) < r.tail
        split_ifs at hval <;> omega
  | clearDead => trivial

/-- The queue pending has room when the buffer has. -/
lemma room_queue (h : MainRelies w.buffer w.main) (hroom : next w.buffer.head ≠ w.buffer.tail) :
    next w.queue.head ≠ w.queue.tail := by
  rw [KeyWorld.queue]
  split_ifs with hclear
  · rw [hclear] at h
    rcases h with hzero | hlt
    · rwa [hzero] at hroom
    · intro heq
      have hval := Ring.val_next w.buffer.head
      have hnext : (next w.buffer.head : ℕ) = 0 := congrArg Fin.val heq
      have htail := w.buffer.tail.isLt
      rw [Fin.lt_def] at hlt
      split_ifs at hval <;> omega
  · exact hroom

lemma queue_setBuffer_put (c : Byte) (w : KeyWorld) :
    (w.setBuffer (w.buffer.put c)).queue = w.queue.put c := by
  have hmain : (w.setBuffer (w.buffer.put c)).main = w.main := rfl
  rw [KeyWorld.queue, KeyWorld.queue, hmain]
  split_ifs <;> rfl

lemma keyInv_pushStep (h : KeyInv w) (c : Byte) : KeyInv (pushStep c w) := by
  by_cases hfull : next w.buffer.head = w.buffer.tail
  · have hpush : keyboardBufferPush c w.keyboard = (false, w.keyboard) := if_pos hfull
    rw [pushStep, hpush]
    exact ⟨h.fifo, h.relies⟩
  · have hpush : keyboardBufferPush c w.keyboard =
        (true, { w.keyboard with buffer := w.buffer.put c }) := if_neg hfull
    rw [pushStep, hpush]
    refine ⟨?_, mainRelies_put h.relies c hfull⟩
    have hpending : (w.setBuffer (w.buffer.put c)).pending = w.pending ++ [c] := by
      rw [KeyWorld.pending, queue_setBuffer_put, Ring.contents_put c (room_queue h.relies hfull),
        KeyWorld.pending]
    calc charsTaken w.trace ++ [c] = charsPopped w.trace ++ w.pending ++ [c] := by rw [h.fifo]
      _ = charsPopped w.trace ++ (w.setBuffer (w.buffer.put c)).pending := by
          rw [hpending, List.append_assoc]

end Pushes

section Main

variable {w w' : KeyWorld}

lemma queue_of_ne (h : w.main ≠ .clearTail) : w.queue = w.buffer := if_neg h

lemma keyInv_popStep (h : KeyInv w) (hidle : w.main = .idle) : KeyInv (popStep w) := by
  have hqueue : w.queue = w.buffer := queue_of_ne (by simp [hidle])
  rw [popStep]
  split_ifs with hempty
  · exact ⟨h.fifo, h.relies⟩
  · refine ⟨?_, hempty⟩
    have hpending : w.pending = w.buffer.contents := by rw [KeyWorld.pending, hqueue]
    rw [h.fifo, hpending]
    rfl

lemma keyInv_clearStep : KeyInv (clearStep w) := by
  refine ⟨?_, ?_⟩
  · have hnone : ({ w.buffer with head := 0, tail := 0 } :
        Ring Byte KEYBOARD_BUFFER_SIZE).contents = [] := Ring.contents_eq_nil_iff.mpr rfl
    exact hnone.symm
  · change w.buffer.tail = 0 ∨ 0 < w.buffer.tail
    rcases eq_or_ne w.buffer.tail 0 with hzero | hne
    · exact Or.inl hzero
    · exact Or.inr (Fin.pos_of_ne_zero hne)

lemma keyInv_resumeStep (h : KeyInv w) (hstep : resumeStep w = some w') : KeyInv w' := by
  obtain ⟨hfifo, hrelies⟩ := h
  obtain ⟨k, m, t⟩ := w
  cases m with
  | idle => exact absurd hstep (by simp [resumeStep])
  | slotRead =>
      obtain rfl := Option.some.inj hstep
      exact ⟨hfifo, hrelies, rfl⟩
  | tailAdvance c =>
      obtain rfl := Option.some.inj hstep
      obtain ⟨hne, hread⟩ := hrelies
      refine ⟨?_, trivial⟩
      have hcontents : k.buffer.contents = c :: k.buffer.advance.contents := by
        rw [Ring.contents_advance hne]
        exact congrArg (· :: _) hread
      calc charsTaken t = charsPopped t ++ k.buffer.contents := hfifo
        _ = charsPopped t ++ [c] ++ k.buffer.advance.contents := by rw [hcontents]; simp
  | clearTail =>
      obtain rfl := Option.some.inj hstep
      exact ⟨hfifo, trivial⟩
  | clearDead =>
      obtain rfl := Option.some.inj hstep
      exact ⟨hfifo, trivial⟩

/-- **One step**, of the interrupt handler or of the main program, keeps the invariant. -/
theorem keyInv_keyStep {a : KeyAction} (h : KeyInv w) (hstep : keyStep w a = some w') :
    KeyInv w' := by
  cases a with
  | push c =>
      obtain rfl := Option.some.inj hstep
      exact keyInv_pushStep h c
  | deadKey d =>
      obtain rfl := Option.some.inj hstep
      exact ⟨h.fifo, h.relies⟩
  | pop =>
      simp only [keyStep, Option.ite_none_right_eq_some, Option.some.injEq] at hstep
      obtain ⟨hidle, rfl⟩ := hstep
      exact keyInv_popStep h hidle
  | clear =>
      simp only [keyStep, Option.ite_none_right_eq_some, Option.some.injEq] at hstep
      obtain ⟨hidle, rfl⟩ := hstep
      exact keyInv_clearStep
  | resume => exact keyInv_resumeStep h hstep

lemma keyInv_init : KeyInv KeyWorld.init := ⟨rfl, trivial⟩

/-- Without an interrupt the steps of a pop are `keyboard_buffer_pop`. -/
lemma pop_uninterrupted (hidle : w.main = .idle)
    (hrun : Run keyStep (fun _ _ => True) w [.pop, .resume, .resume] w') :
    keyboardBufferPop w.keyboard = (w.pending.head?, w'.keyboard) := by
  have hfold := hrun.foldlM_eq
  have hpending : w.pending = w.buffer.contents := by
    rw [KeyWorld.pending, queue_of_ne (by simp [hidle])]
  by_cases hempty : w.buffer.head = w.buffer.tail
  · simp [List.foldlM, keyStep, hidle, popStep, hempty, resumeStep] at hfold
  · rw [hpending, Ring.contents_advance hempty, keyboardBufferPop, if_neg hempty]
    simp [List.foldlM, keyStep, hidle, popStep, hempty, resumeStep] at hfold
    rw [← hfold]
    rfl

/-- Without an interrupt the steps of a clear are `keyboard_clear_buffer`. -/
lemma clear_uninterrupted (hrun : Run keyStep (fun _ _ => True) w [.clear, .resume, .resume] w') :
    keyboardClearBuffer w.keyboard = w'.keyboard := by
  have hfold := hrun.foldlM_eq
  by_cases hidle : w.main = .idle
  · simp [List.foldlM, keyStep, hidle, clearStep, resumeStep] at hfold
    rw [← hfold]
    rfl
  · simp [List.foldlM, keyStep, hidle] at hfold

/-- The buffer refuses a character when it holds all it can. -/
lemma keyboardBufferPush_eq_false_iff (c : Byte) (k : Keyboard) :
    (keyboardBufferPush c k).1 = false ↔ k.buffer.contents.length = 255 := by
  have hfull : next k.buffer.head = k.buffer.tail ↔ k.buffer.count + 1 = 256 :=
    k.buffer.next_head_eq_tail_iff
  rw [keyboardBufferPush, Ring.length_contents]
  split_ifs with h
  · have hcount := hfull.mp h
    simp
    omega
  · have hcount := mt hfull.mpr h
    simp
    omega

/-- A push leaves the slots of the pending characters alone. -/
lemma pushStep_slots (c : Byte) {k : ℕ} (hk : k < w.pending.length) :
    (pushStep c w).buffer.slots (w.queue.slot k) = w.buffer.slots (w.queue.slot k) := by
  by_cases hfull : next w.buffer.head = w.buffer.tail
  · have hpush : keyboardBufferPush c w.keyboard = (false, w.keyboard) := if_pos hfull
    rw [pushStep, hpush]
  · have hpush : keyboardBufferPush c w.keyboard =
        (true, { w.keyboard with buffer := w.buffer.put c }) := if_neg hfull
    have hslots : w.queue.slots = w.buffer.slots ∧
        (w.queue.put c).slots = (w.buffer.put c).slots := by
      rw [KeyWorld.queue]
      split_ifs <;> exact ⟨rfl, rfl⟩
    rw [KeyWorld.pending, Ring.length_contents] at hk
    rw [pushStep, hpush, ← hslots.1]
    change (w.buffer.put c).slots _ = _
    rw [← hslots.2]
    exact Ring.put_slots_of_lt c hk

end Main

/-- **The keyboard buffer under interrupts**: in every state that the interrupt handler and the
main program reach, the characters taken since the last clear took effect are those delivered
since, followed by those pending, in the order of the pushes.  While the main program is in
neither function, a push is refused exactly when 255 characters are pending, and a pop delivers
the oldest of them, if there is one.  No push overwrites a character pending. -/
theorem keyboard_buffer_under_interrupts {as : List KeyAction} {w : KeyWorld}
    (hrun : Run keyStep (fun _ _ => True) KeyWorld.init as w) :
    charsTaken w.trace = charsPopped w.trace ++ w.pending ∧
      (w.main = .idle → ∀ c, (keyboardBufferPush c w.keyboard).1 = false ↔
        w.pending.length = 255) ∧
      (w.main = .idle → (keyboardBufferPop w.keyboard).1 = w.pending.head?) ∧
      ∀ c, ∀ k < w.pending.length,
        (pushStep c w).buffer.slots (w.queue.slot k) = w.buffer.slots (w.queue.slot k) := by
  have hinv : KeyInv w :=
    hrun.invariant (P := KeyInv) (fun _ _ _ h _ hstep => keyInv_keyStep h hstep) keyInv_init
  have hidle : w.main = .idle → w.pending = w.buffer.contents := by
    intro hmain
    rw [KeyWorld.pending, queue_of_ne (by simp [hmain])]
  refine ⟨hinv.fifo, ?_, ?_, fun c k hk => pushStep_slots c hk⟩
  · intro hmain c
    rw [keyboardBufferPush_eq_false_iff, hidle hmain]
  · intro hmain
    rw [hidle hmain, keyboardBufferPop]
    split_ifs with hempty
    · rw [Ring.contents_eq_nil_iff.mpr hempty, List.head?_nil]
    · rw [Ring.contents_advance hempty, List.head?_cons]

/-- Keys that come between the steps of a pop and of a clear. -/
def keysBetween : List KeyAction :=
  [.push 97#8, .pop, .push 98#8, .resume, .push 99#8, .resume,
    .clear, .push 100#8, .resume, .push 101#8, .resume, .pop, .push 102#8, .resume, .resume]

/-- The keys taken since the clear are delivered in their order; the first one within the clear is
refused, as `kb_tail` still has its old value. -/
theorem keysBetween_kept :
    ∃ w, keysBetween.foldlM keyStep KeyWorld.init = some w ∧
      charsTaken w.trace = [101#8, 102#8] ∧ charsPopped w.trace = [101#8] ∧
      charsTaken w.trace = charsPopped w.trace ++ w.pending := by
  have hfold : ∃ w, keysBetween.foldlM keyStep KeyWorld.init = some w ∧
      charsTaken w.trace = [101#8, 102#8] ∧ charsPopped w.trace = [101#8] :=
    ⟨_, rfl, by decide, by decide⟩
  obtain ⟨w, hw, haccepted, hdelivered⟩ := hfold
  have hrun : Run keyStep (fun _ _ => True) KeyWorld.init keysBetween w := Run.of_foldlM hw
  exact ⟨w, hw, haccepted, hdelivered, (keyboard_buffer_under_interrupts hrun).1⟩

end MiqOSoft
