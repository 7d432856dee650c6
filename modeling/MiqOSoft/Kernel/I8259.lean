import MiqOSoft.Machine.Memory

/-!
The driver `i8259.c` of the two interrupt controllers, with `keyboard_init`, which writes to one of
them past the driver.

* `Pic`: an 8259 that stores the last mask written; the words that follow an initialisation are not
  taken for masks.
* `PicMachine`: the two controllers, the driver's shadow `g_PicMask` of their masks, and the bytes
  that the keyboard has ready.
* `PicCall`, `PicMachine.after`: any order of calls.
* `masks_shadowed_iff`: the masks equal the shadow after every call exactly if `keyboard_init` is
  only called while the keyboard's line is unmasked in the shadow.
-/

namespace MiqOSoft

open Machine

/-! ### The controllers -/

/-- An 8259: its mask register, and how many words of an initialisation are still to come. -/
structure Pic where
  mask : Byte
  awaiting : ℕ
deriving DecidableEq

namespace Pic

/-- A byte at the command port: only the first word of an initialisation matters.  A second one
follows, a third one unless there is a single controller, and a fourth one if it says so. -/
def command (p : Pic) (b : Byte) : Pic :=
  if b &&& 0x10#8 ≠ 0#8 then
    { p with awaiting :=
        1 + (if b &&& 0x02#8 = 0#8 then 1 else 0) + (if b &&& 0x01#8 ≠ 0#8 then 1 else 0) }
  else p

/-- A byte at the data port: the next word of an initialisation, or a mask. -/
def data (p : Pic) (b : Byte) : Pic :=
  match p.awaiting with
  | 0 => { p with mask := b }
  | n + 1 => { p with awaiting := n }

end Pic

/-- The two controllers, `g_PicMask`, and the bytes that the keyboard controller has ready. -/
structure PicMachine where
  pic1 : Pic
  pic2 : Pic
  picMask : BitVec 16
  keyboardOutput : List Byte
deriving DecidableEq

/-- `PIC1_COMMAND_PORT`. -/
def PIC1_COMMAND_PORT : BitVec 16 := 0x20#16

/-- `PIC1_DATA_PORT`. -/
def PIC1_DATA_PORT : BitVec 16 := 0x21#16

/-- `PIC2_COMMAND_PORT`. -/
def PIC2_COMMAND_PORT : BitVec 16 := 0xA0#16

/-- `PIC2_DATA_PORT`. -/
def PIC2_DATA_PORT : BitVec 16 := 0xA1#16

/-- `i686_outb`, as far as the controllers go. -/
def i686Outb (port : BitVec 16) (value : Byte) (w : PicMachine) : PicMachine :=
  if port = PIC1_COMMAND_PORT then { w with pic1 := w.pic1.command value }
  else if port = PIC1_DATA_PORT then { w with pic1 := w.pic1.data value }
  else if port = PIC2_COMMAND_PORT then { w with pic2 := w.pic2.command value }
  else if port = PIC2_DATA_PORT then { w with pic2 := w.pic2.data value }
  else w

/-- `i686_inb` at a data port, where a controller delivers its mask; nothing is at other ports. -/
def i686Inb (port : BitVec 16) (w : PicMachine) : Byte :=
  if port = PIC1_DATA_PORT then w.pic1.mask
  else if port = PIC2_DATA_PORT then w.pic2.mask
  else 0xFF#8

/-- `i686_iowait`, a write to a port that nothing is at. -/
def i686Iowait (w : PicMachine) : PicMachine := i686Outb 0x80#16 0#8 w

/-! ### The driver -/

/-- `i8259_SetMask`. -/
def i8259SetMask (newMask : BitVec 16) (w : PicMachine) : PicMachine :=
  let w := { w with picMask := newMask }
  let w := i686Iowait (i686Outb PIC1_DATA_PORT (w.picMask.setWidth 8) w)
  i686Iowait (i686Outb PIC2_DATA_PORT ((w.picMask >>> 8).setWidth 8) w)

/-- `i8259_GetMask`. -/
def i8259GetMask (w : PicMachine) : BitVec 16 :=
  (i686Inb PIC1_DATA_PORT w).setWidth 16 ||| (i686Inb PIC2_DATA_PORT w).setWidth 16 <<< 8

/-- A byte to each of the controllers, at the given ports. -/
def outbBoth (port1 port2 : BitVec 16) (value1 value2 : Byte) (w : PicMachine) : PicMachine :=
  i686Iowait (i686Outb port2 value2 (i686Iowait (i686Outb port1 value1 w)))

/-- `i8259_Configure`. -/
def i8259Configure (offsetPic1 offsetPic2 : Byte) (autoEoi : Bool) (w : PicMachine) : PicMachine :=
  let w := i8259SetMask 0xFFFF#16 w
  let w := outbBoth PIC1_COMMAND_PORT PIC2_COMMAND_PORT 0x11#8 0x11#8 w
  let w := outbBoth PIC1_DATA_PORT PIC2_DATA_PORT offsetPic1 offsetPic2 w
  let w := outbBoth PIC1_DATA_PORT PIC2_DATA_PORT 0x04#8 0x02#8 w
  let icw4 := if autoEoi then 0x03#8 else 0x01#8
  let w := outbBoth PIC1_DATA_PORT PIC2_DATA_PORT icw4 icw4 w
  i8259SetMask 0xFFFF#16 w

/-- `i8259_Disable`. -/
def i8259Disable (w : PicMachine) : PicMachine := i8259SetMask 0xFFFF#16 w

/-- `1 << irq`, as far as it fits a mask. -/
def irqBit (irq : ℕ) : BitVec 16 := (1#32 <<< irq).setWidth 16

/-- `i8259_Mask`. -/
def i8259Mask (irq : ℕ) (w : PicMachine) : PicMachine := i8259SetMask (w.picMask ||| irqBit irq) w

/-- `i8259_Unmask`. -/
def i8259Unmask (irq : ℕ) (w : PicMachine) : PicMachine :=
  i8259SetMask (w.picMask &&& ~~~irqBit irq) w

/-- `i8259_Probe`. -/
def i8259Probe (w : PicMachine) : Bool × PicMachine :=
  let w := i8259SetMask 0x1337#16 (i8259Disable w)
  (i8259GetMask w = 0x1337#16, w)

/-- `keyboard_init`: the keyboard's line is unmasked, and what the keyboard has ready is read. -/
def keyboardInit (w : PicMachine) : PicMachine :=
  { i686Outb 0x21#16 (i686Inb 0x21#16 w &&& ~~~(1#8 <<< 1)) w with keyboardOutput := [] }

/-! ### Calls in any order -/

/-- A call of the driver or of the keyboard's initialisation. -/
inductive PicCall
  | configure (offsetPic1 offsetPic2 : Byte) (autoEoi : Bool)
  | probe
  | setMask (newMask : BitVec 16)
  | mask (irq : ℕ)
  | unmask (irq : ℕ)
  | disable
  | keyboardInit
deriving DecidableEq

/-- What a call does. -/
def PicMachine.exec (w : PicMachine) : PicCall → PicMachine
  | .configure offsetPic1 offsetPic2 autoEoi => i8259Configure offsetPic1 offsetPic2 autoEoi w
  | .probe => (i8259Probe w).2
  | .setMask newMask => i8259SetMask newMask w
  | .mask irq => i8259Mask irq w
  | .unmask irq => i8259Unmask irq w
  | .disable => i8259Disable w
  | .keyboardInit => MiqOSoft.keyboardInit w

/-- The state after some calls, where the controllers had any masks before. -/
def PicMachine.after (mask1 mask2 : Byte) (output : List Byte) (cs : List PicCall) : PicMachine :=
  cs.foldl PicMachine.exec ⟨⟨mask1, 0⟩, ⟨mask2, 0⟩, 0xFFFF#16, output⟩

/-- Masking or unmasking a line changes no other line of the controllers. -/
def LinesApart (w : PicMachine) : Prop :=
  ∀ k < 16, ∀ j < 16, j ≠ k →
    (i8259GetMask (i8259Mask k w)).getLsbD j = (i8259GetMask w).getLsbD j ∧
      (i8259GetMask (i8259Unmask k w)).getLsbD j = (i8259GetMask w).getLsbD j

/-! ### The masks and their shadow -/

variable {w : PicMachine} {mask1 mask2 : Byte} {output : List Byte} {cs : List PicCall}

/-- No initialisation is under way. -/
def PicMachine.Ready (w : PicMachine) : Prop := w.pic1.awaiting = 0 ∧ w.pic2.awaiting = 0

lemma getMask_halves (m : BitVec 16) :
    ((m.setWidth 8).setWidth 16 ||| ((m >>> 8).setWidth 8).setWidth 16 <<< 8 : BitVec 16) = m := by
  ext i hi
  simp only [BitVec.getElem_or, BitVec.getElem_shiftLeft, BitVec.getElem_setWidth,
    BitVec.getLsbD_setWidth, BitVec.getLsbD_ushiftRight]
  grind

/-- The controllers after the driver has set a mask. -/
def PicMachine.masked (w : PicMachine) (m : BitVec 16) : PicMachine :=
  ⟨⟨m.setWidth 8, 0⟩, ⟨(m >>> 8).setWidth 8, 0⟩, m, w.keyboardOutput⟩

lemma ready_masked (w : PicMachine) (m : BitVec 16) : (w.masked m).Ready := ⟨rfl, rfl⟩

lemma getMask_masked (w : PicMachine) (m : BitVec 16) : i8259GetMask (w.masked m) = m :=
  getMask_halves m

/-- **Setting the mask** sets it in the controllers and in the shadow. -/
theorem i8259SetMask_eq (hw : w.Ready) (m : BitVec 16) : i8259SetMask m w = w.masked m := by
  obtain ⟨⟨mask1, await1⟩, ⟨mask2, await2⟩, picMask, output⟩ := w
  obtain ⟨rfl, rfl⟩ : await1 = 0 ∧ await2 = 0 := hw
  rfl

/-- The words of an initialisation are all taken before the mask is set again. -/
lemma i8259Configure_eq (hw : w.Ready) (offsetPic1 offsetPic2 : Byte) (autoEoi : Bool) :
    i8259Configure offsetPic1 offsetPic2 autoEoi w = w.masked 0xFFFF#16 := by
  obtain ⟨⟨mask1, await1⟩, ⟨mask2, await2⟩, picMask, output⟩ := w
  obtain ⟨rfl, rfl⟩ : await1 = 0 ∧ await2 = 0 := hw
  rfl

lemma keyboardInit_eq (hw : w.Ready) : keyboardInit w =
    { w with pic1 := ⟨w.pic1.mask &&& ~~~(1#8 <<< 1), 0⟩, keyboardOutput := [] } := by
  obtain ⟨⟨mask1, await1⟩, ⟨mask2, await2⟩, picMask, output⟩ := w
  obtain ⟨rfl, rfl⟩ : await1 = 0 ∧ await2 = 0 := hw
  rfl

/-- **A call of the driver** sets some mask. -/
theorem exists_exec_eq (hw : w.Ready) {c : PicCall} (hc : c ≠ .keyboardInit) :
    ∃ m, w.exec c = w.masked m := by
  cases c with
  | configure offsetPic1 offsetPic2 autoEoi => exact ⟨_, i8259Configure_eq hw _ _ _⟩
  | probe =>
      have hdisable : i8259Disable w = w.masked 0xFFFF#16 := i8259SetMask_eq hw _
      refine ⟨0x1337#16, ?_⟩
      change i8259SetMask 0x1337#16 (i8259Disable w) = _
      rw [hdisable, i8259SetMask_eq (ready_masked w _)]
      rfl
  | setMask newMask => exact ⟨_, i8259SetMask_eq hw _⟩
  | mask irq => exact ⟨_, i8259SetMask_eq hw _⟩
  | unmask irq => exact ⟨_, i8259SetMask_eq hw _⟩
  | disable => exact ⟨_, i8259SetMask_eq hw _⟩
  | keyboardInit => exact absurd rfl hc

lemma ready_exec (hw : w.Ready) (c : PicCall) : (w.exec c).Ready := by
  by_cases hc : c = .keyboardInit
  · subst hc
    exact ⟨congrArg (fun w => w.pic1.awaiting) (keyboardInit_eq hw),
      (congrArg (fun w => w.pic2.awaiting) (keyboardInit_eq hw)).trans hw.2⟩
  · obtain ⟨m, hm⟩ := exists_exec_eq hw hc
    rw [hm]
    exact ready_masked w m

lemma after_snoc (cs : List PicCall) (c : PicCall) :
    PicMachine.after mask1 mask2 output (cs ++ [c]) =
      (PicMachine.after mask1 mask2 output cs).exec c := by
  rw [PicMachine.after, List.foldl_append]
  rfl

lemma ready_after (cs : List PicCall) : (PicMachine.after mask1 mask2 output cs).Ready := by
  induction cs using List.reverseRecOn with
  | nil => exact ⟨rfl, rfl⟩
  | append_singleton cs c ih =>
      rw [after_snoc]
      exact ready_exec ih c

lemma getLsbD_irqBit {k j : ℕ} (hj : j < 16) : (irqBit k).getLsbD j = decide (j = k) := by
  rw [irqBit, BitVec.getLsbD_setWidth, BitVec.getLsbD_shiftLeft, BitVec.getLsbD_one]
  grind

/-- Where the masks equal the shadow, a line is masked and unmasked alone. -/
lemma linesApart_of_eq (hw : w.Ready) (h : i8259GetMask w = w.picMask) : LinesApart w := by
  intro k _ j hj hjk
  rw [i8259Mask, i8259Unmask, i8259SetMask_eq hw, i8259SetMask_eq hw, getMask_masked,
    getMask_masked, h, BitVec.getLsbD_or, BitVec.getLsbD_and, BitVec.getLsbD_not,
    getLsbD_irqBit hj]
  simp [hjk, hj]

/-- The first eight lines are those of the first controller. -/
lemma getLsbD_getMask {j : ℕ} (hj : j < 8) :
    (i8259GetMask w).getLsbD j = w.pic1.mask.getLsbD j := by
  have hmask : i8259GetMask w = w.pic1.mask.setWidth 16 ||| w.pic2.mask.setWidth 16 <<< 8 := rfl
  rw [hmask, BitVec.getLsbD_or, BitVec.getLsbD_setWidth, BitVec.getLsbD_shiftLeft]
  simp [hj, (by omega : j < 16)]

/-- The keyboard's initialisation unmasks its line, but not in the shadow. -/
lemma keyboardInit_line (hw : w.Ready) : (i8259GetMask (keyboardInit w)).getLsbD 1 = false ∧
    (keyboardInit w).picMask = w.picMask := by
  rw [keyboardInit_eq hw]
  refine ⟨?_, rfl⟩
  rw [getLsbD_getMask (by decide), BitVec.getLsbD_and]
  simp

/-- Where the line is unmasked already, nothing is changed. -/
lemma getMask_keyboardInit (hw : w.Ready) (hline : (i8259GetMask w).getLsbD 1 = false) :
    i8259GetMask (keyboardInit w) = i8259GetMask w := by
  rw [getLsbD_getMask (by decide)] at hline
  have hbit : ∀ j < 8, (~~~(1#8 <<< 1)).getLsbD j = decide (j ≠ 1) := by decide
  have hsame : w.pic1.mask &&& ~~~(1#8 <<< 1) = w.pic1.mask := by
    ext j hj
    rw [← BitVec.getLsbD_eq_getElem, ← BitVec.getLsbD_eq_getElem, BitVec.getLsbD_and, hbit j hj]
    by_cases hj1 : j = 1
    · rw [hj1, hline]
      rfl
    · simp [hj1]
  rw [keyboardInit_eq hw, hsame]
  rfl

/-- As long as the keyboard's initialisation finds its line unmasked in the shadow, the masks equal
the shadow once there was a call. -/
lemma getMask_after (hcond : ∀ pre, pre ++ [.keyboardInit] <+: cs →
      (PicMachine.after mask1 mask2 output pre).picMask.getLsbD 1 = false) (hne : cs ≠ []) :
    i8259GetMask (.after mask1 mask2 output cs) =
      (PicMachine.after mask1 mask2 output cs).picMask := by
  induction cs using List.reverseRecOn with
  | nil => exact absurd rfl hne
  | append_singleton cs c ih =>
      have hready : (PicMachine.after mask1 mask2 output cs).Ready := ready_after cs
      rw [after_snoc]
      by_cases hc : c = .keyboardInit
      · subst hc
        have hline := hcond cs (List.prefix_refl _)
        have hcs : cs ≠ [] := by
          rintro rfl
          exact absurd hline (by decide : ¬(0xFFFF#16).getLsbD 1 = false)
        have heq := ih (fun pre hpre => hcond pre (hpre.trans (List.prefix_append cs _))) hcs
        change i8259GetMask (keyboardInit _) = (keyboardInit _).picMask
        rw [(keyboardInit_line hready).2, getMask_keyboardInit hready (by rwa [heq]), heq]
      · obtain ⟨m, hm⟩ := exists_exec_eq hready hc
        rw [hm]
        exact getMask_masked _ m

/-- **The masks equal the shadow** in every state that calls lead to, and each line is masked and
unmasked alone, exactly if the keyboard's initialisation is only called while its line is
unmasked in the shadow. -/
theorem masks_shadowed_iff (mask1 mask2 : Byte) (output : List Byte) (cs : List PicCall) :
    (∀ pre, pre <+: cs → pre ≠ [] →
      i8259GetMask (.after mask1 mask2 output pre) =
          (PicMachine.after mask1 mask2 output pre).picMask ∧
        LinesApart (.after mask1 mask2 output pre)) ↔
      ∀ pre, pre ++ [.keyboardInit] <+: cs →
        (PicMachine.after mask1 mask2 output pre).picMask.getLsbD 1 = false := by
  constructor
  · intro hmasks pre hpre
    obtain ⟨heq, -⟩ := hmasks _ hpre (by simp)
    have hready : (PicMachine.after mask1 mask2 output pre).Ready := ready_after pre
    have hline := keyboardInit_line hready
    rw [after_snoc] at heq
    rw [← hline.2, ← hline.1]
    exact congrArg (fun m => m.getLsbD 1) heq.symm
  · intro hcond pre hpre hne
    have heq := getMask_after (fun pre' hpre' => hcond pre' (hpre'.trans hpre)) hne
    exact ⟨heq, linesApart_of_eq (ready_after pre) heq⟩

/-- The kernel's own calls at its start: the keyboard's line is unmasked by its initialisation, and
masked again when the timer's is unmasked. -/
theorem keyboard_line_masked_again :
    ¬(i8259GetMask (.after 0xFF#8 0xFF#8 [] [.probe, .configure 0x20#8 0x28#8 false,
          .keyboardInit]) =
        (PicMachine.after 0xFF#8 0xFF#8 [] [.probe, .configure 0x20#8 0x28#8 false,
          .keyboardInit]).picMask) ∧
      ¬LinesApart (.after 0xFF#8 0xFF#8 [] [.probe, .configure 0x20#8 0x28#8 false,
        .keyboardInit]) := by
  refine ⟨by decide, fun h => ?_⟩
  have hline := (h 0 (by decide) 1 (by decide) (by decide)).2
  exact absurd hline (by decide)

end MiqOSoft
