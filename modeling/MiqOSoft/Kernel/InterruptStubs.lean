import MiqOSoft.Machine.Processor
import Mathlib.Data.List.GetD

/-!
The way into the interrupt handlers and back, `isr_asm.asm` with the stubs of `isrs_gen.inc`.

* `Registers`, `registersAt`: the structure through which the handlers in C see the stack.
* `i686ISR`: the stub of a vector with `isr_common` behind it; `interrupt`: an interrupt, from the
  interrupted code to the return to it.
* `interrupt_eq_call`: an interrupt is a call of the handler, and the interrupted code continues
  with what the handler leaves in the structure.
* `interrupt_restores`: the handler is given the registers of the interrupted code, which continues
  as it was where the structure is left alone.
-/

namespace MiqOSoft

open Machine

/-- There is a stub, so that numbers stand for them. -/
local instance neZero_stubs : NeZero 256 := ⟨by decide⟩

/-! ### The structure and the stubs -/

/-- `Registers`. -/
@[ext]
structure Registers where
  ds : Word
  edi : Word
  esi : Word
  ebp : Word
  useless : Word
  ebx : Word
  edx : Word
  ecx : Word
  eax : Word
  interrupt : Word
  error : Word
  eip : Word
  cs : Word
  eflags : Word
  esp : Word
  ss : Word
deriving DecidableEq

/-- The structure over sixteen words. -/
def Registers.ofWords (w : ℕ → Word) : Registers where
  ds := w 0
  edi := w 1
  esi := w 2
  ebp := w 3
  useless := w 4
  ebx := w 5
  edx := w 6
  ecx := w 7
  eax := w 8
  interrupt := w 9
  error := w 10
  eip := w 11
  cs := w 12
  eflags := w 13
  esp := w 14
  ss := w 15

/-- `*regs`. -/
def registersAt (m : Memory) (regs : Addr) : Registers :=
  .ofWords fun k => load32 m (regs + BitVec.ofNat 32 (4 * k))

/-- `i686_GDT_CODE_SEGMENT`. -/
def i686_GDT_CODE_SEGMENT : BitVec 16 := 0x08#16

/-- `i686_GDT_DATA_SEGMENT`. -/
def i686_GDT_DATA_SEGMENT : BitVec 16 := 0x10#16

variable {κ : Type*} [HasMemory κ]

/-- `ISR_NOERRORCODE`. -/
def ISR_NOERRORCODE (n : Fin 256) : List (Instr κ) :=
  [.pushImm 0#32, .pushImm (BitVec.ofNat 32 n)]

/-- `ISR_ERRORCODE`. -/
def ISR_ERRORCODE (n : Fin 256) : List (Instr κ) := [.pushImm (BitVec.ofNat 32 n)]

/-- The vectors whose line of `isrs_gen.inc` is an `ISR_ERRORCODE`. -/
def errorCodeVectors : List ℕ := [8, 10, 11, 12, 13, 14, 17, 21]

/-- The line of `isrs_gen.inc` for a vector. -/
def isrsGen (n : Fin 256) : List (Instr κ) :=
  if (n : ℕ) ∈ errorCodeVectors then ISR_ERRORCODE n else ISR_NOERRORCODE n

/-- `isr_common` up to the call. -/
def isrCommonHead : List (Instr κ) :=
  [.pusha,
    .xorSelf .eax, .movAxSeg .ds, .push .eax,
    .movAxImm i686_GDT_DATA_SEGMENT, .movSegAx .ds, .movSegAx .es, .movSegAx .fs, .movSegAx .gs,
    .push .esp]

/-- `isr_common` behind the call. -/
def isrCommonTail : List (Instr κ) :=
  [.addEsp 4#32,
    .pop .eax, .movSegAx .ds, .movSegAx .es, .movSegAx .fs, .movSegAx .gs,
    .popa, .addEsp 8#32, .iret]

/-- The stub of a vector, where `handler` is what the call of `i686_ISR_Handler` does. -/
def i686ISR (handler : Cpu κ → Option (Cpu κ)) (n : Fin 256) : List (Instr κ) :=
  isrsGen n ++ isrCommonHead ++ ([.call handler] ++ isrCommonTail)

/-- An interrupt: the processor enters the stub at `offset`, which is executed. -/
def interrupt (flags : Word → Word) (offset : Addr) (handler : Cpu κ → Option (Cpu κ))
    (n : Fin 256) (error : Option Word) (c : Cpu κ) : Option (Cpu κ) :=
  exec flags (i686ISR handler n) (c.enterInterrupt i686_GDT_CODE_SEGMENT offset error)

/-! ### The way in -/

variable {flags : Word → Word} {offset : Addr} {handler : Cpu κ → Option (Cpu κ)} {n : Fin 256}
  {error : Option Word}

/-- What the processor and the line of `isrs_gen.inc` push. -/
def vectorWords (n : Fin 256) (error : Option Word) (c : Cpu κ) : List Word :=
  [c.eflags, (c.seg .cs).setWidth 32, c.eip, error.getD 0#32, BitVec.ofNat 32 n]

/-- The words of the structure, in the order in which they are pushed. -/
def frameWords (n : Fin 256) (error : Option Word) (c : Cpu κ) : List Word :=
  vectorWords n error c ++
    [c.reg .eax, c.reg .ecx, c.reg .edx, c.reg .ebx, (c.pushes (vectorWords n error c)).reg .esp,
      c.reg .ebp, c.reg .esi, c.reg .edi, setLow16 0#32 (c.seg .ds)]

/-- The pointer that is passed to the handler. -/
def framePointer (c : Cpu κ) : Addr := c.reg .esp - 56#32

/-- The structure and the pointer to it have been pushed. -/
def pushFrame (n : Fin 256) (error : Option Word) (c : Cpu κ) : κ :=
  (c.pushes (frameWords n error c ++ [framePointer c])).store

/-- The state in which the handler is called. -/
def atCall (flags : Word → Word) (offset : Addr) (n : Fin 256) (error : Option Word) (c : Cpu κ) :
    Cpu κ where
  reg r := match r with
    | .eax => setLow16 (setLow16 0#32 (c.seg .ds)) i686_GDT_DATA_SEGMENT
    | .esp => framePointer c - 4#32
    | r => c.reg r
  seg s := match s with
    | .cs => i686_GDT_CODE_SEGMENT
    | .ss => c.seg .ss
    | _ => i686_GDT_DATA_SEGMENT
  eflags := flags (c.eflags &&& ~~~gateFlags)
  eip := offset
  store := pushFrame n error c

lemma length_frameWords (n : Fin 256) (error : Option Word) (c : Cpu κ) :
    (frameWords n error c).length = 14 := rfl

lemma setWidth_setLow16 (w : Word) (v : BitVec 16) : (setLow16 w v).setWidth 16 = v := by
  rw [setLow16, BitVec.setWidth_append]
  simp

lemma setLow16_zero (v : BitVec 16) : setLow16 0#32 v = v.setWidth 32 := by
  ext i hi
  rw [setLow16, ← BitVec.getLsbD_eq_getElem, BitVec.getLsbD_append]
  simpa using BitVec.lt_of_getLsbD

lemma framePointer_eq (n : Fin 256) (error : Option Word) (c : Cpu κ) :
    (c.pushes (frameWords n error c)).reg .esp = framePointer c :=
  Cpu.pushes_esp (frameWords n error c) c

/-- The stub of a vector up to the call. -/
lemma exec_head (herror : error.isSome = decide ((n : ℕ) ∈ errorCodeVectors)) (c : Cpu κ) :
    exec flags (isrsGen n ++ isrCommonHead) (c.enterInterrupt i686_GDT_CODE_SEGMENT offset error) =
      some (atCall flags offset n error c) := by
  have hstore : exec flags (isrsGen n ++ isrCommonHead)
      (c.enterInterrupt i686_GDT_CODE_SEGMENT offset error) =
        some { atCall flags offset n error c with
          reg := fun r => if r = .esp then (c.pushes (frameWords n error c)).reg .esp - 4#32
            else (atCall flags offset n error c).reg r
          store := (c.pushes (frameWords n error c ++
            [(c.pushes (frameWords n error c)).reg .esp])).store } := by
    cases error with
    | none =>
        rw [isrsGen, if_neg (by simpa using herror)]
        refine congrArg some (Cpu.ext (funext fun r => ?_) (funext fun s => ?_) rfl rfl rfl)
        · cases r <;> rfl
        · cases s <;> first | rfl | exact setWidth_setLow16 _ _
    | some e =>
        rw [isrsGen, if_pos (by simpa using herror)]
        refine congrArg some (Cpu.ext (funext fun r => ?_) (funext fun s => ?_) rfl rfl rfl)
        · cases r <;> rfl
        · cases s <;> first | rfl | exact setWidth_setLow16 _ _
  rw [hstore, framePointer_eq]
  refine congrArg some (Cpu.ext (funext fun r => ?_) rfl rfl rfl rfl)
  cases r <;> rfl

/-- What the handler sees of the interrupted code.  At one privilege the processor pushes neither
`ss` nor `esp`, so that the last two fields are words of the interrupted stack. -/
def savedRegisters (n : Fin 256) (error : Option Word) (c : Cpu κ) : Registers where
  ds := (c.seg .ds).setWidth 32
  edi := c.reg .edi
  esi := c.reg .esi
  ebp := c.reg .ebp
  useless := c.reg .esp - 20#32
  ebx := c.reg .ebx
  edx := c.reg .edx
  ecx := c.reg .ecx
  eax := c.reg .eax
  interrupt := BitVec.ofNat 32 n
  error := error.getD 0#32
  eip := c.eip
  cs := (c.seg .cs).setWidth 32
  eflags := c.eflags
  esp := c.stackWord 0
  ss := c.stackWord 1

lemma load32_pushFrame {k : ℕ} (hk : k < 2 ^ 30 - 1) (c : Cpu κ) :
    load32 (HasMemory.mem (pushFrame n error c)) (framePointer c + BitVec.ofNat 32 (4 * k)) =
      (c.pushes (frameWords n error c)).stackWord k := by
  have hmem : HasMemory.mem (pushFrame n error c) =
      ((c.pushes (frameWords n error c)).push (framePointer c)).mem := by
    rw [pushFrame, Cpu.pushes_append]
    rfl
  have haddr : framePointer c - 4#32 + BitVec.ofNat 32 (4 * (k + 1)) =
      framePointer c + BitVec.ofNat 32 (4 * k) := by
    rw [Nat.mul_succ, BitVec.ofNat_add]
    bv_omega
  rw [hmem, ← Cpu.stackWord_push_succ hk (framePointer c), Cpu.stackWord, Cpu.push_esp,
    framePointer_eq, haddr]

/-- **The handler is given the registers of the interrupted code.** -/
theorem registersAt_pushFrame (n : Fin 256) (error : Option Word) (c : Cpu κ) :
    registersAt (HasMemory.mem (pushFrame n error c)) (framePointer c) =
      savedRegisters n error c := by
  have hword : ∀ k < 14, load32 (HasMemory.mem (pushFrame n error c))
      (framePointer c + BitVec.ofNat 32 (4 * k)) =
        (frameWords n error c).getD (13 - k) 0#32 := by
    intro k hk
    rw [load32_pushFrame (by omega), Cpu.stackWord_pushes (by omega),
      dif_pos (by rw [length_frameWords]; exact hk)]
    exact (List.getD_eq_getElem _ _ _).symm
  have hstack : ∀ k < 2, load32 (HasMemory.mem (pushFrame n error c))
      (framePointer c + BitVec.ofNat 32 (4 * (14 + k))) = c.stackWord k := by
    intro k hk
    rw [load32_pushFrame (by omega), Cpu.stackWord_pushes_of_le (by rw [length_frameWords]; omega)
      (by omega), length_frameWords, Nat.add_sub_cancel_left]
  have huseless : (c.pushes (vectorWords n error c)).reg .esp = c.reg .esp - 20#32 :=
    Cpu.pushes_esp (vectorWords n error c) c
  ext1
  case ds => exact (hword 0 (by decide)).trans (setLow16_zero _)
  case useless => exact (hword 4 (by decide)).trans huseless
  case esp => exact hstack 0 (by decide)
  case ss => exact hstack 1 (by decide)
  all_goals exact hword _ (by decide)

/-- Before the handler is called, nothing but the 60 bytes below the stack is stored to. -/
lemma pushFrame_mem_of_notMem {a : Addr} (c : Cpu κ) (ha : a ∉ span (c.reg .esp - 60#32) 60) :
    HasMemory.mem (pushFrame n error c) a = c.mem a := by
  rw [pushFrame]
  exact Cpu.pushes_mem_of_notMem (by simp [length_frameWords]) c ha

/-- The argument of the handler. -/
lemma stackWord_entered (c : Cpu κ) :
    (atCall flags offset n error c).stackWord 0 = framePointer c := by
  have hpush : (atCall flags offset n error c).stackWord 0 =
      ((c.pushes (frameWords n error c)).push (framePointer c)).stackWord 0 := by
    rw [Cpu.stackWord, Cpu.stackWord, Cpu.push_esp, framePointer_eq,
      ← Cpu.pushes_nil (Cpu.push _ _), ← Cpu.pushes_cons, ← Cpu.pushes_append]
    rfl
  rw [hpush, Cpu.stackWord_push_zero]

/-! ### The way back -/

/-- The registers as they are taken from the structure. -/
def Registers.resume (r : Registers) (esp : Word) (ss : BitVec 16) (store : κ) : Cpu κ where
  reg
    | .eax => r.eax
    | .ecx => r.ecx
    | .edx => r.edx
    | .ebx => r.ebx
    | .esp => esp
    | .ebp => r.ebp
    | .esi => r.esi
    | .edi => r.edi
  seg
    | .cs => r.cs.setWidth 16
    | .ss => ss
    | _ => r.ds.setWidth 16
  eflags := r.eflags
  eip := r.eip
  store := store

/-- The data segment registers are set. -/
def setDataSegs (v : BitVec 16) (c : Cpu κ) : Cpu κ :=
  (((c.setSeg .ds v).setSeg .es v).setSeg .fs v).setSeg .gs v

variable (flags) in
lemma exec_addEsp (k : ℕ) (c : Cpu κ) :
    Instr.exec flags (.addEsp (BitVec.ofNat 32 (4 * k))) c =
      some { c.drop k with eflags := flags c.eflags } := rfl

lemma iret_eflags (v : Word) (c : Cpu κ) : ({ c with eflags := v } : Cpu κ).iret = c.iret := rfl

/-- The argument is taken off the stack, and the segment registers are set to the next word. -/
lemma exec_popSegs (c : Cpu κ) :
    exec flags [.addEsp 4#32, .pop .eax, .movSegAx .ds, .movSegAx .es, .movSegAx .fs,
        .movSegAx .gs] c =
      some (setDataSegs ((c.stackWord 1).setWidth 16)
        (({ c.drop 1 with eflags := flags c.eflags } : Cpu κ).pop .eax)) := by
  have heax : (({ c.drop 1 with eflags := flags c.eflags } : Cpu κ).pop .eax).reg .eax =
      c.stackWord 1 := by
    rw [Cpu.pop_reg_self, Cpu.stackWord_eflags, Cpu.stackWord_drop]
  rw [← heax]
  rfl

/-- The general registers are taken off the stack, and the interrupt is returned from. -/
lemma exec_popa (c : Cpu κ) :
    exec flags [.popa, .addEsp 8#32, .iret] c = some (c.popa.drop 2).iret := by
  have hadd := exec_addEsp flags 2 c.popa
  calc exec flags [.popa, .addEsp 8#32, .iret] c
      = (Instr.exec flags (.addEsp 8#32) c.popa).bind (Instr.exec flags .iret) := by
        simp [exec, Instr.exec]
    _ = some ({ c.popa.drop 2 with eflags := flags c.popa.eflags } : Cpu κ).iret := by
        rw [hadd, Option.bind_some, Instr.exec]
    _ = some (c.popa.drop 2).iret := congrArg some (iret_eflags _ _)

/-- What is taken off the stack then. -/
lemma iret_popa (c : Cpu κ) : (c.popa.drop 2).iret =
    { reg := fun
        | .edi => c.stackWord 0
        | .esi => c.stackWord 1
        | .ebp => c.stackWord 2
        | .esp => c.reg .esp + 52#32
        | .ebx => c.stackWord 4
        | .edx => c.stackWord 5
        | .ecx => c.stackWord 6
        | .eax => c.stackWord 7
      seg := Function.update c.seg .cs ((c.stackWord 11).setWidth 16)
      eflags := c.stackWord 12
      eip := c.stackWord 10
      store := c.store } := by
  have hword : ∀ k, (c.popa.drop 2).stackWord k = c.stackWord (10 + k) := by
    intro k
    rw [Cpu.stackWord_drop, Cpu.stackWord_popa, ← Nat.add_assoc]
  have hesp : ((c.popa.drop 2).drop 3).reg .esp = c.reg .esp + 52#32 := by
    rw [Cpu.drop_esp, Cpu.drop_esp, Cpu.popa_esp, BitVec.add_assoc, BitVec.add_assoc]
    rfl
  have hreg : ∀ r ≠ Reg.esp, ((c.popa.drop 2).drop 3).reg r = c.popa.reg r := by
    intro r hr
    rw [Cpu.drop_reg_of_ne hr, Cpu.drop_reg_of_ne hr]
  refine Cpu.ext (funext fun r => ?_) ?_ (hword 2) (hword 0) rfl
  · by_cases hr : r = .esp
    · subst hr
      exact hesp
    · refine (hreg r hr).trans ?_
      rw [Cpu.popa_eq]
      cases r <;> first | rfl | exact absurd rfl hr
  · exact congrArg (fun w : Word => Function.update c.seg .cs (w.setWidth 16)) (hword 1)

/-- `isr_common` behind the call. -/
lemma exec_tail (c : Cpu κ) :
    exec flags isrCommonTail c =
      some ((registersAt c.mem (c.reg .esp + 4#32)).resume (c.reg .esp + 60#32) (c.seg .ss)
        c.store) := by
  set c₂ := setDataSegs ((c.stackWord 1).setWidth 16)
    (({ c.drop 1 with eflags := flags c.eflags } : Cpu κ).pop .eax) with hc₂
  have hexec : exec flags isrCommonTail c = some (c₂.popa.drop 2).iret := by
    have happend := exec_append flags ([.addEsp 4#32, .pop .eax, .movSegAx .ds, .movSegAx .es,
      .movSegAx .fs, .movSegAx .gs] : List (Instr κ)) [.popa, .addEsp 8#32, .iret] c
    rw [exec_popSegs, Option.bind_some, ← hc₂, exec_popa] at happend
    exact happend
  have hesp : c₂.reg .esp = c.reg .esp + 4#32 + 4#32 := by
    have hpop : (((c.drop 1).pop .eax).reg .esp) = (c.drop 1).reg .esp + 4#32 :=
      Cpu.pop_esp (by decide) _
    rw [Cpu.drop_esp] at hpop
    exact hpop
  have hword : ∀ k, c₂.stackWord k =
      load32 c.mem (c.reg .esp + 4#32 + BitVec.ofNat 32 (4 * (k + 1))) := by
    intro k
    rw [Cpu.stackWord, hesp, Nat.mul_succ, BitVec.ofNat_add,
      BitVec.add_comm (BitVec.ofNat 32 (4 * k)), ← BitVec.add_assoc]
    rfl
  have hds : c.stackWord 1 = (registersAt c.mem (c.reg .esp + 4#32)).ds :=
    congrArg (load32 c.mem) (BitVec.add_zero (c.reg .esp + 4#32)).symm
  rw [hexec, iret_popa]
  simp only [hword]
  refine congrArg some (Cpu.ext (funext fun r => ?_) (funext fun s => ?_) rfl rfl rfl)
  · by_cases hr : r = .esp
    · subst hr
      refine (congrArg (· + 52#32) hesp).trans ?_
      rw [BitVec.add_assoc, BitVec.add_assoc]
      rfl
    · cases r <;> first | rfl | exact absurd rfl hr
  · cases s <;> first | rfl | exact congrArg (BitVec.setWidth 16) hds

/-! ### The interrupt as a whole -/

/-- The compiled code of a function in C with one argument, which is taken from the stack: it
returns with the stack as it was, and with no memory changed but by the function and in the `room`
bytes below the stack, where its own frames are. -/
structure Compiles (room : ℕ) (f : Addr → κ → Option κ) (handler : Cpu κ → Option (Cpu κ)) :
    Prop where
  room_le : room ≤ 2 ^ 31
  hangs : ∀ c, f (c.stackWord 0) c.store = none → handler c = none
  returns : ∀ c store, f (c.stackWord 0) c.store = some store →
    ∃ c' m, handler c = some c' ∧ c'.reg .esp = c.reg .esp ∧ c'.seg .ss = c.seg .ss ∧
      c'.store = HasMemory.setMem m store ∧
      ∀ a ∉ span (c.reg .esp - BitVec.ofNat 32 room) room, m a = HasMemory.mem store a

/-- The bytes that the frames of the handler may take, below the structure and the pointer to it. -/
def handlerFrames (room : ℕ) (c : Cpu κ) : Set Addr :=
  span (c.reg .esp - 60#32 - BitVec.ofNat 32 room) room

/-- What the interrupted code continues with, where the handler has left some registers in the
structure. -/
def resumed (c : Cpu κ) (r : Registers) (store : κ) : Cpu κ :=
  r.resume (c.reg .esp) (c.seg .ss) store

lemma registersAt_congr {m m' : Memory} {regs : Addr}
    (h : ∀ k < 16, load32 m (regs + BitVec.ofNat 32 (4 * k)) =
      load32 m' (regs + BitVec.ofNat 32 (4 * k))) : registersAt m regs = registersAt m' regs := by
  ext1
  all_goals exact h _ (by decide)

omit [HasMemory κ] in
/-- The frames of the handler are apart from the structure. -/
lemma registersAt_of_frames {room : ℕ} (hroom : room ≤ 2 ^ 31) {c : Cpu κ} {m m' : Memory}
    (h : ∀ a ∉ handlerFrames room c, m a = m' a) :
    registersAt m (framePointer c) = registersAt m' (framePointer c) := by
  refine registersAt_congr fun k hk => load32_congr fun a ha => h a fun hframe => ?_
  rw [handlerFrames, mem_span] at hframe
  rw [mem_span, framePointer] at ha
  bv_omega

section Call

variable {room : ℕ} {f : Addr → κ → Option κ}

/-- An interrupt whose handler never returns. -/
lemma interrupt_eq_none (hf : Compiles room f handler)
    (herror : error.isSome = decide ((n : ℕ) ∈ errorCodeVectors)) {c : Cpu κ}
    (hcall : f (framePointer c) (pushFrame n error c) = none) :
    interrupt flags offset handler n error c = none := by
  have hhangs := hf.hangs (atCall flags offset n error c)
  rw [stackWord_entered] at hhangs
  have hexec : exec flags [.call handler] (atCall flags offset n error c) =
      handler (atCall flags offset n error c) := by
    simp [exec, Instr.exec]
  rw [interrupt, i686ISR, exec_append, exec_head herror, Option.bind_some, exec_append, hexec,
    hhangs hcall, Option.bind_none]

variable (flags offset) in
/-- **An interrupt** is a call of the handler: it is given the registers of the interrupted code,
which continues with what the handler leaves in the structure. -/
theorem interrupt_eq_call (hf : Compiles room f handler)
    (herror : error.isSome = decide ((n : ℕ) ∈ errorCodeVectors)) {c : Cpu κ} {store : κ}
    (hcall : f (framePointer c) (pushFrame n error c) = some store) :
    ∃ m, (∀ a ∉ handlerFrames room c, m a = HasMemory.mem store a) ∧
      interrupt flags offset handler n error c =
        some (resumed c (registersAt (HasMemory.mem store) (framePointer c))
          (HasMemory.setMem m store)) := by
  have hreturns := hf.returns (atCall flags offset n error c)
  rw [stackWord_entered] at hreturns
  obtain ⟨c', m, hhandler, hesp, hss, hstore, hm⟩ := hreturns store hcall
  have hframes : ∀ a ∉ handlerFrames room c, m a = HasMemory.mem store a := by
    have haddr : (atCall flags offset n error c).reg .esp = c.reg .esp - 60#32 := by
      change c.reg .esp - 56#32 - 4#32 = _
      rw [BitVec.sub_sub]
      rfl
    rwa [haddr] at hm
  have hexec : exec flags [.call handler] (atCall flags offset n error c) = some c' := by
    simp [exec, Instr.exec, hhandler]
  have hptr : c'.reg .esp + 4#32 = framePointer c := by
    rw [hesp]
    exact BitVec.sub_add_cancel _ _
  have htop : c'.reg .esp + 60#32 = c.reg .esp := by
    rw [← BitVec.sub_add_cancel (c.reg .esp) 56#32]
    change _ = framePointer c + 56#32
    rw [← hptr, BitVec.add_assoc]
    rfl
  have hmem : c'.mem = m := by
    rw [Cpu.mem, hstore, HasMemory.mem_setMem]
  refine ⟨m, hframes, ?_⟩
  rw [interrupt, i686ISR, exec_append, exec_head herror, Option.bind_some, exec_append, hexec,
    Option.bind_some, exec_tail, hptr, htop, hss, hmem, registersAt_of_frames hf.room_le hframes,
    hstore]
  rfl

/-- Where the structure is left alone but for `eax`, so are the registers; the segment registers but
those of the code and the stack are set to `ds`.  The fields `esp` and `ss` are not read back. -/
lemma resumed_savedRegisters (c : Cpu κ) (store : κ) (v esp ss : Word) :
    resumed c { savedRegisters n error c with eax := v, esp := esp, ss := ss } store =
      { c with
        reg := Function.update c.reg .eax v
        seg := fun
          | .cs => c.seg .cs
          | .ss => c.seg .ss
          | _ => c.seg .ds
        store := store } := by
  have hsetWidth : ∀ w : BitVec 16, (w.setWidth 32).setWidth 16 = w := fun w =>
    BitVec.setWidth_setWidth_of_le w (by decide)
  refine Cpu.ext (funext fun r => ?_) (funext fun s => ?_) rfl rfl rfl
  · cases r <;> rfl
  · cases s <;> first | rfl | exact hsetWidth _

variable (flags offset n error) in
/-- **The handler is given the registers** of the interrupted code, with nothing stored to but the
60 bytes below its stack; and if the handler leaves the structure as it is, or with another `eax`,
the code continues where it was interrupted with all its registers as they were, but that `eax`,
and `es`, `fs` and `gs`, which are set to `ds`.  What is left in the fields `esp` and `ss`, which
are words of the interrupted stack, does not matter. -/
theorem interrupt_restores (hf : Compiles room f handler)
    (herror : error.isSome = decide ((n : ℕ) ∈ errorCodeVectors)) (c : Cpu κ) :
    registersAt (HasMemory.mem (pushFrame n error c)) (framePointer c) =
        savedRegisters n error c ∧
      (∀ a ∉ span (c.reg .esp - 60#32) 60,
        HasMemory.mem (pushFrame n error c) a = c.mem a) ∧
      ∀ store v esp ss, f (framePointer c) (pushFrame n error c) = some store →
        registersAt (HasMemory.mem store) (framePointer c) =
          { savedRegisters n error c with eax := v, esp := esp, ss := ss } →
        ∃ m, (∀ a ∉ handlerFrames room c, m a = HasMemory.mem store a) ∧
          interrupt flags offset handler n error c =
            some { c with
              reg := Function.update c.reg .eax v
              seg := fun
                | .cs => c.seg .cs
                | .ss => c.seg .ss
                | _ => c.seg .ds
              store := HasMemory.setMem m store } := by
  refine ⟨registersAt_pushFrame n error c, fun a ha => pushFrame_mem_of_notMem c ha, ?_⟩
  intro store v esp ss hcall hframe
  obtain ⟨m, hm, hinterrupt⟩ := interrupt_eq_call flags offset hf herror hcall
  refine ⟨m, hm, ?_⟩
  rw [hinterrupt, hframe, resumed_savedRegisters]

end Call

/-- Code that does what a function does, without any frame. -/
def compiled (f : Addr → κ → Option κ) (c : Cpu κ) : Option (Cpu κ) :=
  (f (c.stackWord 0) c.store).map fun store => { c with store := store }

lemma compiles_compiled (f : Addr → κ → Option κ) : Compiles 0 f (compiled f) where
  room_le := Nat.zero_le _
  hangs c hcall := by rw [compiled, hcall, Option.map_none]
  returns c store hcall := by
    refine ⟨{ c with store := store }, HasMemory.mem store, ?_, rfl, rfl, ?_, fun _ _ => rfl⟩
    · rw [compiled, hcall, Option.map_some]
    · exact (HasMemory.setMem_mem store).symm

/-- The timer interrupts code that is about to execute what is at `0x1234`. -/
def interruptedCpu : Cpu Memory where
  reg
    | .esp => 0x8000#32
    | _ => 7#32
  seg _ := 0x10#16
  eflags := 0x202#32
  eip := 0x1234#32
  store := fun _ => 0#8

theorem interrupt_restores_timer :
    ∃ store, interrupt id 0x4000#32 (compiled fun _ m => some m) 0x20 none interruptedCpu =
      some { interruptedCpu with store := store } := by
  have h := interrupt_restores id 0x4000#32 0x20 none (compiles_compiled fun _ m => some m)
    (by decide) interruptedCpu
  obtain ⟨m, -, hinterrupt⟩ := h.2.2 _ 7#32 _ _ rfl h.1
  refine ⟨m, hinterrupt.trans (congrArg some (Cpu.ext (funext fun r => ?_)
    (funext fun s => ?_) rfl rfl rfl))⟩
  · cases r <;> rfl
  · cases s <;> rfl

end MiqOSoft
