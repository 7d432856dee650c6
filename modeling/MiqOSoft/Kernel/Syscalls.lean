import MiqOSoft.Kernel.Gates
import MiqOSoft.Kernel.Printf
import MiqOSoft.Kernel.Sleep
import MiqOSoft.Kernel.VfsFrame

/-!
The system calls of `syscall.c`, from `int 0x80` to the handlers and back.

* `SysState`: the kernel with the table of the handlers, what it has printed, and how often it has
  read the clock.
* `syscallDispatch`, `syscallHandler`: the handler of a number, and of the interrupt.
* `softwareInterrupt`: the instruction, through the descriptor tables and the stubs.
* `callOf`, `syscallDispatch_exec`: the call of the heap or of the file system that a system call
  stands for; the other ones leave both alone.
* `int80_dispatches`: `int 0x80` behind `syscall_initialize` is a call of `syscall_dispatch`.
-/

namespace MiqOSoft

open Machine

/-- There is a vector, so that numbers stand for them. -/
local instance neZero_vectors : NeZero 256 := ⟨by decide⟩

/-! ### Strings in memory -/

/-- The empty string. -/
def CString.empty : CString := ⟨[], List.not_mem_nil⟩

/-- A character in front of a string. -/
def CString.cons (c : Byte) (hc : c ≠ 0#8) (s : CString) : CString :=
  ⟨c :: s.chars, List.not_mem_cons_of_ne_of_not_mem hc.symm s.noNul⟩

/-- The string at an address, if its terminator is found within so many steps. -/
def cstringFrom : ℕ → Addr → Memory → Option CString
  | 0, _, _ => none
  | fuel + 1, p, m =>
      if h : m p = 0#8 then some .empty
      else (cstringFrom fuel (p + 1#32) m).map (.cons (m p) h)

/-- The string at an address; `none` if the memory holds no terminator. -/
def cstringAt (m : Memory) (p : Addr) : Option CString := cstringFrom (2 ^ 32) p m

/-- The bytes at an address. -/
def bytesAt (m : Memory) (p : Addr) (n : ℕ) : List Byte :=
  (List.range n).map fun k => m (p + BitVec.ofNat 32 k)

/-! ### The handlers -/

/-- `SYSCALL_INVALID_SYSCALL`. -/
def SYSCALL_INVALID_SYSCALL : Word := -2#32

/-- `SYSCALL_COUNT`. -/
def SYSCALL_COUNT : ℕ := 27

/-- A function that is registered as a handler. -/
inductive SyscallFunction
  | exit
  | print
  | read
  | malloc
  | free
  | open
  | close
  | write
  | getpid
  | time
  | sleep
  | yield
deriving DecidableEq

/-- The kernel with `syscall_handlers`, what it has given to `putc`, and how often it has read the
clock. -/
structure SysState where
  kernel : Kernel
  syscallHandlers : Fin SYSCALL_COUNT → Option SyscallFunction
  console : List Byte
  readings : ℕ

instance : HasMemory SysState where
  mem s := s.kernel.mem
  setMem m s := { s with kernel := { s.kernel with heap := { s.kernel.heap with mem := m } } }
  mem_setMem _ _ := rfl
  setMem_setMem _ _ _ := rfl
  setMem_mem _ := rfl

namespace SysState

/-- `printf`. -/
def printf (fmt : CString) (args : VaList) (s : SysState) : Option SysState :=
  (vfprintf fmt args).map fun r => { s with console := s.console ++ r.1 }

/-- A handler that works on the kernel. -/
def onKernel (s : SysState) (r : Word × Kernel) : Word × SysState :=
  (r.1, { s with kernel := r.2 })

end SysState

/-- The format of `sys_handler_exit`. -/
def exitFormat : CString := ⟨ascii "Process exited with code: %d\n", by decide⟩

/-- The format of `sys_handler_print`. -/
def printFormat : CString := ⟨ascii "%s", by decide⟩

/-- `sys_handler_exit`. -/
def sysHandlerExit (code : Word) (s : SysState) : Option (Word × SysState) :=
  (s.printf exitFormat [.word code]).map fun s => (SYSCALL_OK, s)

/-- `sys_handler_print`. -/
def sysHandlerPrint (msg_ptr : Addr) (s : SysState) : Option (Word × SysState) :=
  if msg_ptr = NULL then some (SYSCALL_INVALID_PARAMS, s)
  else
    (cstringAt s.kernel.mem msg_ptr).bind fun msg =>
      (s.printf printFormat [.text msg]).map fun s => (msg.strlen, s)

/-- `path` of `sys_handler_open`: no string for the null pointer. -/
def pathAt (m : Memory) (path_ptr : Addr) : Option (Option CString) :=
  if path_ptr = NULL then some none else (cstringAt m path_ptr).map some

/-- What `sys_handler_write` gives to `putc`. -/
def writtenOut (fd : Word) (buffer_ptr : Addr) (count : Word) (m : Memory) : List Byte :=
  if (fd = 1#32 ∨ fd = 2#32) ∧ buffer_ptr ≠ NULL then bytesAt m buffer_ptr count.toNat else []

/-- `sys_handler_time`. -/
def sysHandlerTime (clock : ℕ → BitVec 64) (s : SysState) : Word × SysState :=
  ((clock s.readings).setWidth 32, { s with readings := s.readings + 1 })

/-- `sys_handler_sleep`, which leaves its loop within so many turns. -/
def sysHandlerSleepNow (clock : ℕ → BitVec 64) (ms : Word) (s : SysState) :
    Option (Word × SysState) :=
  (sysHandlerSleep (fun i => clock (s.readings + i)) ms 100100000).map fun r =>
    (r.1, { s with readings := s.readings + r.2 })

/-- A call of a handler.  `clock` is what `time_get_ticks` returns, one time after the other. -/
def SyscallFunction.run (L : Rodata) (clock : ℕ → BitVec 64) (arg1 arg2 arg3 _arg4 : Word)
    (s : SysState) : SyscallFunction → Option (Word × SysState)
  | .exit => sysHandlerExit arg1 s
  | .print => sysHandlerPrint arg1 s
  | .read => some (s.onKernel (sysHandlerRead arg1 arg2 arg3 s.kernel))
  | .malloc => (s.kernel.malloc arg1).map s.onKernel
  | .free => (s.kernel.free arg1).map s.onKernel
  | .open => (pathAt s.kernel.mem arg1).bind fun path =>
      (sysHandlerOpen L path arg2 s.kernel).map s.onKernel
  | .close => some (s.onKernel (sysHandlerClose arg1 s.kernel))
  | .write =>
      let s := { s with console := s.console ++ writtenOut arg1 arg2 arg3 s.kernel.mem }
      (sysHandlerWrite arg1 arg2 arg3 s.kernel).map s.onKernel
  | .getpid => some (1#32, s)
  | .time => some (sysHandlerTime clock s)
  | .sleep => sysHandlerSleepNow clock arg1 s
  | .yield => some (SYSCALL_OK, s)

/-- `syscall_dispatch`. -/
def syscallDispatch (L : Rodata) (clock : ℕ → BitVec 64) (syscall_num arg1 arg2 arg3 arg4 : Word)
    (s : SysState) : Option (Word × SysState) :=
  if h : syscall_num.toNat < SYSCALL_COUNT then
    match s.syscallHandlers ⟨syscall_num.toNat, h⟩ with
    | none => some (SYSCALL_INVALID_SYSCALL, s)
    | some f => f.run L clock arg1 arg2 arg3 arg4 s
  else some (SYSCALL_INVALID_SYSCALL, s)

/-- `syscall_handler`: the result is stored in the structure's `eax`. -/
def syscallHandler (L : Rodata) (clock : ℕ → BitVec 64) (regs : Addr) (s : SysState) :
    Option SysState :=
  let r := registersAt s.kernel.mem regs
  (syscallDispatch L clock r.eax r.ebx r.ecx r.edx r.esi s).map fun q =>
    HasMemory.setMem (store32 q.2.kernel.mem (regs + 32#32) q.1) q.2

/-- `syscall_register_handler`. -/
def syscallRegisterHandler (num : ℕ) (handler : SyscallFunction)
    (t : Fin SYSCALL_COUNT → Option SyscallFunction) : Fin SYSCALL_COUNT → Option SyscallFunction :=
  if h : num < SYSCALL_COUNT then Function.update t ⟨num, h⟩ (some handler) else t

/-- The calls of `syscall_register_handler` in `syscall_initialize`. -/
def basicHandlers : List (ℕ × SyscallFunction) :=
  [(0, .exit), (1, .print), (2, .read), (3, .malloc), (4, .free), (5, .open), (6, .close),
    (7, .write), (9, .getpid), (10, .time), (11, .sleep), (12, .yield)]

/-- `syscall_initialize`, up to the registration of the interrupt. -/
def SysState.syscallInitialize (L : Rodata) (s : SysState) : SysState where
  kernel := MiqOSoft.syscallInitialize L s.kernel
  syscallHandlers := basicHandlers.foldl (fun t h => syscallRegisterHandler h.1 h.2 t) fun _ => none
  console := s.console
  readings := s.readings

/-! ### What is printed -/

lemma renderAll_segments_literals {cs : List Byte} (hcs : ∀ c ∈ cs, c ≠ ch '%') (fmt : List Byte)
    (args : VaList) : renderAll (segments (cs ++ fmt)) args =
      (renderAll (segments fmt) args).map fun r => (cs ++ r.1, r.2) := by
  induction cs with
  | nil => exact (Option.map_id' ..).symm
  | cons c cs ih =>
      rw [List.forall_mem_cons] at hcs
      rw [List.cons_append, segments_literal hcs.1, renderAll]
      change (renderAll (segments (cs ++ fmt)) args).bind (fun r => some ([c] ++ r.1, r.2)) = _
      rw [ih hcs.2]
      cases renderAll (segments fmt) args <;> rfl

/-- What `sys_handler_exit` prints. -/
lemma vfprintf_exitFormat (code : Word) : vfprintf exitFormat [.word code] =
    some (ascii "Process exited with code: " ++ (signedText 10 code.toInt ++ ascii "\n"), []) := by
  have hchars : exitFormat.chars =
      ascii "Process exited with code: " ++ (ch '%' :: ch 'd' :: (ascii "\n" ++ [])) := by
    decide
  have hnumber : renderAll (segments (ch '%' :: ch 'd' :: (ascii "\n" ++ []))) [.word code] =
      some (signedText 10 code.toInt ++ ascii "\n", []) := by
    rw [segments_default (by decide) (by decide), renderAll,
      render_of_some (k := .signed 10) (by decide)]
    rfl
  rw [vfprintf_render, hchars, renderAll_segments_literals (by decide), hnumber]
  rfl

/-- What `sys_handler_print` prints. -/
lemma vfprintf_printFormat (msg : CString) : vfprintf printFormat [.text msg] =
    some (msg.chars, []) := by
  have hchars : printFormat.chars = ch '%' :: ch 's' :: [] := by decide
  rw [vfprintf_render, hchars, segments_default (by decide) (by decide), renderAll,
    render_of_some (k := .string) (by decide)]
  change some (msg.chars ++ [], []) = _
  rw [List.append_nil]

/-! ### The calls behind the numbers -/

/-- The call of the heap or of the file system that a handler makes. -/
def SyscallFunction.call (arg1 arg2 arg3 : Word) (m : Memory) : SyscallFunction → Option Call
  | .read => some (.sysRead arg1 arg2 arg3)
  | .malloc => some (.sysMalloc arg1)
  | .free => some (.sysFree arg1)
  | .open => (pathAt m arg1).map fun path => .sysOpen path arg2
  | .close => some (.sysClose arg1)
  | .write => some (.sysWrite arg1 arg2 arg3)
  | _ => none

/-- What is registered behind `syscall_initialize`. -/
def registered (num : Fin SYSCALL_COUNT) : Option SyscallFunction :=
  basicHandlers.lookup (num : ℕ)

section Dispatch

variable {L : Rodata} {clock : ℕ → BitVec 64} {arg1 arg2 arg3 arg4 : Word} {s s' : SysState}
  {f : SyscallFunction} {v : Word}

lemma syscallInitialize_handlers (L : Rodata) (s : SysState) :
    (s.syscallInitialize L).syscallHandlers = registered := by
  have hnum : ∀ num, basicHandlers.foldl (fun t h => syscallRegisterHandler h.1 h.2 t)
      (fun _ => none) num = registered num := by
    decide
  exact funext hnum

lemma onKernel_handlers {r : Word × Kernel} (h : s.onKernel r = (v, s')) :
    s'.syscallHandlers = s.syscallHandlers := by
  obtain ⟨-, rfl⟩ := Prod.mk.inj h
  rfl

lemma printf_eq_some {fmt : CString} {args : VaList} (h : s.printf fmt args = some s') :
    s'.kernel = s.kernel ∧ s'.syscallHandlers = s.syscallHandlers := by
  obtain ⟨r, -, rfl⟩ := Option.map_eq_some_iff.mp h
  exact ⟨rfl, rfl⟩

lemma exit_eq_some (h : sysHandlerExit arg1 s = some (v, s')) :
    s'.kernel = s.kernel ∧ s'.syscallHandlers = s.syscallHandlers := by
  obtain ⟨t, ht, heq⟩ := Option.map_eq_some_iff.mp h
  obtain ⟨-, rfl⟩ := Prod.mk.inj heq
  exact printf_eq_some ht

lemma print_eq_some (h : sysHandlerPrint arg1 s = some (v, s')) :
    s'.kernel = s.kernel ∧ s'.syscallHandlers = s.syscallHandlers := by
  rw [sysHandlerPrint] at h
  split_ifs at h with hnull
  · obtain ⟨-, rfl⟩ := Prod.mk.inj (Option.some.inj h)
    exact ⟨rfl, rfl⟩
  · obtain ⟨msg, -, h⟩ := Option.bind_eq_some_iff.mp h
    obtain ⟨t, ht, heq⟩ := Option.map_eq_some_iff.mp h
    obtain ⟨-, rfl⟩ := Prod.mk.inj heq
    exact printf_eq_some ht

variable (L clock arg4) in
/-- A handler that makes a call does to the kernel what the call does. -/
lemma run_of_call {call : Call} (hcall : f.call arg1 arg2 arg3 s.kernel.mem = some call) :
    (f.run L clock arg1 arg2 arg3 arg4 s).map (fun r => (r.1, r.2.kernel)) =
      s.kernel.exec L call := by
  cases f with
  | read =>
      obtain rfl := Option.some.inj hcall
      rfl
  | malloc =>
      obtain rfl := Option.some.inj hcall
      exact (Option.map_map ..).trans (Option.map_id' ..)
  | free =>
      obtain rfl := Option.some.inj hcall
      exact (Option.map_map ..).trans (Option.map_id' ..)
  | «open» =>
      obtain ⟨path, hpath, rfl⟩ := Option.map_eq_some_iff.mp hcall
      simp only [SyscallFunction.run, hpath, Option.bind_some, Option.map_map]
      exact Option.map_id' ..
  | close =>
      obtain rfl := Option.some.inj hcall
      rfl
  | write =>
      obtain rfl := Option.some.inj hcall
      exact (Option.map_map ..).trans (Option.map_id' ..)
  | exit => cases hcall
  | print => cases hcall
  | getpid => cases hcall
  | time => cases hcall
  | sleep => cases hcall
  | yield => cases hcall

/-- The other handlers leave the kernel alone. -/
lemma run_of_no_call (hcall : f.call arg1 arg2 arg3 s.kernel.mem = none)
    (h : f.run L clock arg1 arg2 arg3 arg4 s = some (v, s')) : s'.kernel = s.kernel := by
  cases f with
  | exit => exact (exit_eq_some h).1
  | print => exact (print_eq_some h).1
  | getpid =>
      obtain ⟨-, rfl⟩ := Prod.mk.inj (Option.some.inj h)
      rfl
  | time =>
      obtain ⟨-, rfl⟩ := Prod.mk.inj (Option.some.inj h)
      rfl
  | sleep =>
      obtain ⟨r, -, heq⟩ := Option.map_eq_some_iff.mp h
      obtain ⟨-, rfl⟩ := Prod.mk.inj heq
      rfl
  | yield =>
      obtain ⟨-, rfl⟩ := Prod.mk.inj (Option.some.inj h)
      rfl
  | «open» =>
      rw [SyscallFunction.run, Option.map_eq_none_iff.mp hcall] at h
      cases h
  | read => cases hcall
  | malloc => cases hcall
  | free => cases hcall
  | close => cases hcall
  | write => cases hcall

/-- No handler registers another one. -/
lemma run_handlers (h : f.run L clock arg1 arg2 arg3 arg4 s = some (v, s')) :
    s'.syscallHandlers = s.syscallHandlers := by
  have hkernel : ∀ {x : Option (Word × Kernel)} {s : SysState},
      x.map s.onKernel = some (v, s') → s'.syscallHandlers = s.syscallHandlers := by
    intro x s h
    obtain ⟨r, -, heq⟩ := Option.map_eq_some_iff.mp h
    exact onKernel_handlers heq
  cases f with
  | exit => exact (exit_eq_some h).2
  | print => exact (print_eq_some h).2
  | read => exact onKernel_handlers (Option.some.inj h)
  | malloc => exact hkernel h
  | free => exact hkernel h
  | «open» =>
      obtain ⟨path, -, h⟩ := Option.bind_eq_some_iff.mp h
      exact hkernel h
  | close => exact onKernel_handlers (Option.some.inj h)
  | write => exact 
      hkernel (s := { s with console := s.console ++ writtenOut arg1 arg2 arg3 s.kernel.mem }) h
  | getpid =>
      obtain ⟨-, rfl⟩ := Prod.mk.inj (Option.some.inj h)
      rfl
  | time =>
      obtain ⟨-, rfl⟩ := Prod.mk.inj (Option.some.inj h)
      rfl
  | sleep =>
      obtain ⟨r, -, heq⟩ := Option.map_eq_some_iff.mp h
      obtain ⟨-, rfl⟩ := Prod.mk.inj heq
      rfl
  | yield =>
      obtain ⟨-, rfl⟩ := Prod.mk.inj (Option.some.inj h)
      rfl

end Dispatch

/-! ### The interrupt -/

/-- `i686_ISR_Handler`, whose table is one of functions over the structure; `none` if the kernel
panics. -/
def isrHandler {κ : Type*} [HasMemory κ] (t : IsrTables (Addr → κ → Option κ)) (regs : Addr)
    (k : κ) : Option κ :=
  let interrupt := (registersAt (HasMemory.mem k) regs).interrupt
  match t.handlers (Fin.ofNat 256 interrupt.toNat) with
  | some f => f regs k
  | none => if 32 ≤ interrupt.toNat then some k else none

/-- The instruction `int`: the processor enters the stub that the gate leads to. -/
def softwareInterrupt {κ ι : Type*} [HasMemory κ] (isr : Fin 256 → Addr) (flags : Word → Word)
    (handler : Cpu κ → Option (Cpu κ)) (t : IsrTables ι) (v : Fin 256) (c : Cpu κ) :
    Option (Cpu κ) :=
  (vectorTarget (g_GDT.map GDTEntry.bits) (fun u => (t.idt u).bits) v).bind fun target =>
    (stubAt isr target).bind fun n => interrupt flags target handler n none c

/-- The result is stored in the structure. -/
lemma registersAt_setEax (m : Memory) (regs : Addr) (v : Word) :
    registersAt (store32 m (regs + 32#32) v) regs = { registersAt m regs with eax := v } := by
  have hapart : ∀ k < 16, k ≠ 8 → load32 (store32 m (regs + 32#32) v)
      (regs + BitVec.ofNat 32 (4 * k)) = load32 m (regs + BitVec.ofNat 32 (4 * k)) := by
    intro k hk hne
    refine load32_store32_of_disjoint v (Set.disjoint_left.mpr fun a ha ha' => ?_)
    rw [mem_span] at ha ha'
    bv_omega
  ext1
  case eax => exact load32_store32_self ..
  all_goals exact hapart _ (by decide) (by decide)

/-- The structure but for its last two fields, where it is left alone. -/
lemma registersAt_of_frame {m m' : Memory} {regs : Addr} (h : ∀ a ∈ span regs 56, m a = m' a) :
    registersAt m regs = { registersAt m' regs with
      esp := load32 m (regs + BitVec.ofNat 32 (4 * 14))
      ss := load32 m (regs + BitVec.ofNat 32 (4 * 15)) } := by
  have hword : ∀ k < 14, load32 m (regs + BitVec.ofNat 32 (4 * k)) =
      load32 m' (regs + BitVec.ofNat 32 (4 * k)) := by
    intro k hk
    refine load32_congr fun a ha => h a ?_
    rw [mem_span] at ha ⊢
    bv_omega
  ext1
  case esp => rfl
  case ss => rfl
  all_goals exact hword _ (by decide)

/-- What a system call leaves of the processor. -/
def returned (c : Cpu SysState) (v : Word) (s : SysState) : Cpu SysState :=
  { c with
    reg := Function.update c.reg .eax v
    seg := fun
      | .cs => c.seg .cs
      | .ss => c.seg .ss
      | _ => c.seg .ds
    store := s }

section Interrupt

variable {L : Rodata} {clock : ℕ → BitVec 64} {isr : Fin 256 → Addr}
  {t : IsrTables (Addr → SysState → Option SysState)}
  {cs : List (GateCall (Addr → SysState → Option SysState))} {flags : Word → Word}
  {handler : Cpu SysState → Option (Cpu SysState)} {room : ℕ} {c : Cpu SysState}

/-- The call of `syscall_dispatch` with the registers of the interrupted code. -/
def dispatched (L : Rodata) (clock : ℕ → BitVec 64) (c : Cpu SysState) :
    Option (Word × SysState) :=
  syscallDispatch L clock (c.reg .eax) (c.reg .ebx) (c.reg .ecx) (c.reg .edx) (c.reg .esi)
    (pushFrame 0x80 none c)

/-- The handler of the interrupt is called. -/
lemma isrHandler_int80 (hhandler : handlerAfter cs 0x80 = some (syscallHandler L clock))
    (c : Cpu SysState) :
    isrHandler (t.after isr cs) (framePointer c) (pushFrame 0x80 none c) =
      (dispatched L clock c).map fun q =>
        HasMemory.setMem (store32 q.2.kernel.mem (framePointer c + 32#32) q.1) q.2 := by
  have hregs := registersAt_pushFrame 0x80 none c
  have hnum : (registersAt (HasMemory.mem (pushFrame 0x80 none c)) (framePointer c)).interrupt =
      0x80#32 := by
    rw [hregs]
    rfl
  have hfun : (t.after isr cs).handlers (Fin.ofNat 256 (0x80#32 : Word).toNat) =
      some (syscallHandler L clock) := by
    refine (handlers_after isr t cs 0x80).trans ?_
    rw [hhandler]
    rfl
  rw [isrHandler, hnum]
  simp only [hfun]
  have hmem : registersAt (pushFrame 0x80 none c).kernel.mem (framePointer c) =
      savedRegisters 0x80 none c := hregs
  rw [syscallHandler, hmem]
  rfl

/-- The gate leads to the stub. -/
lemma softwareInterrupt_eq {v : Fin 256} (hisr : Function.Injective isr)
    (hpresent : presentAfter cs v = true) (c : Cpu SysState) :
    softwareInterrupt isr flags handler (t.after isr cs) v c =
      interrupt flags (isr v) handler v none c := by
  have htarget : vectorTarget (g_GDT.map GDTEntry.bits)
      (fun u => ((t.after isr cs).idt u).bits) v =
        if presentAfter cs v then some (isr v) else none :=
    vectorTarget_stubEntry (congrArg IDTEntry.bits (idt_after isr t cs v))
  rw [hpresent, if_pos rfl] at htarget
  rw [softwareInterrupt, htarget, Option.bind_some, stubAt_isr hisr, Option.bind_some]

/-- A system call that does not return. -/
lemma int80_eq_none (hisr : Function.Injective isr) (hpresent : presentAfter cs 0x80 = true)
    (hhandler : handlerAfter cs 0x80 = some (syscallHandler L clock))
    (hf : Compiles room (isrHandler (t.after isr cs)) handler)
    (hcall : dispatched L clock c = none) :
    softwareInterrupt isr flags handler (t.after isr cs) 0x80 c = none := by
  rw [softwareInterrupt_eq hisr hpresent]
  refine interrupt_eq_none hf (by decide) ?_
  rw [isrHandler_int80 hhandler, hcall, Option.map_none]

variable (flags) in
/-- A system call that returns, and has stored nothing to the structure. -/
lemma int80_eq_some (hisr : Function.Injective isr) (hpresent : presentAfter cs 0x80 = true)
    (hhandler : handlerAfter cs 0x80 = some (syscallHandler L clock))
    (hf : Compiles room (isrHandler (t.after isr cs)) handler) {v : Word} {s' : SysState}
    (hcall : dispatched L clock c = some (v, s'))
    (hframe : ∀ a ∈ span (framePointer c) 56,
      s'.kernel.mem a = (pushFrame 0x80 none c).kernel.mem a) :
    ∃ m, (∀ a ∉ span (c.reg .esp - 60#32 - BitVec.ofNat 32 room) (60 + room),
        m a = s'.kernel.mem a) ∧
      softwareInterrupt isr flags handler (t.after isr cs) 0x80 c =
        some (returned c v (HasMemory.setMem m s')) := by
  have hhandled : isrHandler (t.after isr cs) (framePointer c) (pushFrame 0x80 none c) =
      some (HasMemory.setMem (store32 s'.kernel.mem (framePointer c + 32#32) v) s') := by
    rw [isrHandler_int80 hhandler, hcall, Option.map_some]
  obtain ⟨m, hm, hinterrupt⟩ := interrupt_eq_call flags (isr 0x80) hf (by decide) hhandled
  have hregs : registersAt (store32 s'.kernel.mem (framePointer c + 32#32) v) (framePointer c) =
      { savedRegisters 0x80 none c with
        eax := v
        esp := load32 s'.kernel.mem (framePointer c + BitVec.ofNat 32 (4 * 14))
        ss := load32 s'.kernel.mem (framePointer c + BitVec.ofNat 32 (4 * 15)) } := by
    have hsaved : registersAt (pushFrame 0x80 none c).kernel.mem (framePointer c) =
        savedRegisters 0x80 none c := registersAt_pushFrame 0x80 none c
    rw [registersAt_setEax, registersAt_of_frame hframe, hsaved]
  refine ⟨m, fun a ha => ?_, ?_⟩
  · have hframes : a ∉ handlerFrames room c := fun h => ha ?_
    · have heax : a ∉ span (framePointer c + 32#32) 4 := fun h => ha ?_
      · exact (hm a hframes).trans (store32_of_notMem v heax)
      · rw [mem_span, framePointer] at h
        rw [mem_span]
        have := hf.room_le
        bv_omega
    · rw [handlerFrames, mem_span] at h
      rw [mem_span]
      omega
  · rw [softwareInterrupt_eq hisr hpresent, hinterrupt]
    refine congrArg some ?_
    change resumed c (registersAt (store32 s'.kernel.mem (framePointer c + 32#32) v)
      (framePointer c)) (HasMemory.setMem m s') = _
    rw [hregs, resumed_savedRegisters]
    rfl

variable (flags t cs) in
/-- **`int 0x80` is a call of `syscall_dispatch`** with the registers of the interrupted code,
behind the set-up of the tables and any order of calls for the gates that leaves the gate present
and `syscall_handler` registered: it returns exactly if the call does, and the code continues with
the result in `eax`, the selector of `ds` in `es`, `fs` and `gs`, and its other registers as they
were, if the call has left alone what `isr_common` restores them from.  Below the stack the memory
is anything. -/
theorem int80_dispatches (hisr : Function.Injective isr) (hpresent : presentAfter cs 0x80 = true)
    (hhandler : handlerAfter cs 0x80 = some (syscallHandler L clock))
    (hf : Compiles room (isrHandler (t.after isr cs)) handler) (c : Cpu SysState) :
    (dispatched L clock c = none →
        softwareInterrupt isr flags handler (t.after isr cs) 0x80 c = none) ∧
      ∀ v s', dispatched L clock c = some (v, s') →
        (∀ a ∈ span (framePointer c) 56,
          s'.kernel.mem a = (pushFrame 0x80 none c).kernel.mem a) →
        ∃ m, (∀ a ∉ span (c.reg .esp - 60#32 - BitVec.ofNat 32 room) (60 + room),
            m a = s'.kernel.mem a) ∧
          softwareInterrupt isr flags handler (t.after isr cs) 0x80 c =
            some (returned c v (HasMemory.setMem m s')) :=
  ⟨int80_eq_none hisr hpresent hhandler hf, fun _ _ hcall hframe =>
    int80_eq_some flags hisr hpresent hhandler hf hcall hframe⟩

end Interrupt

/-- The tables before the set-up. -/
def zeroTables (ι : Type*) : IsrTables ι := ⟨fun _ => ⟨0#16, 0#16, 0#8, 0#8, 0#16⟩, fun _ => none⟩

/-- A kernel behind `syscall_initialize`, over a memory of zeros. -/
def sampleSysState : SysState :=
  SysState.syscallInitialize sampleRodata ⟨blankKernel, fun _ => none, [], 0⟩

/-- A program that asks for its number. -/
def getpidCpu : Cpu SysState where
  reg
    | .eax => 9#32
    | .esp => 0x8000#32
    | _ => 0#32
  seg _ := 0x10#16
  eflags := 0x202#32
  eip := 0x1234#32
  store := sampleSysState

theorem int80_dispatches_getpid :
    ∃ s, softwareInterrupt (BitVec.ofNat 32 ·) id
        (compiled (isrHandler ((zeroTables _).after (BitVec.ofNat 32 ·)
          [.register 0x80 (syscallHandler sampleRodata fun _ => 0#64)])))
        ((zeroTables _).after (BitVec.ofNat 32 ·)
          [.register 0x80 (syscallHandler sampleRodata fun _ => 0#64)]) 0x80 getpidCpu =
      some (returned getpidCpu 1#32 s) := by
  obtain ⟨m, -, hint⟩ := (int80_dispatches (zeroTables _)
    [.register 0x80 (syscallHandler sampleRodata fun _ => 0#64)] id injective_ofNat rfl rfl
    (compiles_compiled _) getpidCpu).2 1#32 _ rfl fun _ _ => rfl
  exact ⟨_, hint⟩

end MiqOSoft
