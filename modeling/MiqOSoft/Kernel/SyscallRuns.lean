import MiqOSoft.Kernel.Syscalls

/-!
Programs over the system calls: any order of computations, stores and `int 0x80`.

* `Session`: the processor with the kernel, the pointers that the program owns, and the calls of the
  heap and of the file system that it has made; `ProgramStep`, `Session.step`.
* `Session.Tame`: what a step must respect: the stack lies off the kernel, strings end, and the call
  that is made is one of those that corrupt no memory.
* `session_refines`: a session is a run of the file system with the calls that were made, and never
  gets stuck.
-/

namespace MiqOSoft

open Machine Transition

/-- There is a vector, so that numbers stand for them. -/
local instance neZero_sessionVectors : NeZero 256 := ⟨by decide⟩

/-! ### Sessions -/

/-- The processor with the kernel, the pointers that the program owns, and the calls of the heap
and of the file system that were made, in their order. -/
structure Session where
  cpu : Cpu SysState
  owned : List Addr
  made : List Call

/-- A step of a program: a computation, which sets the registers to anything, the store of a byte,
or a system call. -/
inductive ProgramStep
  | compute (reg : Reg → Word) (eflags : Word) (eip : Addr)
  | store (a : Addr) (b : Byte)
  | int80

/-- The handler that `int 0x80` leads to. -/
def calledHandler (c : Cpu SysState) : Option SyscallFunction :=
  if h : (c.reg .eax).toNat < SYSCALL_COUNT then
    c.store.syscallHandlers ⟨(c.reg .eax).toNat, h⟩
  else none

/-- The call of the heap or of the file system that `int 0x80` makes. -/
def madeCall (c : Cpu SysState) : Option Call :=
  (calledHandler c).bind fun f =>
    f.call (c.reg .ebx) (c.reg .ecx) (c.reg .edx) (pushFrame 0x80 none c).kernel.mem

/-- The pointers that the program owns behind a call with a result. -/
def ownedAfter (call : Option Call) (v : Word) (owned : List Addr) : List Addr :=
  match call with
  | some (.sysMalloc _) => if v = NULL then owned else v :: owned
  | some (.sysFree ptr) => owned.erase ptr
  | _ => owned

namespace Session

/-- The kernel and the pointers. -/
def world (σ : Session) : FsWorld := ⟨σ.cpu.store.kernel, σ.owned⟩

/-- A step. -/
def step {ι : Type*} (isr : Fin 256 → Addr) (flags : Word → Word)
    (handler : Cpu SysState → Option (Cpu SysState)) (t : IsrTables ι) (σ : Session) :
    ProgramStep → Option Session
  | .compute reg eflags eip =>
      some { σ with cpu := { σ.cpu with reg := reg, eflags := eflags, eip := eip } }
  | .store a b =>
      some { σ with cpu := { σ.cpu with
        store := HasMemory.setMem (Function.update σ.cpu.mem a b) σ.cpu.store } }
  | .int80 =>
      (softwareInterrupt isr flags handler t 0x80 σ.cpu).map fun c =>
        { cpu := c
          owned := ownedAfter (madeCall σ.cpu) (c.reg .eax) σ.owned
          made := σ.made ++ (madeCall σ.cpu).toList }

/-- The string that a system call is given ends. -/
def Terminated (c : Cpu SysState) : Prop :=
  (calledHandler c = some .print ∨ calledHandler c = some .open) → c.reg .ebx ≠ NULL →
    cstringAt (pushFrame 0x80 none c).kernel.mem (c.reg .ebx) ≠ none

/-- What a step must respect, where the handler's frames take so many bytes. -/
def Tame (L : Rodata) (room : ℕ) (σ : Session) : ProgramStep → Prop
  | .compute _ _ _ => True
  | .store a _ => CallerOwned L σ.cpu.store.kernel a
  | .int80 =>
      (∀ a ∈ span (σ.cpu.reg .esp - 60#32 - BitVec.ofNat 32 room) (60 + room), OffKernel L a) ∧
        Terminated σ.cpu ∧
        ∀ call, madeCall σ.cpu = some call →
          FsWorld.Tame L ⟨(pushFrame 0x80 none σ.cpu).kernel, σ.owned⟩ call ∧
            ∀ a ∈ span (framePointer σ.cpu) 56,
              ¬call.Delivers (pushFrame 0x80 none σ.cpu).kernel a

end Session

/-! ### A system call of a session -/

section Step

variable {L : Rodata} {clock : ℕ → BitVec 64} {isr : Fin 256 → Addr}
  {t : IsrTables (Addr → SysState → Option SysState)}
  {cs : List (GateCall (Addr → SysState → Option SysState))} {flags : Word → Word}
  {handler : Cpu SysState → Option (Cpu SysState)} {room : ℕ} {c : Cpu SysState}
  {owned : List Addr} {v : Word} {s' : SysState}

/-- What is pushed changes nothing but the memory. -/
lemma pushes_store (vs : List Word) (c : Cpu SysState) :
    (c.pushes vs).store = HasMemory.setMem (c.pushes vs).mem c.store := by
  induction vs generalizing c with
  | nil => exact (HasMemory.setMem_mem _).symm
  | cons v vs ih =>
      rw [Cpu.pushes_cons, ih]
      exact HasMemory.setMem_setMem _ _ _

lemma dispatched_eq (L : Rodata) (clock : ℕ → BitVec 64) (c : Cpu SysState) :
    dispatched L clock c = match calledHandler c with
      | none => some (SYSCALL_INVALID_SYSCALL, pushFrame 0x80 none c)
      | some f => f.run L clock (c.reg .ebx) (c.reg .ecx) (c.reg .edx) (c.reg .esi)
          (pushFrame 0x80 none c) := by
  have htable : (pushFrame 0x80 none c).syscallHandlers = c.store.syscallHandlers := by
    rw [pushFrame, pushes_store]
    rfl
  rw [dispatched, syscallDispatch, calledHandler, htable]
  split_ifs with h
  · rfl
  · rfl

/-- The sleep returns, whatever the clock does. -/
lemma sleepNow_ne_none (ms : Word) (s : SysState) : sysHandlerSleepNow clock ms s ≠ none := by
  have hreturns : ∃ r, sysHandlerSleep (fun i => clock (s.readings + i)) ms 100100000 = some r := by
    by_cases hms : ms = 0#32
    · exact ⟨_, if_pos hms⟩
    · obtain ⟨n, hn, hstop, hfirst⟩ := exists_first_stop (fun i => clock (s.readings + i))
        (clock (s.readings + 0) + ms.setWidth 64)
      exact ⟨_, sysHandlerSleep_eq hms hn hn hstop hfirst⟩
  obtain ⟨r, hr⟩ := hreturns
  rw [sysHandlerSleepNow, hr]
  exact Option.some_ne_none _

variable (L clock) in
/-- A handler that makes no call returns, if the string that it is given ends. -/
lemma run_ne_none {f : SyscallFunction} {arg1 arg2 arg3 : Word} (arg4 : Word) {s : SysState}
    (hterm : (f = .print ∨ f = .open) → arg1 ≠ NULL → cstringAt s.kernel.mem arg1 ≠ none)
    (hcall : f.call arg1 arg2 arg3 s.kernel.mem = none) :
    f.run L clock arg1 arg2 arg3 arg4 s ≠ none := by
  cases f with
  | exit => simp [SyscallFunction.run, sysHandlerExit, SysState.printf, vfprintf_exitFormat]
  | print =>
      by_cases hnull : arg1 = NULL
      · simp [SyscallFunction.run, sysHandlerPrint, hnull]
      · obtain ⟨msg, hmsg⟩ := Option.ne_none_iff_exists'.mp (hterm (.inl rfl) hnull)
        simp [SyscallFunction.run, sysHandlerPrint, hnull, hmsg, SysState.printf,
          vfprintf_printFormat]
  | getpid => exact Option.some_ne_none _
  | time => exact Option.some_ne_none _
  | sleep => exact sleepNow_ne_none arg1 s
  | yield => exact Option.some_ne_none _
  | «open» =>
      by_cases hnull : arg1 = NULL
      · simp [SyscallFunction.call, pathAt, hnull] at hcall
      · have hpath := hterm (.inr rfl) hnull
        simp [SyscallFunction.call, pathAt, hnull, hpath] at hcall
  | read => cases hcall
  | malloc => cases hcall
  | free => cases hcall
  | close => cases hcall
  | write => cases hcall

/-- No system call is a store of the program. -/
lemma isStore_madeCall {call : Call} (hcall : madeCall c = some call) : call.isStore = false := by
  obtain ⟨f, -, hf⟩ := Option.bind_eq_some_iff.mp hcall
  cases f with
  | «open» =>
      obtain ⟨path, -, rfl⟩ := Option.map_eq_some_iff.mp hf
      rfl
  | read => exact (Option.some.inj hf) ▸ rfl
  | malloc => exact (Option.some.inj hf) ▸ rfl
  | free => exact (Option.some.inj hf) ▸ rfl
  | close => exact (Option.some.inj hf) ▸ rfl
  | write => exact (Option.some.inj hf) ▸ rfl
  | exit => cases hf
  | print => cases hf
  | getpid => cases hf
  | time => cases hf
  | sleep => cases hf
  | yield => cases hf

variable (clock) in
/-- A tame system call returns, and does to the kernel what its call does. -/
lemma dispatched_tame (hsound : FsWorld.Sound L ⟨(pushFrame 0x80 none c).kernel, owned⟩)
    (hterm : Session.Terminated c)
    (htame : ∀ call, madeCall c = some call →
      FsWorld.Tame L ⟨(pushFrame 0x80 none c).kernel, owned⟩ call) :
    ∃ v s', dispatched L clock c = some (v, s') ∧
      s'.syscallHandlers = c.store.syscallHandlers ∧
      (madeCall c = none → s'.kernel = (pushFrame 0x80 none c).kernel) ∧
      ∀ call, madeCall c = some call →
        FsWorld.step L ⟨(pushFrame 0x80 none c).kernel, owned⟩ call =
          some ⟨s'.kernel, ownedAfter (some call) v owned⟩ := by
  have htable : (pushFrame 0x80 none c).syscallHandlers = c.store.syscallHandlers := by
    rw [pushFrame, pushes_store]
    rfl
  rw [dispatched_eq]
  cases hf : calledHandler c with
  | none =>
      refine ⟨_, _, rfl, htable, fun _ => rfl, fun call hcall => ?_⟩
      rw [madeCall, hf] at hcall
      cases hcall
  | some f =>
      have hmade : madeCall c = f.call (c.reg .ebx) (c.reg .ecx) (c.reg .edx)
          (pushFrame 0x80 none c).kernel.mem := by
        rw [madeCall, hf, Option.bind_some]
      cases hcall : f.call (c.reg .ebx) (c.reg .ecx) (c.reg .edx)
          (pushFrame 0x80 none c).kernel.mem with
      | none =>
          have hreturns := run_ne_none L clock (c.reg .esi) (s := pushFrame 0x80 none c)
            (fun h => hterm (by simpa [hf] using h)) hcall
          obtain ⟨⟨v, s'⟩, hrun⟩ := Option.ne_none_iff_exists'.mp hreturns
          refine ⟨v, s', hrun, (run_handlers hrun).trans htable, fun _ => run_of_no_call hcall hrun,
            fun call h => ?_⟩
          rw [hmade, hcall] at h
          cases h
      | some call =>
          rw [hcall] at hmade
          obtain ⟨w', hstep, -⟩ := FsWorld.step_sound hsound (htame call hmade)
          obtain ⟨⟨v, k'⟩, hexec, rfl⟩ := Option.map_eq_some_iff.mp hstep
          have hkernel := run_of_call L clock (c.reg .esi) (s := pushFrame 0x80 none c) hcall
          rw [hexec] at hkernel
          obtain ⟨⟨v', s'⟩, hrun, heq⟩ := Option.map_eq_some_iff.mp hkernel
          obtain ⟨rfl, rfl⟩ := Prod.mk.inj heq
          refine ⟨v', s', hrun, (run_handlers hrun).trans htable, fun h => ?_, fun call' h => ?_⟩
          · rw [hmade] at h
            cases h
          · obtain rfl := Option.some.inj (hmade.symm.trans h)
            rw [hstep]
            cases call <;> rfl

variable (owned) in
/-- The frame is stored by the program, as far as the file system is concerned. -/
lemma run_pushFrame (hoff : ∀ a ∈ span (c.reg .esp - 60#32) 60, OffKernel L a) :
    ∃ cs, (∀ c ∈ cs, c.isStore = true) ∧ Run (FsWorld.step L) (FsWorld.Tame L)
      ⟨c.store.kernel, owned⟩ cs ⟨(pushFrame 0x80 none c).kernel, owned⟩ := by
  have hkernel : (pushFrame 0x80 none c).kernel =
      c.store.kernel.withMem (pushFrame 0x80 none c).kernel.mem :=
    congrArg SysState.kernel (pushes_store _ c)
  rw [hkernel]
  exact run_stores owned (fun _ _ a ha => (hoff a ha).callerOwned) (by decide)
    fun a ha => pushFrame_mem_of_notMem c ha

lemma filter_stores {cs : List Call} (h : ∀ c ∈ cs, c.isStore = true) :
    cs.filter (fun c => !c.isStore) = [] :=
  List.filter_eq_nil_iff.mpr fun c hc => by simp [h c hc]

variable (flags) in
/-- **A system call of a session** returns and is a run of the file system: the stores to the
stack, and in between the call that is made. -/
theorem step_int80 {σ : Session} (hisr : Function.Injective isr)
    (hpresent : presentAfter cs 0x80 = true)
    (hhandler : handlerAfter cs 0x80 = some (syscallHandler L clock))
    (hf : Compiles room (isrHandler (t.after isr cs)) handler) (hsound : σ.world.Sound L)
    (htame : σ.Tame L room .int80) :
    ∃ σ' calls, σ.step isr flags handler (t.after isr cs) .int80 = some σ' ∧
      Run (FsWorld.step L) (FsWorld.Tame L) σ.world calls σ'.world ∧
      calls.filter (fun c => !c.isStore) = (madeCall σ.cpu).toList ∧
      σ'.made = σ.made ++ (madeCall σ.cpu).toList ∧
      σ'.cpu.store.syscallHandlers = σ.cpu.store.syscallHandlers := by
  obtain ⟨c, owned, made⟩ := σ
  obtain ⟨hoff, hterm, hcalls⟩ := htame
  have hroom := hf.room_le
  have hstack : span (c.reg .esp - 60#32) 60 ⊆
      span (c.reg .esp - 60#32 - BitVec.ofNat 32 room) (60 + room) := by
    intro a ha
    rw [mem_span] at ha ⊢
    bv_omega
  obtain ⟨stores₁, hstores₁, hrun₁⟩ := run_pushFrame (L := L) (c := c) owned fun a ha =>
    hoff a (hstack ha)
  have hsound₁ : FsWorld.Sound L ⟨(pushFrame 0x80 none c).kernel, owned⟩ :=
    Run.invariant (P := FsWorld.Sound L) (fun _ _ _ hw hc hs => FsWorld.sound_of_step hw hc hs)
      hrun₁ hsound
  obtain ⟨v, s', hdispatched, hhandlers, hnone, hsome⟩ :=
    dispatched_tame clock hsound₁ hterm fun call hcall => (hcalls call hcall).1
  have hframe : ∀ a ∈ span (framePointer c) 56,
      s'.kernel.mem a = (pushFrame 0x80 none c).kernel.mem a := by
    intro a ha
    cases hcall : madeCall c with
    | none => rw [hnone hcall]
    | some call =>
        have hmem : a ∈ span (c.reg .esp - 60#32) 60 := by
          rw [mem_span, framePointer] at ha
          rw [mem_span]
          bv_omega
        exact FsWorld.step_mem hsound₁ (hcalls call hcall).1 (hsome call hcall)
          (hoff a (hstack hmem)) ((hcalls call hcall).2 a ha)
  obtain ⟨m, hm, hint⟩ := int80_eq_some flags hisr hpresent hhandler hf hdispatched
    hframe
  obtain ⟨stores₂, hstores₂, hrun₂⟩ := run_stores (k := s'.kernel)
    (ownedAfter (madeCall c) v owned) (fun _ _ a ha => (hoff a ha).callerOwned) (by omega) hm
  refine ⟨⟨returned c v (HasMemory.setMem m s'), ownedAfter (madeCall c) v owned,
    made ++ (madeCall c).toList⟩, stores₁ ++ ((madeCall c).toList ++ stores₂), ?_, ?_, ?_, rfl,
    hhandlers⟩
  · have heax : (returned c v (HasMemory.setMem m s')).reg .eax = v := by
      simp [returned]
    rw [Session.step, hint, Option.map_some, heax]
  · refine hrun₁.append (Run.append ?_ hrun₂)
    cases hcall : madeCall c with
    | none =>
        rw [hnone hcall]
        exact .nil _
    | some call => exact .cons (hcalls call hcall).1 (hsome call hcall) (.nil _)
  · rw [List.filter_append, List.filter_append, filter_stores hstores₁, filter_stores hstores₂]
    cases hcall : madeCall c with
    | none => rfl
    | some call => simp [isStore_madeCall hcall]

end Step

/-! ### Sessions as runs -/

section Sessions

variable {L : Rodata} {clock : ℕ → BitVec 64} {isr : Fin 256 → Addr}
  {t : IsrTables (Addr → SysState → Option SysState)}
  {cs : List (GateCall (Addr → SysState → Option SysState))} {flags : Word → Word}
  {handler : Cpu SysState → Option (Cpu SysState)} {room : ℕ} {c : Cpu SysState}
  {es : List ProgramStep} {σ σ' : Session}

variable (flags) in
/-- A step of a session is a run of the file system. -/
lemma step_refines (hisr : Function.Injective isr) (hpresent : presentAfter cs 0x80 = true)
    (hhandler : handlerAfter cs 0x80 = some (syscallHandler L clock))
    (hf : Compiles room (isrHandler (t.after isr cs)) handler) (hsound : σ.world.Sound L)
    {e : ProgramStep} (htame : σ.Tame L room e) :
    ∃ σ' calls made, σ.step isr flags handler (t.after isr cs) e = some σ' ∧
      Run (FsWorld.step L) (FsWorld.Tame L) σ.world calls σ'.world ∧
      calls.filter (fun c => !c.isStore) = made ∧ σ'.made = σ.made ++ made ∧
      σ'.cpu.store.syscallHandlers = σ.cpu.store.syscallHandlers := by
  cases e with
  | compute reg eflags eip => exact ⟨_, [], [], rfl, .nil _, rfl, (List.append_nil _).symm, rfl⟩
  | store a b =>
      exact ⟨_, [.store a b], [], rfl, .cons htame rfl (.nil _), rfl, (List.append_nil _).symm, rfl⟩
  | int80 =>
      obtain ⟨σ', calls, hstep, hrun, hcalls, hmade, hhandlers⟩ :=
        step_int80 flags hisr hpresent hhandler hf hsound htame
      exact ⟨σ', calls, _, hstep, hrun, hcalls, hmade, hhandlers⟩

/-- **A session is a run of the file system** behind `syscall_initialize`, with the calls that the
program has made through `int 0x80` in their order, and with stores of the program; the handlers
stay those that were registered, and every step that is tame returns. -/
theorem session_refines (hisr : Function.Injective isr) (hpresent : presentAfter cs 0x80 = true)
    (hhandler : handlerAfter cs 0x80 = some (syscallHandler L clock))
    (hf : Compiles room (isrHandler (t.after isr cs)) handler) {s : SysState} (hk : s.kernel.Cold)
    (hboot : c.store = s.syscallInitialize L)
    (hrun : Run (fun σ e => Session.step isr flags handler (t.after isr cs) σ e)
      (fun σ e => σ.Tame L room e) ⟨c, [], []⟩ es σ) :
    (∃ calls, FsRun L s.kernel calls σ.world ∧ calls.filter (fun c => !c.isStore) = σ.made) ∧
      σ.cpu.store.syscallHandlers = registered ∧
      ∀ e, σ.Tame L room e → ∃ σ', σ.step isr flags handler (t.after isr cs) e = some σ' := by
  have hcalls : (∃ calls, FsRun L s.kernel calls σ.world ∧
      calls.filter (fun c => !c.isStore) = σ.made) ∧
        σ.cpu.store.syscallHandlers = registered := by
    refine Run.invariant
      (P := fun σ => (∃ calls, FsRun L s.kernel calls σ.world ∧
        calls.filter (fun c => !c.isStore) = σ.made) ∧ σ.cpu.store.syscallHandlers = registered)
      ?_ hrun ⟨⟨[], ?_, rfl⟩, ?_⟩
    · rintro σ e σ' ⟨⟨calls, hfs, hfilter⟩, htable⟩ htame hstep
      obtain ⟨σ₁, calls₁, made₁, hstep₁, hrun₁, hfilter₁, hmade₁, hhandlers₁⟩ :=
        step_refines flags hisr hpresent hhandler hf (hfs.inv hk) htame
      obtain rfl : σ₁ = σ' := Option.some.inj (hstep₁.symm.trans hstep)
      refine ⟨⟨calls ++ calls₁, hfs.append hrun₁, ?_⟩, hhandlers₁.trans htable⟩
      rw [List.filter_append, hfilter, hfilter₁, hmade₁]
    · have hworld : Session.world ⟨c, [], []⟩ = FsWorld.boot L s.kernel :=
        congrArg (fun s : SysState => (⟨s.kernel, []⟩ : FsWorld)) hboot
      rw [FsRun, hworld]
      exact .nil _
    · exact (congrArg SysState.syscallHandlers hboot).trans (syscallInitialize_handlers L s)
  refine ⟨hcalls.1, hcalls.2, fun e htame => ?_⟩
  obtain ⟨calls, hfs, -⟩ := hcalls.1
  obtain ⟨σ', -, -, hstep, -⟩ :=
    step_refines flags hisr hpresent hhandler hf (hfs.inv hk) htame
  exact ⟨σ', hstep⟩

end Sessions

/-- A program that requests memory. -/
def mallocCpu : Cpu SysState :=
  { getpidCpu with reg := Function.update (Function.update getpidCpu.reg .eax 3#32) .ebx 64#32 }

/-- The call of the program, whose stack is at `0x8000`. -/
lemma tame_malloc : Session.Tame sampleRodata 0 ⟨mallocCpu, [], []⟩ .int80 := by
  have hmade : madeCall mallocCpu = some (.sysMalloc 64#32) := rfl
  refine ⟨fun a ha => ?_, ?_, ?_⟩
  · have hesp : mallocCpu.reg .esp = 0x8000#32 := rfl
    rw [hesp, mem_span] at ha
    refine ⟨?_, ?_, ?_⟩
    · rw [mem_span, HEAP_START]
      bv_omega
    · rw [mem_span, sampleRodata]
      bv_omega
    · rw [mem_span, sampleRodata]
      bv_omega
  · intro h
    exact absurd h (by decide)
  · rintro call hcall
    obtain rfl := Option.some.inj (hmade.symm.trans hcall)
    exact ⟨trivial, fun _ _ => id⟩

theorem session_refines_malloc : ∃ σ : Session,
    ∃ calls, FsRun sampleRodata blankKernel calls σ.world ∧
      calls.filter (fun c => !c.isStore) = [.sysMalloc 64#32] := by
  have hf := compiles_compiled (isrHandler ((zeroTables _).after (BitVec.ofNat 32 ·)
    [.register 0x80 (syscallHandler sampleRodata fun _ => 0#64)]))
  have hsound : (Session.world ⟨mallocCpu, [], []⟩).Sound sampleRodata :=
    FsWorld.boot_sound blankKernel_cold
  obtain ⟨σ, -, hstep, -, -, hmade, -⟩ := step_int80 id injective_ofNat rfl rfl hf hsound
    tame_malloc
  obtain ⟨⟨calls, hrun, hcalls⟩, -⟩ := session_refines
    (s := ⟨blankKernel, fun _ => none, [], 0⟩) injective_ofNat rfl rfl hf blankKernel_cold rfl
    (.cons tame_malloc hstep (.nil σ))
  exact ⟨σ, calls, hrun, hcalls.trans hmade⟩

end MiqOSoft
