import MiqOSoft.Machine.Memory

/-!
A processor with a stack in its memory: the part of an IA-32 that the way into a handler of an
interrupt, and the way back, are made of.

* `HasMemory`: a state that the memory is a part of; `Cpu`: the registers over such a state.
* `Instr`, `exec`: the instructions, and straight-line code, which a call that never returns ends.
  What an arithmetic instruction makes of the flags is left open.
* `Cpu.stackWord`: the words on the stack, from its top on.  `stackWord_pushes` reads back a block
  of words that was pushed, with the words that were there before behind it.
* `Cpu.enterInterrupt`, `Instr.iret`: an interrupt through an interrupt gate, and the return from
  it, at one privilege.
-/

namespace Machine

/-- A state that the memory is a part of. -/
class HasMemory (κ : Type*) where
  /-- The memory. -/
  mem : κ → Memory
  /-- The memory is replaced. -/
  setMem : Memory → κ → κ
  mem_setMem : ∀ m k, mem (setMem m k) = m
  setMem_setMem : ∀ m m' k, setMem m (setMem m' k) = setMem m k
  setMem_mem : ∀ k, setMem (mem k) k = k

attribute [simp] HasMemory.mem_setMem HasMemory.setMem_setMem HasMemory.setMem_mem

instance : HasMemory Memory := ⟨id, fun m _ => m, fun _ _ => rfl, fun _ _ _ => rfl, fun _ => rfl⟩

/-- The general registers. -/
inductive Reg
  | eax
  | ecx
  | edx
  | ebx
  | esp
  | ebp
  | esi
  | edi
deriving DecidableEq

/-- The segment registers. -/
inductive SegmentRegister
  | cs
  | ds
  | es
  | fs
  | gs
  | ss
deriving DecidableEq

/-- The registers, over a state. -/
@[ext]
structure Cpu (κ : Type*) where
  reg : Reg → Word
  seg : SegmentRegister → BitVec 16
  eflags : Word
  eip : Addr
  store : κ

variable {κ : Type*} [HasMemory κ]

/-- The low half of a word is replaced. -/
def setLow16 (w : Word) (v : BitVec 16) : Word := w.extractLsb' 16 16 ++ v

/-! ### The stack -/

namespace Cpu

/-- The memory. -/
abbrev mem (c : Cpu κ) : Memory := HasMemory.mem c.store

/-- A register is set. -/
def setReg (r : Reg) (v : Word) (c : Cpu κ) : Cpu κ := { c with reg := Function.update c.reg r v }

/-- A segment register is set. -/
def setSeg (s : SegmentRegister) (v : BitVec 16) (c : Cpu κ) : Cpu κ :=
  { c with seg := Function.update c.seg s v }

/-- A word is pushed. -/
def push (v : Word) (c : Cpu κ) : Cpu κ :=
  let esp := c.reg .esp - 4#32
  { c with
    reg := Function.update c.reg .esp esp
    store := HasMemory.setMem (store32 c.mem esp v) c.store }

/-- The word at depth `k` of the stack. -/
def stackWord (c : Cpu κ) (k : ℕ) : Word := load32 c.mem (c.reg .esp + BitVec.ofNat 32 (4 * k))

/-- Some words are taken off the stack. -/
def drop (n : ℕ) (c : Cpu κ) : Cpu κ := c.setReg .esp (c.reg .esp + BitVec.ofNat 32 (4 * n))

/-- A word is popped into a register. -/
def pop (r : Reg) (c : Cpu κ) : Cpu κ := (c.drop 1).setReg r (c.stackWord 0)

/-- Some words are pushed, the first one of the list first. -/
def pushes (vs : List Word) (c : Cpu κ) : Cpu κ := vs.foldl (fun c v => c.push v) c

end Cpu

/-! ### The instructions -/

/-- An instruction.  What a call does up to its return is part of the instruction. -/
inductive Instr (κ : Type*)
  | pushImm (v : Word)
  | push (r : Reg)
  | pop (r : Reg)
  | pusha
  | popa
  | xorSelf (r : Reg)
  | movAxSeg (s : SegmentRegister)
  | movAxImm (v : BitVec 16)
  | movSegAx (s : SegmentRegister)
  | addEsp (n : Word)
  | call (f : Cpu κ → Option (Cpu κ))
  | iret

/-- `pusha`: of `esp`, the value before the instruction is pushed. -/
def Cpu.pusha (c : Cpu κ) : Cpu κ :=
  c.pushes [c.reg .eax, c.reg .ecx, c.reg .edx, c.reg .ebx, c.reg .esp, c.reg .ebp, c.reg .esi,
    c.reg .edi]

/-- `popa`: the word for `esp` is skipped. -/
def Cpu.popa (c : Cpu κ) : Cpu κ :=
  (((((((c.pop .edi).pop .esi).pop .ebp).drop 1).pop .ebx).pop .edx).pop .ecx).pop .eax

/-- `iret`, to code of the same privilege. -/
def Cpu.iret (c : Cpu κ) : Cpu κ :=
  { (c.drop 3).setSeg .cs ((c.stackWord 1).setWidth 16) with
    eip := c.stackWord 0
    eflags := c.stackWord 2 }

/-- An instruction, where `flags` says what an arithmetic one leaves of the flags. -/
def Instr.exec (flags : Word → Word) : Instr κ → Cpu κ → Option (Cpu κ)
  | .pushImm v, c => some (c.push v)
  | .push r, c => some (c.push (c.reg r))
  | .pop r, c => some (c.pop r)
  | .pusha, c => some c.pusha
  | .popa, c => some c.popa
  | .xorSelf r, c => some { c.setReg r 0#32 with eflags := flags c.eflags }
  | .movAxSeg s, c => some (c.setReg .eax (setLow16 (c.reg .eax) (c.seg s)))
  | .movAxImm v, c => some (c.setReg .eax (setLow16 (c.reg .eax) v))
  | .movSegAx s, c => some (c.setSeg s ((c.reg .eax).setWidth 16))
  | .addEsp n, c => some { c.setReg .esp (c.reg .esp + n) with eflags := flags c.eflags }
  | .call f, c => f c
  | .iret, c => some c.iret

/-- Straight-line code. -/
def exec (flags : Word → Word) (code : List (Instr κ)) (c : Cpu κ) : Option (Cpu κ) :=
  code.foldlM (fun c i => i.exec flags c) c

lemma exec_append (flags : Word → Word) (code code' : List (Instr κ)) (c : Cpu κ) :
    exec flags (code ++ code') c = (exec flags code c).bind (exec flags code') :=
  List.foldlM_append

/-- The flags that an interrupt gate clears: `TF`, `IF`, `NT`, `RF` and `VM`. -/
def gateFlags : Word := 0x34300#32

/-- An interrupt through an interrupt gate, at the privilege of the interrupted code: what is
pushed is the place to return to and, for some exceptions, an error code. -/
def Cpu.enterInterrupt (selector : BitVec 16) (offset : Addr) (error : Option Word) (c : Cpu κ) :
    Cpu κ :=
  let entered := c.pushes ([c.eflags, (c.seg .cs).setWidth 32, c.eip] ++ error.toList)
  { entered.setSeg .cs selector with eip := offset, eflags := c.eflags &&& ~~~gateFlags }

/-! ### What instructions leave alone -/

namespace Cpu

variable {c : Cpu κ}

@[simp] lemma push_seg (v : Word) (c : Cpu κ) : (c.push v).seg = c.seg := rfl

@[simp] lemma push_eflags (v : Word) (c : Cpu κ) : (c.push v).eflags = c.eflags := rfl

@[simp] lemma push_eip (v : Word) (c : Cpu κ) : (c.push v).eip = c.eip := rfl

lemma push_esp (v : Word) (c : Cpu κ) : (c.push v).reg .esp = c.reg .esp - 4#32 := by
  simp [push]

lemma push_mem (v : Word) (c : Cpu κ) :
    (c.push v).mem = store32 c.mem (c.reg .esp - 4#32) v :=
  HasMemory.mem_setMem ..

@[simp] lemma pushes_nil (c : Cpu κ) : c.pushes [] = c := rfl

@[simp] lemma pushes_cons (v : Word) (vs : List Word) (c : Cpu κ) :
    c.pushes (v :: vs) = (c.push v).pushes vs := rfl

lemma pushes_append (vs ws : List Word) (c : Cpu κ) :
    c.pushes (vs ++ ws) = (c.pushes vs).pushes ws :=
  List.foldl_append

@[simp] lemma pushes_seg (vs : List Word) (c : Cpu κ) : (c.pushes vs).seg = c.seg := by
  induction vs generalizing c with
  | nil => rfl
  | cons v vs ih => exact ih (c.push v)

@[simp] lemma pushes_eflags (vs : List Word) (c : Cpu κ) : (c.pushes vs).eflags = c.eflags := by
  induction vs generalizing c with
  | nil => rfl
  | cons v vs ih => exact ih (c.push v)

lemma pushes_esp (vs : List Word) (c : Cpu κ) :
    (c.pushes vs).reg .esp = c.reg .esp - BitVec.ofNat 32 (4 * vs.length) := by
  induction vs generalizing c with
  | nil => simp
  | cons v vs ih =>
      rw [pushes_cons, ih, push_esp, List.length_cons, Nat.mul_succ, BitVec.ofNat_add]
      bv_omega

/-! ### The words on the stack -/

lemma stackWord_push_zero (v : Word) (c : Cpu κ) : (c.push v).stackWord 0 = v := by
  rw [stackWord, push_esp, push_mem, Nat.mul_zero, BitVec.add_zero]
  exact load32_store32_self ..

/-- A push moves the words of the stack one place down. -/
lemma stackWord_push_succ {k : ℕ} (hk : k < 2 ^ 30 - 1) (v : Word) (c : Cpu κ) :
    (c.push v).stackWord (k + 1) = c.stackWord k := by
  have haddr : c.reg .esp - 4#32 + BitVec.ofNat 32 (4 * (k + 1)) =
      c.reg .esp + BitVec.ofNat 32 (4 * k) := by
    rw [Nat.mul_succ, BitVec.ofNat_add]
    bv_omega
  rw [stackWord, push_esp, push_mem, haddr, stackWord]
  refine load32_store32_of_disjoint v (Set.disjoint_left.mpr fun a ha hb => ?_)
  rw [mem_span] at ha hb
  bv_omega

/-- **A block that was pushed** is read back from its last word on, and behind it the words that
were on the stack before. -/
theorem stackWord_pushes {vs : List Word} {k : ℕ} (hk : k < 2 ^ 30 - 1) (c : Cpu κ) :
    (c.pushes vs).stackWord k =
      if h : k < vs.length then vs[vs.length - 1 - k] else c.stackWord (k - vs.length) := by
  induction vs using List.reverseRecOn generalizing k with
  | nil => simp
  | append_singleton vs v ih =>
      rw [pushes_append, pushes_cons, pushes_nil]
      cases k with
      | zero => simp [stackWord_push_zero]
      | succ k =>
          rw [stackWord_push_succ (by omega), ih (by omega)]
          by_cases hlt : k < vs.length
          · rw [dif_pos hlt, dif_pos (by simpa using hlt),
              List.getElem_append_left (by simp; omega)]
            congr 1
            simp only [List.length_append, List.length_singleton]
            omega
          · rw [dif_neg hlt, dif_neg (by simpa using hlt)]
            simp [Nat.add_sub_add_right]

/-- The words that were on the stack before lie behind a block that was pushed. -/
lemma stackWord_pushes_of_le {vs : List Word} {k : ℕ} (hle : vs.length ≤ k) (hk : k < 2 ^ 30 - 1)
    (c : Cpu κ) : (c.pushes vs).stackWord k = c.stackWord (k - vs.length) := by
  rw [stackWord_pushes hk, dif_neg (by omega)]

/-- Pushes store below the top of the stack only. -/
lemma pushes_mem_of_notMem {vs : List Word} {a : Addr} (hlen : vs.length ≤ 2 ^ 30) (c : Cpu κ)
    (ha : a ∉ span (c.reg .esp - BitVec.ofNat 32 (4 * vs.length)) (4 * vs.length)) :
    (c.pushes vs).mem a = c.mem a := by
  induction vs generalizing c with
  | nil => rfl
  | cons v vs ih =>
      rw [List.length_cons] at ha hlen
      rw [mem_span] at ha
      rw [pushes_cons, ih (by omega), push_mem]
      · refine store32_of_notMem v fun hmem => ha ?_
        rw [mem_span] at hmem
        bv_omega
      · rw [push_esp, mem_span]
        bv_omega

omit [HasMemory κ] in
lemma drop_esp (n : ℕ) (c : Cpu κ) :
    (c.drop n).reg .esp = c.reg .esp + BitVec.ofNat 32 (4 * n) :=
  Function.update_self Reg.esp _ c.reg

@[simp] lemma stackWord_drop (n k : ℕ) (c : Cpu κ) :
    (c.drop n).stackWord k = c.stackWord (n + k) := by
  rw [stackWord, drop_esp, BitVec.add_assoc, ← BitVec.ofNat_add, ← Nat.mul_add]
  rfl

lemma stackWord_setReg {r : Reg} (hr : r ≠ .esp) (v : Word) (k : ℕ) (c : Cpu κ) :
    (c.setReg r v).stackWord k = c.stackWord k := by
  have hesp : (c.setReg r v).reg .esp = c.reg .esp := Function.update_of_ne hr.symm _ _
  rw [stackWord, hesp]
  rfl

/-- The words behind the one that is popped. -/
lemma stackWord_pop {r : Reg} (hr : r ≠ .esp) (k : ℕ) (c : Cpu κ) :
    (c.pop r).stackWord k = c.stackWord (1 + k) := by
  rw [pop, stackWord_setReg hr, stackWord_drop]

lemma pop_reg_self (r : Reg) (c : Cpu κ) : (c.pop r).reg r = c.stackWord 0 :=
  Function.update_self ..

lemma pop_reg_of_ne {r s : Reg} (hs : s ≠ r) (hesp : s ≠ .esp) (c : Cpu κ) :
    (c.pop r).reg s = c.reg s :=
  (Function.update_of_ne hs _ _).trans (Function.update_of_ne hesp _ _)

omit [HasMemory κ] in
lemma drop_reg_of_ne {r : Reg} (hr : r ≠ .esp) (n : ℕ) (c : Cpu κ) :
    (c.drop n).reg r = c.reg r :=
  Function.update_of_ne hr _ _

lemma pop_esp {r : Reg} (hr : r ≠ .esp) (c : Cpu κ) : (c.pop r).reg .esp = c.reg .esp + 4#32 := by
  rw [← drop_esp 1 c]
  exact Function.update_of_ne hr.symm _ _

/-- The registers that `popa` leaves, from the top of the stack on. -/
lemma popa_eq (c : Cpu κ) :
    c.popa = { c with
      reg := fun
        | .edi => c.stackWord 0
        | .esi => c.stackWord 1
        | .ebp => c.stackWord 2
        | .esp => c.reg .esp + 32#32
        | .ebx => c.stackWord 4
        | .edx => c.stackWord 5
        | .ecx => c.stackWord 6
        | .eax => c.stackWord 7 } := by
  refine Cpu.ext (funext fun r => ?_) rfl rfl rfl rfl
  cases r
  case esp =>
    simp only [popa, pop_esp, drop_esp, ne_eq, reduceCtorEq, not_false_eq_true, BitVec.add_assoc,
      BitVec.reduceAdd, Nat.mul_one]
  all_goals
    simp only [popa, pop_reg_self, pop_reg_of_ne, drop_reg_of_ne, stackWord_pop, stackWord_drop,
      ne_eq, reduceCtorEq, not_false_eq_true, Nat.reduceAdd]

lemma popa_esp (c : Cpu κ) : c.popa.reg .esp = c.reg .esp + 32#32 := by rw [popa_eq]

lemma stackWord_popa (k : ℕ) (c : Cpu κ) : c.popa.stackWord k = c.stackWord (8 + k) := by
  rw [← stackWord_drop 8 k, stackWord, popa_esp]
  rfl

/-- The flags are not on the stack yet. -/
@[simp] lemma stackWord_eflags (k : ℕ) (v : Word) (c : Cpu κ) :
    ({ c with eflags := v } : Cpu κ).stackWord k = c.stackWord k := rfl

end Cpu

end Machine
