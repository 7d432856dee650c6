import MiqOSoft.Boot.Fat
import MiqOSoft.Common.Memory

/-!
The ELF loader of the boot loader's second stage, `elf.c`.

* `FatDriver`: the three entry points of the FAT driver that `ELF_Read` calls, as functions of
  the driver's state and of the flat memory.
* `elfHeader`, `progHeader`: the packed structures, read from memory.
* `seekLoop`, `loadLoop`, `loadSegment`, `entryLoop`, `elfRead`: `ELF_Read`.  The two inner
  loops test and decrement fields of the program header in memory, so nothing bounds their
  turns beforehand: `fuel` does, and `none` means that it ran out.
-/

namespace MiqOSoft

open Machine

/-! ### Memory map -/

/-- `MEMORY_ELF_ADDR`. -/
def MEMORY_ELF_ADDR : Addr := 0x30000#32

/-- `MEMORY_LOAD_KERNEL`. -/
def MEMORY_LOAD_KERNEL : Addr := 0x40000#32

/-- `MEMORY_LOAD_SIZE`. -/
def MEMORY_LOAD_SIZE : Word := 0x00010000#32

/-! ### The driver -/

/-- The machine at boot: the state the FAT driver keeps, and the memory. -/
structure BootState (σ : Type*) where
  fat : σ
  mem : Memory

/-- `FAT_Open`, `FAT_Read` and `FAT_Close`, for a type of partitions and a type of paths. -/
structure FatDriver (σ Partition Path : Type*) where
  fatOpen : Partition → Path → BootState σ → Addr × BootState σ
  fatRead : Partition → Addr → Word → Addr → BootState σ → Word × BootState σ
  fatClose : Addr → BootState σ → BootState σ

/-! ### The structures of `elf.h` -/

/-- The fields of `ELFHeader` that `ELF_Read` looks at. -/
structure ELFHeader where
  magic : Word
  bitness : Byte
  endianness : Byte
  elfHeaderVersion : Byte
  type : BitVec 16
  instructionSet : BitVec 16
  elfVersion : Word
  programEntryPosition : Word
  programHeaderTablePosition : Word
  programHeaderTableEntrySize : BitVec 16
  programHeaderTableEntryCount : BitVec 16

/-- The `ELFHeader` at `a`. -/
def elfHeader (m : Memory) (a : Addr) : ELFHeader where
  magic := load32 m a
  bitness := m (a + 4#32)
  endianness := m (a + 5#32)
  elfHeaderVersion := m (a + 6#32)
  type := load16 m (a + 16#32)
  instructionSet := load16 m (a + 18#32)
  elfVersion := load32 m (a + 20#32)
  programEntryPosition := load32 m (a + 24#32)
  programHeaderTablePosition := load32 m (a + 28#32)
  programHeaderTableEntrySize := load16 m (a + 42#32)
  programHeaderTableEntryCount := load16 m (a + 44#32)

/-- The value `ELF_Read` computes for `ok`: the magic is compared with `!= 0`, and nothing
reads `ok` afterwards. -/
def ELFHeader.ok (h : ELFHeader) : Bool :=
  h.magic ≠ 0x464C457F#32 && h.bitness = 1#8 && h.endianness = 1#8 && h.elfHeaderVersion = 1#8
    && h.elfVersion = 1#32 && h.type = 2#16 && h.instructionSet = 3#16

/-- `sizeof(ELFHeader)`. -/
def sizeofELFHeader : Word := 52#32

/-- `programHeaderSize`. -/
def ELFHeader.programHeaderSize (h : ELFHeader) : Word :=
  h.programHeaderTableEntrySize.setWidth 32 * h.programHeaderTableEntryCount.setWidth 32

/-- The fields of `ELFProgramHeader` that `ELF_Read` looks at. -/
@[ext]
structure ELFProgramHeader where
  type : Word
  offset : Word
  virtualAddress : Addr
  fileSize : Word
  memorySize : Word

/-- The `ELFProgramHeader` at `a`. -/
def progHeader (m : Memory) (a : Addr) : ELFProgramHeader where
  type := load32 m a
  offset := load32 m (a + 4#32)
  virtualAddress := load32 m (a + 8#32)
  fileSize := load32 m (a + 16#32)
  memorySize := load32 m (a + 20#32)

/-- `ELF_PROGRAM_TYPE_LOAD`. -/
def ELF_PROGRAM_TYPE_LOAD : Word := 1#32

/-! ### `ELF_Read` -/

section

variable {σ Partition Path : Type*} (D : FatDriver σ Partition Path) (part : Partition)

/-- The loop that seeks by reading: `while (progHeader->Offset > 0)`. -/
def seekLoop (fd ph : Addr) : ℕ → BootState σ → Option (Bool × BootState σ)
  | 0, _ => none
  | fuel + 1, s =>
      if (progHeader s.mem ph).offset = 0#32 then some (true, s)
      else
        let shouldRead := wordMin (progHeader s.mem ph).offset MEMORY_LOAD_SIZE
        let (read, s) := D.fatRead part fd shouldRead MEMORY_LOAD_KERNEL s
        if read ≠ shouldRead then some (false, s)
        else
          let offset := (progHeader s.mem ph).offset - read
          seekLoop fd ph fuel { s with mem := store32 s.mem (ph + 4#32) offset }

/-- The loop that loads the segment: `while (progHeader->FileSize > 0)`. -/
def loadLoop (fd ph : Addr) : ℕ → Addr → BootState σ → Option (Bool × BootState σ)
  | 0, _, _ => none
  | fuel + 1, virtAddress, s =>
      if (progHeader s.mem ph).fileSize = 0#32 then some (true, s)
      else
        let shouldRead := wordMin (progHeader s.mem ph).fileSize MEMORY_LOAD_SIZE
        let (read, s) := D.fatRead part fd shouldRead MEMORY_LOAD_KERNEL s
        if read ≠ shouldRead then some (false, s)
        else
          let fileSize := (progHeader s.mem ph).fileSize - read
          let mem := store32 s.mem (ph + 16#32) fileSize
          -- the length of `memcpy` is 16 bits wide
          let mem := memcpy virtAddress MEMORY_LOAD_KERNEL (len16 read) mem
          loadLoop fd ph fuel (virtAddress + read) { s with mem }

/-- The body of the loop over the table, for an entry of type `PT_LOAD`. -/
def loadSegment (path : Path) (fuel : ℕ) (ph : Addr) (s : BootState σ) :
    Option (Bool × BootState σ) :=
  let virtAddress := (progHeader s.mem ph).virtualAddress
  let mem := memset virtAddress 0#32 (progHeader s.mem ph).memorySize s.mem
  let (fd, s) := D.fatOpen part path { s with mem }
  (seekLoop D part fd ph fuel s).bind fun (ok, s) =>
    if ok then
      (loadLoop D part fd ph fuel virtAddress s).map fun (ok, s) =>
        if ok then (true, D.fatClose fd s) else (false, s)
    else some (false, s)

/-- The loop over the program header table, from entry `i` on. -/
def entryLoop (path : Path) (fuel : ℕ) (entrySize : Word) :
    ℕ → Word → BootState σ → Option (Bool × BootState σ)
  | 0, _, s => some (true, s)
  | n + 1, i, s =>
      let ph := MEMORY_ELF_ADDR + i * entrySize
      if (progHeader s.mem ph).type = ELF_PROGRAM_TYPE_LOAD then
        (loadSegment D part path fuel ph s).bind fun (ok, s) =>
          if ok then entryLoop path fuel entrySize n (i + 1#32) s else some (false, s)
      else entryLoop path fuel entrySize n (i + 1#32) s

/-- `ELF_Read`: its result, the value left in `*entryPoint`, and the state. -/
def elfRead (path : Path) (fuel : ℕ) (entryPoint : Word) (s : BootState σ) :
    Option (Bool × Word × BootState σ) :=
  let (fd, s) := D.fatOpen part path s
  let (read, s) := D.fatRead part fd sizeofELFHeader MEMORY_ELF_ADDR s
  if read ≠ sizeofELFHeader then some (false, entryPoint, s)
  else
    let filePos := read
    let header := elfHeader s.mem MEMORY_ELF_ADDR
    let _ok := header.ok
    let (_, s) :=
      D.fatRead part fd (header.programHeaderTablePosition - filePos) MEMORY_ELF_ADDR s
    let (read, s) := D.fatRead part fd header.programHeaderSize MEMORY_ELF_ADDR s
    if read ≠ header.programHeaderSize then some (false, header.programEntryPosition, s)
    else
      (entryLoop D part path fuel (header.programHeaderTableEntrySize.setWidth 32)
        header.programHeaderTableEntryCount.toNat 0#32 (D.fatClose fd s)).map
        fun (ok, s) => (ok, header.programEntryPosition, s)

end

end MiqOSoft
