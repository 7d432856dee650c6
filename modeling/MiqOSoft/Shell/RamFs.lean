import MiqOSoft.Machine.Memory
import MiqOSoft.Kernel.Vfs

/-!
The RAM file system of `shell_commands.c`: `ramfs_init`, `ramfs_find_file`, `ramfs_create`,
`ramfs_delete`, `ramfs_write_file`, `ramfs_read_file` and the command `cmd_cd`, with
`shell_strcmp` and `shell_strncpy` of `shell.c`.

The heap is reached through the system calls `sys_malloc` and `sys_free`; every function
takes them as a parameter.  `g_ramfs` is kept apart from the memory, which holds the buffers
of the files.  The buffers of the callers lie on the stack: a write is given their bytes, and
a read delivers bytes.  What happens to buffers and slots is also written down in a trace,
newest first.
-/

namespace MiqOSoft

open Machine

/-- `MAX_FILE_SIZE`. -/
def MAX_FILE_SIZE : ℕ := 4096

/-! ### Strings -/

/-- `shell_strcmp`, the text of `strcmp`. -/
def shellStrcmp (s1 : ℕ → Byte) (s2 : CString) : ℤ := strcmp s1 s2.chars

/-- The first loop of `shell_strncpy`: characters are copied from position `d` on, until `n`
of them are or the NUL is.  It leaves the destination, the position, and what is left of `n`. -/
def strncpyCopy (src : CString) : ℕ → ℕ → (ℕ → Byte) → (ℕ → Byte) × ℕ × ℕ
  | 0, d, dest => (dest, d, 0)
  | n + 1, d, dest =>
      let dest := Function.update dest d (src.byte d)
      if src.byte d = 0#8 then (dest, d + 1, n + 1) else strncpyCopy src n (d + 1) dest

/-- The second loop of `shell_strncpy`: `n` NULs from position `d` on. -/
def strncpyPad : ℕ → ℕ → (ℕ → Byte) → (ℕ → Byte)
  | 0, _, dest => dest
  | n + 1, d, dest => strncpyPad n (d + 1) (Function.update dest d 0#8)

/-- `shell_strncpy`. -/
def shellStrncpy (dest : ℕ → Byte) (src : CString) (n : ℕ) : ℕ → Byte :=
  let r := strncpyCopy src n 0 dest
  strncpyPad r.2.2 r.2.1 r.1

/-! ### The table -/

/-- A name has room for a character, so that its places are written as numbers. -/
local instance neZero_nameLength : NeZero 32 := ⟨by decide⟩

/-- The `name` field of a `ram_file_t`.  Every store to it leaves its last character NUL. -/
structure FileName where
  chars : Fin 32 → Byte
  terminated : chars 31 = 0#8

/-- The character at `k`. -/
def FileName.byte (n : FileName) (k : ℕ) : Byte := if h : k < 32 then n.chars ⟨k, h⟩ else 0#8

/-- A zeroed name. -/
def FileName.zero : FileName := ⟨fun _ => 0#8, rfl⟩

lemma FileName.root_terminated : (if (31 : Fin 32) = 0 then 47#8 else 0#8) = 0#8 := by decide

/-- The name of the root directory. -/
def FileName.root : FileName := ⟨fun k => if k = 0 then 47#8 else 0#8, root_terminated⟩

/-- `shell_strncpy(file->name, name, MAX_FILENAME_LEN - 1)` and the NUL behind it. -/
def FileName.assign (old : FileName) (name : CString) : FileName where
  chars k := if k = 31 then 0#8 else shellStrncpy old.byte name 31 k
  terminated := if_pos rfl

/-- `ram_file_t`.  `parent_index` is an index into the table, since only `current_dir` is
stored there. -/
structure RamFile where
  name : FileName
  data : Addr
  size : Word
  capacity : Word
  isDirectory : Word
  parentIndex : Fin 64
  inUse : Bool

/-- A zeroed `ram_file_t`. -/
def RamFile.zero : RamFile := ⟨FileName.zero, NULL, 0#32, 0#32, 0#32, 0, false⟩

/-- `ram_fs_t`. -/
structure RamFs where
  files : Fin 64 → RamFile
  fileCount : Word
  currentDir : Fin 64
  initialized : Bool

/-! ### The system calls and the state -/

/-- What the shell sees of the heap, whose state is of type `σ`. -/
structure SysCalls (σ : Type*) where
  sysMalloc : Word → σ → Memory → Addr × σ × Memory
  sysFree : Addr → σ → Memory → σ × Memory

/-- A block is obtained or released, `len` bytes are stored at an offset in a buffer of the
given capacity, or an entry is created in a slot or deleted from it. -/
inductive RamFsEvent
  | malloc (size : Word) (ptr : Addr)
  | free (ptr : Addr)
  | store (buffer : Addr) (capacity : Word) (off len : ℕ)
  | created (slot : Fin 64) (name : CString) (dir : Fin 64)
  | deleted (slot : Fin 64)

/-- `g_ramfs`, the heap, the memory and the trace. -/
structure Shell (σ : Type*) where
  ramfs : RamFs
  heap : σ
  mem : Memory
  trace : List RamFsEvent

variable {σ : Type*}

namespace Shell

/-- `g_ramfs.files[i]`. -/
abbrev file (s : Shell σ) (i : Fin 64) : RamFile := s.ramfs.files i

/-- `g_ramfs.files[i] = f`. -/
def setFile (s : Shell σ) (i : Fin 64) (f : RamFile) : Shell σ :=
  { s with ramfs := { s.ramfs with files := Function.update s.ramfs.files i f } }

/-- `g_ramfs.current_dir = dir`. -/
def setDir (s : Shell σ) (dir : Fin 64) : Shell σ :=
  { s with ramfs := { s.ramfs with currentDir := dir } }

/-- A call of `sys_malloc`. -/
def malloc (S : SysCalls σ) (size : Word) (s : Shell σ) : Addr × Shell σ :=
  let r := S.sysMalloc size s.heap s.mem
  (r.1, { s with heap := r.2.1, mem := r.2.2, trace := .malloc size r.1 :: s.trace })

/-- A call of `sys_free`. -/
def free (S : SysCalls σ) (ptr : Addr) (s : Shell σ) : Shell σ :=
  let r := S.sysFree ptr s.heap s.mem
  { s with heap := r.1, mem := r.2, trace := .free ptr :: s.trace }

/-- `shell_memcpy` of a caller's `size` bytes to the start of a buffer. -/
def copyIn (buffer : Addr) (capacity : Word) (data : ℕ → Byte) (size : Word) (s : Shell σ) :
    Shell σ :=
  { s with
    mem := storeBytes buffer data size.toNat s.mem
    trace := .store buffer capacity 0 size.toNat :: s.trace }

/-- `shell_memcpy` of the first `size` bytes of one buffer to the start of another. -/
def copyOver (buffer : Addr) (capacity : Word) (src : Addr) (size : Word) (s : Shell σ) :
    Shell σ :=
  { s with
    mem := copyBytes buffer src size.toNat s.mem
    trace := .store buffer capacity 0 size.toNat :: s.trace }

/-- The store of a NUL at an offset of a buffer. -/
def storeNul (buffer : Addr) (capacity off : Word) (s : Shell σ) : Shell σ :=
  { s with
    mem := Function.update s.mem (buffer + off) 0#8
    trace := .store buffer capacity off.toNat 1 :: s.trace }

end Shell

/-! ### The functions -/

/-- The directory `/` that `ramfs_init` puts into slot 0. -/
def rootFile : RamFile := ⟨FileName.root, NULL, 0#32, 0#32, 1#32, 0, true⟩

/-- The table that `ramfs_init` sets up. -/
def RamFs.initial : RamFs :=
  ⟨fun i => if i = 0 then rootFile else RamFile.zero, 1#32, 0, true⟩

/-- `ramfs_init`. -/
def ramfsInit (s : Shell σ) : Shell σ :=
  if s.ramfs.initialized then s else { s with ramfs := RamFs.initial }

/-- `ramfs_find_file`; `none` for -1. -/
def ramfsFindFile (name : CString) (parentDir : Fin 64) (fs : RamFs) : Option (Fin 64) :=
  (List.finRange 64).find? fun i =>
    (fs.files i).inUse && decide ((fs.files i).parentIndex = parentDir) &&
      decide (shellStrcmp (fs.files i).name.byte name = 0)

/-- `ramfs_find_free_slot`; `none` for -1. -/
def ramfsFindFreeSlot (fs : RamFs) : Option (Fin 64) :=
  (List.finRange 64).find? fun i => !(fs.files i).inUse

/-- The end of `ramfs_create`: the entry, its buffer in place, is put in use. -/
def linkFile (slot : Fin 64) (name : CString) (isDirectory : Word) (s : Shell σ) : Shell σ :=
  let s := s.setFile slot { s.file slot with
    isDirectory := isDirectory, parentIndex := s.ramfs.currentDir, inUse := true }
  { s with
    ramfs := { s.ramfs with fileCount := s.ramfs.fileCount + 1#32 }
    trace := .created slot name s.ramfs.currentDir :: s.trace }

/-- `ramfs_create`: the slot, or the negative code. -/
def ramfsCreate (S : SysCalls σ) (name : CString) (isDirectory : Word) (s : Shell σ) :
    Except Word (Fin 64) × Shell σ :=
  let s := ramfsInit s
  match ramfsFindFile name s.ramfs.currentDir s.ramfs with
  | some _ => (.error (-1#32), s)
  | none =>
      match ramfsFindFreeSlot s.ramfs with
      | none => (.error (-2#32), s)
      | some slot =>
          let s := s.setFile slot { s.file slot with name := (s.file slot).name.assign name }
          if isDirectory = 0#32 then
            let r := s.malloc S 256#32
            let s := r.2.setFile slot { r.2.file slot with data := r.1 }
            if r.1 = NULL then (.error (-3#32), s)
            else
              let s := s.setFile slot { s.file slot with capacity := 256#32, size := 0#32 }
              (.ok slot, linkFile slot name isDirectory (s.storeNul r.1 256#32 0#32))
          else
            let s := s.setFile slot { s.file slot with
              data := NULL, capacity := 0#32, size := 0#32 }
            (.ok slot, linkFile slot name isDirectory s)

/-- The directory in slot `i` holds an entry. -/
def hasEntry (i : Fin 64) (fs : RamFs) : Bool :=
  (List.finRange 64).any fun j => (fs.files j).inUse && decide ((fs.files j).parentIndex = i)

/-- `ramfs_delete`. -/
def ramfsDelete (S : SysCalls σ) (name : CString) (s : Shell σ) : Word × Shell σ :=
  match ramfsFindFile name s.ramfs.currentDir s.ramfs with
  | none => (-1#32, s)
  | some i =>
      if (s.file i).isDirectory ≠ 0#32 ∧ hasEntry i s.ramfs then (-2#32, s)
      else
        let s := if (s.file i).data = NULL then s else s.free S (s.file i).data
        let s := s.setFile i RamFile.zero
        (0#32, { s with
          ramfs := { s.ramfs with fileCount := s.ramfs.fileCount - 1#32 }
          trace := .deleted i :: s.trace })

/-- The first part of `ramfs_write_file`: the file of the name, created if there is none. -/
def findOrCreate (S : SysCalls σ) (name : CString) (s : Shell σ) :
    Except Word (Fin 64) × Shell σ :=
  match ramfsFindFile name s.ramfs.currentDir s.ramfs with
  | some i => (.ok i, s)
  | none => ramfsCreate S name 0#32 s

/-- The growth of a buffer in `ramfs_write_file`, to the next multiple of 256; `false` if there
is no memory for it. -/
def expandBuffer (S : SysCalls σ) (i : Fin 64) (size : Word) (s : Shell σ) : Bool × Shell σ :=
  let file := s.file i
  if file.capacity < size then
    let newCapacity := (size + 255#32) / 256#32 * 256#32
    let r := s.malloc S newCapacity
    if r.1 = NULL then (false, r.2)
    else
      let s :=
        if file.data = NULL then r.2
        else (r.2.copyOver r.1 newCapacity file.data file.size).free S file.data
      (true, s.setFile i { file with data := r.1, capacity := newCapacity })
  else (true, s)

/-- The end of `ramfs_write_file`: the data and, unless it is empty, a NUL behind it. -/
def fillFile (i : Fin 64) (data : ℕ → Byte) (size : Word) (s : Shell σ) : Shell σ :=
  let file := s.file i
  let s := (s.copyIn file.data file.capacity data size).setFile i { file with size := size }
  if 0#32 < size then s.storeNul file.data file.capacity size else s

/-- `ramfs_write_file`. -/
def ramfsWriteFile (S : SysCalls σ) (name : CString) (data : ℕ → Byte) (size : Word)
    (s : Shell σ) : Word × Shell σ :=
  match findOrCreate S name s with
  | (.error code, s) => (code, s)
  | (.ok i, s) =>
      if (s.file i).isDirectory ≠ 0#32 then (-1#32, s)
      else
        match expandBuffer S i size s with
        | (false, s) => (-3#32, s)
        | (true, s) => (size, fillFile i data size s)

/-- `ramfs_read_file`: the result, and the bytes it delivers to the caller's buffer. -/
def ramfsReadFile (name : CString) (bufferSize : Word) (s : Shell σ) : Word × List Byte :=
  match ramfsFindFile name s.ramfs.currentDir s.ramfs with
  | none => (-1#32, [])
  | some i =>
      let file := s.file i
      if file.isDirectory ≠ 0#32 then (-2#32, [])
      else
        let toRead := if file.size < bufferSize then file.size else bufferSize
        (toRead, (List.range toRead.toNat).map fun k => s.mem (file.data + BitVec.ofNat 32 k))

/-- The name of the parent directory in a path. -/
def dotDot : CString := ⟨ascii "..", by decide⟩

/-- The name of the root directory. -/
def slash : CString := ⟨ascii "/", by decide⟩

/-- `cmd_cd`; `target` is the argument, `none` if there is none. -/
def cmdCd (target : Option CString) (s : Shell σ) : Word × Shell σ :=
  let s := ramfsInit s
  match target with
  | none => (0#32, s)
  | some target =>
      if shellStrcmp target.byte dotDot = 0 then
        if s.ramfs.currentDir ≠ 0 then
          (0#32, s.setDir (s.file s.ramfs.currentDir).parentIndex)
        else (0#32, s)
      else if shellStrcmp target.byte slash = 0 then (0#32, s.setDir 0)
      else
        match ramfsFindFile target s.ramfs.currentDir s.ramfs with
        | none => (1#32, s)
        | some i => if (s.file i).isDirectory = 0#32 then (1#32, s) else (0#32, s.setDir i)

/-! ### Calls -/

/-- A call of the file system. -/
inductive RamFsCall
  | create (name : CString) (isDirectory : Word)
  | delete (name : CString)
  | write (name : CString) (data : ℕ → Byte) (size : Word)
  | read (name : CString) (bufferSize : Word)
  | cd (target : Option CString)

/-- What `ramfs_create` returns. -/
def createCode : Except Word (Fin 64) → Word
  | .error code => code
  | .ok slot => BitVec.ofNat 32 slot

namespace Shell

/-- A call: its result, and the state it leaves. -/
def call (S : SysCalls σ) (s : Shell σ) : RamFsCall → Word × Shell σ
  | .create name isDirectory =>
      let r := ramfsCreate S name isDirectory s
      (createCode r.1, r.2)
  | .delete name => ramfsDelete S name s
  | .write name data size => ramfsWriteFile S name data size s
  | .read name bufferSize => ((ramfsReadFile name bufferSize s).1, s)
  | .cd target => cmdCd target s

/-- A call as a step; every call returns. -/
def step (S : SysCalls σ) (s : Shell σ) (c : RamFsCall) : Option (Shell σ) := some (s.call S c).2

end Shell

/-- A state that `ramfs_init` has just set up. -/
def Shell.Started (s : Shell σ) : Prop :=
  ∃ s₀ : Shell σ, s₀.ramfs.initialized = false ∧ s₀.trace = [] ∧ s = ramfsInit s₀

end MiqOSoft
