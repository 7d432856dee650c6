import MiqOSoft.Common.Strings
import MiqOSoft.Kernel.Heap

/-!
The virtual file system of `syscall.c`: `vfs_init`, `syscall_initialize`, and the handlers
`sys_handler_open`, `sys_handler_read`, `sys_handler_write` and `sys_handler_close`.

The tables `virtual_files` and `file_descriptors` are kept apart from the flat memory, which
holds the heap, the two string literals `vfs_init` installs and the callers' buffers.  A table
entry has the byte image of its C structure, since `strcpy` can run over the end of a name
into the fields behind it.  The memory operations of the handlers are also written down in a
trace, newest first.
-/

namespace MiqOSoft

open Machine

/-- `SYSCALL_PERMISSION_DENIED`. -/
def SYSCALL_PERMISSION_DENIED : Word := -4#32

/-- `SYSCALL_NOT_FOUND`. -/
def SYSCALL_NOT_FOUND : Word := -5#32

/-- `SYSCALL_OUT_OF_MEMORY`. -/
def SYSCALL_OUT_OF_MEMORY : Word := -6#32

/-- `OPEN_WRITE`. -/
def OPEN_WRITE : Word := 0x02#32

/-- `OPEN_CREATE`. -/
def OPEN_CREATE : Word := 0x04#32

/-- `OPEN_TRUNCATE`. -/
def OPEN_TRUNCATE : Word := 0x08#32

/-- `OPEN_APPEND`. -/
def OPEN_APPEND : Word := 0x10#32

/-- A flag is set in `flags`. -/
def hasFlag (flags flag : Word) : Bool := flags &&& flag ≠ 0#32

/-! ### The installed files -/

/-- The name of the first file `vfs_init` installs. -/
def welcomeName : CString := ⟨ascii "welcome.txt", by decide⟩

/-- The contents of the first file `vfs_init` installs. -/
def welcomeText : CString :=
  ⟨ascii "Welcome to MiqOSoft!\nThis is a virtual file system.\n", by decide⟩

/-- The name of the second file `vfs_init` installs. -/
def infoName : CString := ⟨ascii "info.txt", by decide⟩

/-- The contents of the second file `vfs_init` installs. -/
def infoText : CString :=
  ⟨ascii "System calls are working!\nYou can use the syscall interface.\n", by decide⟩

/-! ### The tables -/

/-- `vfile_t`. -/
structure VFile where
  name : Fin 64 → Byte
  data : Addr
  size : Word
  capacity : Word
  isDirectory : Word
  inUse : Word

/-- A zeroed `vfile_t`. -/
def VFile.zero : VFile := ⟨fun _ => 0#8, NULL, 0#32, 0#32, 0#32, 0#32⟩

/-- Byte `o` of the 84 bytes of a `vfile_t`. -/
def VFile.byte (f : VFile) (o : ℕ) : Byte :=
  if h : o < 64 then f.name ⟨o, h⟩
  else if o < 68 then wordByte f.data (o - 64)
  else if o < 72 then wordByte f.size (o - 68)
  else if o < 76 then wordByte f.capacity (o - 72)
  else if o < 80 then wordByte f.isDirectory (o - 76)
  else wordByte f.inUse (o - 80)

/-- The `vfile_t` of a byte image. -/
def VFile.ofBytes (b : ℕ → Byte) : VFile :=
  ⟨fun k => b k, wordAt b 64, wordAt b 68, wordAt b 72, wordAt b 76, wordAt b 80⟩

/-- `file_descriptor_t`; `file` is an entry of the file table, or the null pointer. -/
structure FileDescriptor where
  file : Option (Fin 32)
  position : Word
  flags : Word
  inUse : Word

/-- A zeroed `file_descriptor_t`. -/
def FileDescriptor.zero : FileDescriptor := ⟨none, 0#32, 0#32, 0#32⟩

/-- `virtual_files`. -/
abbrev FileTable := Fin 32 → VFile

/-- Byte `k` of the file table. -/
def FileTable.byte (t : FileTable) (k : ℕ) : Byte :=
  if h : k / 84 < 32 then (t ⟨k / 84, h⟩).byte (k % 84) else 0#8

/-- The characters at `virtual_files[i].name`, running on into the table behind it. -/
def FileTable.nameAt (t : FileTable) (i : Fin 32) (k : ℕ) : Byte := t.byte (84 * i + k)

/-- `strcpy(virtual_files[i].name, path)`: however long the path is, it is copied with its
terminator over the table; `none` if the copy leaves the table. -/
def FileTable.strcpyName (t : FileTable) (i : Fin 32) (path : CString) : Option FileTable :=
  if 84 * (i : ℕ) + path.chars.length < 2688 then
    some fun j => VFile.ofBytes fun o =>
      if 84 * (i : ℕ) ≤ 84 * j + o ∧ 84 * j + o ≤ 84 * i + path.chars.length then
        path.byte (84 * j + o - 84 * i)
      else (t j).byte o
  else none

/-! ### The kernel state -/

/-- A memory operation of a handler: a request and its result, a release, or a copy with its
destination and the number of bytes stored. -/
inductive Event
  | malloc (size : Word) (ptr : Addr)
  | free (ptr : Addr)
  | copy (dst : Addr) (num : ℕ)
deriving DecidableEq

/-- The memory with the heap, the two tables and `fs_initialized`, and the trace. -/
structure Kernel where
  heap : Heap
  virtualFiles : FileTable
  fileDescriptors : Fin 32 → FileDescriptor
  fsInitialized : Bool
  trace : List Event

/-- The addresses of the two string literals that `vfs_init` installs as file contents.  They
lie in the kernel image, which is loaded at `0x100000` and ends below the heap. -/
structure Rodata where
  welcome : Addr
  info : Addr
  welcome_bounds : 0x100000 ≤ welcome.toNat ∧ welcome.toNat + 53 ≤ 0x400000
  info_bounds : 0x100000 ≤ info.toNat ∧ info.toNat + 62 ≤ 0x400000
  apart : welcome.toNat + 53 ≤ info.toNat ∨ info.toNat + 62 ≤ welcome.toNat

namespace Kernel

/-- The memory. -/
abbrev mem (k : Kernel) : Memory := k.heap.mem

/-- `virtual_files[i] = f`. -/
def setFile (k : Kernel) (i : Fin 32) (f : VFile) : Kernel :=
  { k with virtualFiles := Function.update k.virtualFiles i f }

/-- `file_descriptors[d] = desc`. -/
def setFd (k : Kernel) (d : Fin 32) (desc : FileDescriptor) : Kernel :=
  { k with fileDescriptors := Function.update k.fileDescriptors d desc }

/-- A call of `sys_handler_malloc`. -/
def malloc (size : Word) (k : Kernel) : Option (Addr × Kernel) :=
  (sysHandlerMalloc size k.heap).map fun r =>
    (r.1, { k with heap := r.2, trace := .malloc size r.1 :: k.trace })

/-- A call of `sys_handler_free`. -/
def free (ptr : Addr) (k : Kernel) : Option (Word × Kernel) :=
  (sysHandlerFree ptr k.heap).map fun r =>
    (r.1, { k with heap := r.2, trace := .free ptr :: k.trace })

/-- A call of `memcpy`, whose length parameter is 16 bits wide. -/
def memcpy (dst src : Addr) (num : Word) (k : Kernel) : Kernel :=
  { k with
    heap := { k.heap with mem := MiqOSoft.memcpy dst src (len16 num) k.mem }
    trace := .copy dst (len16 num).toNat :: k.trace }

end Kernel

/-! ### Initialisation -/

/-- A file that `vfs_init` installs over a literal. -/
def literalFile (name text : CString) (data : Addr) : VFile where
  name k := name.byte k
  data := data
  size := text.strlen
  capacity := text.strlen
  isDirectory := 0#32
  inUse := 1#32

/-- The file table that `vfs_init` sets up: two files over string literals. -/
def installedFiles (L : Rodata) : FileTable := fun i =>
  if i = 0 then literalFile welcomeName welcomeText L.welcome
  else if i = 1 then literalFile infoName infoText L.info
  else VFile.zero

/-- `vfs_init`, unless the file system is set up already. -/
def vfsInit (L : Rodata) (k : Kernel) : Kernel :=
  if k.fsInitialized then k
  else
    { k with
      virtualFiles := installedFiles L
      fileDescriptors := fun _ => FileDescriptor.zero
      fsInitialized := true }

/-- `syscall_initialize`, as far as the heap and the file system go. -/
def syscallInitialize (L : Rodata) (k : Kernel) : Kernel :=
  vfsInit L { k with heap := heapInit k.heap }

/-! ### The handlers -/

/-- The `to_read` of `sys_handler_read`: the count, or what the file has left at the position. -/
def toRead (file : VFile) (position count : Word) : Word :=
  if file.size < position + count then file.size - position else count

/-- `sys_handler_read`. -/
def sysHandlerRead (fd : Word) (buffer : Addr) (count : Word) (k : Kernel) : Word × Kernel :=
  if h : fd.toNat < 32 then
    let desc := k.fileDescriptors ⟨fd.toNat, h⟩
    if desc.inUse = 0#32 then (SYSCALL_INVALID_PARAMS, k)
    else
      match desc.file with
      | none => (SYSCALL_INVALID_PARAMS, k)
      | some i =>
          if buffer = NULL then (SYSCALL_INVALID_PARAMS, k)
          else
            let file := k.virtualFiles i
            let n := toRead file desc.position count
            let k := k.memcpy buffer (file.data + desc.position) n
            (n, k.setFd ⟨fd.toNat, h⟩ { desc with position := desc.position + n })
  else (SYSCALL_INVALID_PARAMS, k)

/-- The search for a file of the given name. -/
def findFile (path : CString) (k : Kernel) : Option (Fin 32) :=
  (List.finRange 32).find? fun i =>
    decide ((k.virtualFiles i).inUse ≠ 0#32 ∧
      strcmp (k.virtualFiles.nameAt i) path.chars = 0)

/-- The search for a free entry of the file table. -/
def freeSlot (k : Kernel) : Option (Fin 32) :=
  (List.finRange 32).find? fun i => decide ((k.virtualFiles i).inUse = 0#32)

/-- The search for a free descriptor; 0, 1 and 2 are the console's. -/
def freeFd (k : Kernel) : Option (Fin 32) :=
  (List.finRange 32).find? fun d => decide (3 ≤ d ∧ (k.fileDescriptors d).inUse = 0#32)

/-- The buffer of a file that is created in entry `i`: 256 bytes are requested, and with them
the entry is put in use; `none` as entry if there are none. -/
def initialBuffer (i : Fin 32) (k : Kernel) : Option (Option (Fin 32) × Kernel) :=
  (k.malloc 256#32).map fun r =>
    let k := r.2.setFile i { r.2.virtualFiles i with data := r.1 }
    if r.1 = NULL then (none, k)
    else
      (some i, k.setFile i { k.virtualFiles i with
        size := 0#32, capacity := 256#32, isDirectory := 0#32, inUse := 1#32 })

/-- The creation of a file in the free entry `i`: the name is copied, then a buffer requested. -/
def createFile (i : Fin 32) (path : CString) (k : Kernel) : Option (Option (Fin 32) × Kernel) :=
  (k.virtualFiles.strcpyName i path).bind fun t => initialBuffer i { k with virtualFiles := t }

/-- The opening of a free descriptor on the file `i`. -/
def openFd (i : Fin 32) (flags : Word) (k : Kernel) : Word × Kernel :=
  match freeFd k with
  | none => (SYSCALL_OUT_OF_MEMORY, k)
  | some d =>
      let file := k.virtualFiles i
      let position := if hasFlag flags OPEN_APPEND then file.size else 0#32
      let k := k.setFd d ⟨some i, position, flags, 1#32⟩
      let k :=
        if hasFlag flags OPEN_TRUNCATE then
          (k.setFile i { file with size := 0#32 }).setFd d ⟨some i, 0#32, flags, 1#32⟩
        else k
      (BitVec.ofNat 32 d, k)

/-- `sys_handler_open`; `path` is the string at the path pointer, `none` for the null pointer. -/
def sysHandlerOpen (L : Rodata) (path : Option CString) (flags : Word) (k : Kernel) :
    Option (Word × Kernel) :=
  match path with
  | none => some (SYSCALL_INVALID_PARAMS, k)
  | some path =>
      let k := vfsInit L k
      match findFile path k with
      | some i => some (openFd i flags k)
      | none =>
          if hasFlag flags OPEN_CREATE then
            match freeSlot k with
            | none => some (SYSCALL_NOT_FOUND, k)
            | some i =>
                (createFile i path k).map fun r =>
                  match r.1 with
                  | none => (SYSCALL_OUT_OF_MEMORY, r.2)
                  | some i => openFd i flags r.2
          else some (SYSCALL_NOT_FOUND, k)

/-- `sys_handler_close`. -/
def sysHandlerClose (fd : Word) (k : Kernel) : Word × Kernel :=
  if h : fd.toNat < 32 then
    if (k.fileDescriptors ⟨fd.toNat, h⟩).inUse = 0#32 then (SYSCALL_INVALID_PARAMS, k)
    else (SYSCALL_OK, k.setFd ⟨fd.toNat, h⟩ FileDescriptor.zero)
  else (SYSCALL_INVALID_PARAMS, k)

/-- The growth of the buffer of the file `i` in `sys_handler_write` to at least `needed` bytes:
a new buffer is requested, the contents are copied and the old buffer is released; `false` if
there is no new buffer. -/
def growBuffer (i : Fin 32) (needed : Word) (k : Kernel) : Option (Bool × Kernel) :=
  let file := k.virtualFiles i
  if file.capacity < needed then
    let newCapacity := (needed + 255#32) &&& ~~~255#32
    (k.malloc newCapacity).bind fun r =>
      if r.1 = NULL then some (false, r.2)
      else
        ((r.2.memcpy r.1 file.data file.size).free file.data).map fun q =>
          (true, q.2.setFile i { file with data := r.1, capacity := newCapacity })
  else some (true, k)

/-- The store of `sys_handler_write`: the buffer is copied to the descriptor's position in the
file, and the position and the size are moved on. -/
def overlay (d i : Fin 32) (buffer : Addr) (count : Word) (k : Kernel) : Kernel :=
  let desc := k.fileDescriptors d
  let file := k.virtualFiles i
  let k := k.memcpy (file.data + desc.position) buffer count
  let position := desc.position + count
  let k := k.setFd d { desc with position := position }
  if file.size < position then k.setFile i { file with size := position } else k

/-- `sys_handler_write`. -/
def sysHandlerWrite (fd : Word) (buffer : Addr) (count : Word) (k : Kernel) :
    Option (Word × Kernel) :=
  if h : fd.toNat < 32 then
    if buffer = NULL ∨ count = 0#32 then some (SYSCALL_INVALID_PARAMS, k)
    else if fd = 1#32 ∨ fd = 2#32 then some (count, k)
    else
      let desc := k.fileDescriptors ⟨fd.toNat, h⟩
      if desc.inUse = 0#32 then some (SYSCALL_INVALID_PARAMS, k)
      else
        match desc.file with
        | none => some (SYSCALL_PERMISSION_DENIED, k)
        | some i =>
            if hasFlag desc.flags OPEN_WRITE then
              (growBuffer i (desc.position + count) k).map fun r =>
                if r.1 then (count, overlay ⟨fd.toNat, h⟩ i buffer count r.2)
                else (SYSCALL_OUT_OF_MEMORY, r.2)
            else some (SYSCALL_PERMISSION_DENIED, k)
  else some (SYSCALL_INVALID_PARAMS, k)

end MiqOSoft
