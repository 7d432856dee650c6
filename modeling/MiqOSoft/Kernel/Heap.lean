import MiqOSoft.Common.Memory

/-!
The kernel heap of `syscall.c`: `heap_init`, `sys_handler_malloc` and `sys_handler_free`.

The heap is a singly linked list of blocks threaded through the memory it manages.  A block
is a 12-byte header, the words `size`, `is_free` and `next`, followed by `size` payload bytes.
The handlers walk the list by its pointers; a walk is given `heapFuel` steps, more than a
list without a cycle can have nodes, so that `none` stands for a walk that never ends.
-/

namespace MiqOSoft

open Machine

/-- The null pointer. -/
def NULL : Addr := 0#32

/-- First address of the heap. -/
def HEAP_START : Word := 0x400000#32

/-- Length of the heap. -/
def HEAP_SIZE : Word := 0x100000#32

/-- Grain of the requests. -/
def BLOCK_SIZE : Word := 32#32

/-- `sizeof(heap_block_t)`. -/
def sizeofHeapBlock : Word := 12#32

/-- `SYSCALL_OK`. -/
def SYSCALL_OK : Word := 0#32

/-- `SYSCALL_INVALID_PARAMS`. -/
def SYSCALL_INVALID_PARAMS : Word := -3#32

/-! ### Block headers in memory -/

/-- `block->size`. -/
def blockSize (m : Memory) (block : Addr) : Word := load32 m block

/-- `block->is_free`. -/
def blockIsFree (m : Memory) (block : Addr) : Word := load32 m (block + 4#32)

/-- `block->next`. -/
def blockNext (m : Memory) (block : Addr) : Addr := load32 m (block + 8#32)

/-- `block->size = v`. -/
def setSize (m : Memory) (block : Addr) (v : Word) : Memory := store32 m block v

/-- `block->is_free = v`. -/
def setIsFree (m : Memory) (block : Addr) (v : Word) : Memory := store32 m (block + 4#32) v

/-- `block->next = v`. -/
def setNext (m : Memory) (block : Addr) (v : Addr) : Memory := store32 m (block + 8#32) v

/-! ### The heap and its handlers -/

/-- The memory, and the statics `heap_start` and `heap_initialized`. -/
structure Heap where
  mem : Memory
  heapStart : Addr
  heapInitialized : Bool

/-- Steps granted to a walk of the block list: a list that ends has at most `2^32` nodes. -/
def heapFuel : ℕ := 2 ^ 32 + 1

/-- `heap_init`: one free block over the whole heap, unless the heap is set up already. -/
def heapInit (k : Heap) : Heap :=
  if k.heapInitialized then k
  else
    let m := setSize k.mem HEAP_START (HEAP_SIZE - sizeofHeapBlock)
    let m := setIsFree m HEAP_START 1#32
    let m := setNext m HEAP_START NULL
    { mem := m, heapStart := HEAP_START, heapInitialized := true }

/-- The rounding of a request to a multiple of `BLOCK_SIZE`, in 32-bit arithmetic. -/
def alignSize (size : Word) : Word := (size + BLOCK_SIZE - 1#32) &&& ~~~(BLOCK_SIZE - 1#32)

/-- Taking the free block `current` for a request of `size` bytes: it is marked used, and
split if it is much larger than the request. -/
def takeBlock (size : Word) (current : Addr) (m : Memory) : Memory :=
  let m := setIsFree m current 0#32
  if size + sizeofHeapBlock + BLOCK_SIZE < blockSize m current then
    let newBlock := current + sizeofHeapBlock + size
    let m := setSize m newBlock (blockSize m current - size - sizeofHeapBlock)
    let m := setIsFree m newBlock 1#32
    let m := setNext m newBlock (blockNext m current)
    let m := setNext m current newBlock
    setSize m current size
  else m

/-- The search loop of `sys_handler_malloc`. -/
def mallocLoop (size : Word) : ℕ → Addr → Memory → Option (Addr × Memory)
  | 0, _, _ => none
  | fuel + 1, current, m =>
      if current = NULL then some (NULL, m)
      else if blockIsFree m current ≠ 0#32 ∧ size ≤ blockSize m current then
        some (current + sizeofHeapBlock, takeBlock size current m)
      else mallocLoop size fuel (blockNext m current) m

/-- `sys_handler_malloc`: the payload address of a block, or `NULL`. -/
def sysHandlerMalloc (size : Word) (k : Heap) : Option (Addr × Heap) :=
  let k := heapInit k
  if size = 0#32 then some (NULL, k)
  else
    (mallocLoop (alignSize size) heapFuel k.heapStart k.mem).map
      fun r => (r.1, { k with mem := r.2 })

/-- The merge loop of `sys_handler_free`: while `current` and its successor are both free, the
successor is absorbed; otherwise the walk moves on. -/
def mergeLoop : ℕ → Addr → Memory → Option Memory
  | 0, _, _ => none
  | fuel + 1, current, m =>
      if current = NULL ∨ blockNext m current = NULL then some m
      else
        let next := blockNext m current
        if blockIsFree m current ≠ 0#32 ∧ blockIsFree m next ≠ 0#32 then
          let m := setSize m current
            (blockSize m current + (blockSize m next + sizeofHeapBlock))
          let m := setNext m current (blockNext m (blockNext m current))
          mergeLoop fuel current m
        else mergeLoop fuel next m

/-- `sys_handler_free`: the block in front of `ptr` is marked free, whatever `ptr` is. -/
def sysHandlerFree (ptr : Addr) (k : Heap) : Option (Word × Heap) :=
  if ptr = NULL ∨ k.heapInitialized = false then some (SYSCALL_INVALID_PARAMS, k)
  else
    let block := ptr - sizeofHeapBlock
    let m := setIsFree k.mem block 1#32
    (mergeLoop heapFuel k.heapStart m).map fun m => (SYSCALL_OK, { k with mem := m })

/-! ### Reading the list -/

/-- A block of the list as the walk finds it. -/
structure Block where
  addr : Addr
  size : Word
  isFree : Word
  next : Addr
deriving DecidableEq

/-- First address of the payload. -/
def Block.payload (b : Block) : Addr := b.addr + sizeofHeapBlock

/-- The blocks met when the list is followed from `current` on. -/
def blocksFrom : ℕ → Addr → Memory → Option (List Block)
  | 0, _, _ => none
  | fuel + 1, current, m =>
      if current = NULL then some []
      else
        (blocksFrom fuel (blockNext m current) m).map fun bs =>
          ⟨current, blockSize m current, blockIsFree m current, blockNext m current⟩ :: bs

/-- The block list of the heap; `none` if it does not end. -/
def Heap.blocks (k : Heap) : Option (List Block) := blocksFrom heapFuel k.heapStart k.mem

end MiqOSoft
