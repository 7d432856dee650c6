import MiqOSoft.Machine.Memory

/-!
`memory.c`, the same text in the kernel and in the boot loader's second stage.

The length parameters of `memcpy` and `memcmp` are 16 bits wide, so a caller's 32-bit length
is reduced modulo `2^16` when the call is made (`len16`).
-/

namespace MiqOSoft

open Machine

/-- `memcpy`: a forward byte copy. -/
def memcpy (dst src : Addr) (num : BitVec 16) (m : Memory) : Memory :=
  copyBytes dst src num.toNat m

/-- `memset`: the byte is the low byte of `c`, the length a full word. -/
def memset (s : Addr) (c n : Word) (m : Memory) : Memory :=
  fillBytes s (c.setWidth 8) n.toNat m

/-- The conversion of a 32-bit length to the `uint16_t` parameter of `memcpy`. -/
def len16 (n : Word) : BitVec 16 := n.setWidth 16

@[simp] lemma toNat_len16 (n : Word) : (len16 n).toNat = n.toNat % 65536 := by
  simp [len16]

end MiqOSoft
