import MiqOSoft.Machine.Memory

/-!
The descriptors of an IA-32 in protected mode, as the processor reads them.

* `Segment.ofBits`, `Gate.ofBits`: the fields of the eight bytes of a descriptor.
* `Segment.limitBytes`, `linear`: the last offset of a segment, and the linear address of an offset
  in the segment that a selector names.
* `vectorTarget`: where an interrupt leads to, through the two tables.
-/

namespace Machine

/-- A descriptor, its eight bytes read as one number. -/
abbrev Descriptor := BitVec 64

/-- A segment: its base, its limit of 20 bits, the access byte and the four flags. -/
structure Segment where
  base : Word
  limit : BitVec 20
  access : Byte
  flags : BitVec 4
deriving DecidableEq

/-- The segment of a descriptor. -/
def Segment.ofBits (d : Descriptor) : Segment where
  base := d.extractLsb' 56 8 ++ d.extractLsb' 16 24
  limit := d.extractLsb' 48 4 ++ d.extractLsb' 0 16
  access := d.extractLsb' 40 8
  flags := d.extractLsb' 52 4

namespace Segment

/-- The segment is present. -/
def present (s : Segment) : Bool := s.access.getLsbD 7

/-- The segment holds code: it is no system segment and executable. -/
def code (s : Segment) : Bool := s.access.getLsbD 4 && s.access.getLsbD 3

/-- The last offset of the segment: the limit counts bytes or, with the granularity flag, pages. -/
def limitBytes (s : Segment) : Word :=
  if s.flags.getLsbD 3 then s.limit ++ 0xFFF#12 else s.limit.setWidth 32

end Segment

/-- A gate of the interrupt descriptor table. -/
structure Gate where
  offset : Addr
  selector : BitVec 16
  type : BitVec 4
  dpl : BitVec 2
  present : Bool
deriving DecidableEq

/-- The gate of a descriptor. -/
def Gate.ofBits (d : Descriptor) : Gate where
  offset := d.extractLsb' 48 16 ++ d.extractLsb' 0 16
  selector := d.extractLsb' 16 16
  type := d.extractLsb' 40 4
  dpl := d.extractLsb' 45 2
  present := d.getLsbD 47

/-- The type of a 32-bit interrupt gate. -/
def interruptGate : BitVec 4 := 0xE#4

/-- The descriptor that a selector names in a table. -/
def selected (gdt : List Descriptor) (selector : BitVec 16) : Option Descriptor :=
  gdt[(selector >>> 3).toNat]?

/-- The linear address of an offset in the segment of a selector; `none` if the segment is not
there or the offset lies behind its end. -/
def linear (gdt : List Descriptor) (selector : BitVec 16) (offset : Addr) : Option Addr :=
  match (selected gdt selector).map Segment.ofBits with
  | none => none
  | some s => if s.present ∧ offset ≤ s.limitBytes then some (s.base + offset) else none

/-- The linear address at which an interrupt is taken: its gate must be present and an interrupt
gate, and the segment of the gate must hold code. -/
def vectorTarget (gdt : List Descriptor) (idt : Fin 256 → Descriptor) (v : Fin 256) :
    Option Addr :=
  let gate := Gate.ofBits (idt v)
  match (selected gdt gate.selector).map Segment.ofBits with
  | none => none
  | some s =>
      if gate.present ∧ gate.type = interruptGate ∧ s.code then
        linear gdt gate.selector gate.offset
      else none

end Machine
