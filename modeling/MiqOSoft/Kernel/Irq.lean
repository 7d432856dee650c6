import MiqOSoft.Kernel.Gates
import MiqOSoft.Kernel.I8259
import MiqOSoft.Machine.InterruptController

/-!
The interrupts of the devices: `irq.c` over the driver `i8259.c` and the tables of `isr.c`.

* `setMaskWrites`, `configureWrites`, `endOfInterruptWrites`: what the driver writes to the ports.
* `IrqSystem`: the kernel's tables and the pair of controllers; `IrqEvent`: a request of a device,
  an interrupt that the processor takes, or a call of the driver, in any order.
* `IrqLines`: the same system without controllers: which lines are requested and masked.
* `irq_refines`: behind `i686_IRQ_Initialize`, every order of events does to the controllers what it
  does to the lines: each interrupt calls the handler of the first line that is requested and not
  masked, and leaves nothing in service.
-/

namespace MiqOSoft

open Machine

/-- A controller has an input, so that numbers stand for them. -/
local instance neZero_irqInputs : NeZero 8 := ⟨by decide⟩

/-- The pair has a line, so that numbers stand for them. -/
local instance neZero_irqLines : NeZero 16 := ⟨by decide⟩

/-- There is a vector, so that numbers stand for them. -/
local instance neZero_irqVectors : NeZero 256 := ⟨by decide⟩

/-! ### The driver's writes -/

/-- A byte for a port. -/
abbrev PortWrite := BitVec 16 × Byte

/-- A byte is written to a port of the controllers, or to another one, which nothing is at. -/
def Controllers.outb (w : PortWrite) (p : Controllers) : Controllers :=
  if w.1 = PIC1_COMMAND_PORT then { p with master := p.master.command w.2 }
  else if w.1 = PIC1_DATA_PORT then { p with master := p.master.data w.2 }
  else if w.1 = PIC2_COMMAND_PORT then { p with slave := p.slave.command w.2 }
  else if w.1 = PIC2_DATA_PORT then { p with slave := p.slave.data w.2 }
  else p

/-- Some writes, one after the other. -/
def Controllers.outbs (ws : List PortWrite) (p : Controllers) : Controllers :=
  ws.foldl (fun p w => Controllers.outb w p) p

/-- The writes of `i8259_SetMask`, with those of `i686_iowait`. -/
def setMaskWrites (newMask : BitVec 16) : List PortWrite :=
  [(PIC1_DATA_PORT, newMask.setWidth 8), (0x80#16, 0#8),
    (PIC2_DATA_PORT, (newMask >>> 8).setWidth 8), (0x80#16, 0#8)]

/-- A word of the initialisation to each of the controllers. -/
def wordWrites (port1 port2 : BitVec 16) (value1 value2 : Byte) : List PortWrite :=
  [(port1, value1), (0x80#16, 0#8), (port2, value2), (0x80#16, 0#8)]

/-- The writes of `i8259_Configure`. -/
def configureWrites (offsetPic1 offsetPic2 : Byte) (autoEoi : Bool) : List PortWrite :=
  let icw4 := if autoEoi then 0x03#8 else 0x01#8
  setMaskWrites 0xFFFF#16 ++
    wordWrites PIC1_COMMAND_PORT PIC2_COMMAND_PORT 0x11#8 0x11#8 ++
    wordWrites PIC1_DATA_PORT PIC2_DATA_PORT offsetPic1 offsetPic2 ++
    wordWrites PIC1_DATA_PORT PIC2_DATA_PORT 0x04#8 0x02#8 ++
    wordWrites PIC1_DATA_PORT PIC2_DATA_PORT icw4 icw4 ++
    setMaskWrites 0xFFFF#16

/-- `PIC_CMD_END_OF_INTERRUPT`. -/
def PIC_CMD_END_OF_INTERRUPT : Byte := 0x20#8

/-- The writes of `i8259_SendEndOfInterrupt`. -/
def endOfInterruptWrites (irq : ℕ) : List PortWrite :=
  (if 8 ≤ irq then [(PIC2_COMMAND_PORT, PIC_CMD_END_OF_INTERRUPT)] else []) ++
    [(PIC1_COMMAND_PORT, PIC_CMD_END_OF_INTERRUPT)]

/-! ### The system -/

/-- The vector of a line: `PIC_REMAP_OFFSET + i`. -/
def irqVector (i : Fin 16) : Fin 256 := Fin.ofNat 256 (0x20 + i)

/-- An entry of `g_ISRHandlers`: `i686_IRQ_Handler` or another function. -/
inductive IsrFunction (ι : Type*)
  | irqHandler
  | other (f : ι)

/-- The tables of `isr.c`, `g_IRQHandlers`, `g_Driver`, the driver's `g_PicMask`, the controllers
and what the handlers work on.  The lines for which `i686_IRQ_Handler` has run are written down, the
latest one first. -/
structure IrqSystem (ι κ : Type*) where
  tables : IsrTables (IsrFunction ι)
  irqHandlers : Fin 16 → Option ι
  driver : Bool
  picMask : BitVec 16
  controllers : Controllers
  world : κ
  served : List (Fin 16)

variable {ι κ : Type*}

namespace IrqSystem

/-- Bytes are written to ports. -/
def outs (ws : List PortWrite) (s : IrqSystem ι κ) : IrqSystem ι κ :=
  { s with controllers := Controllers.outbs ws s.controllers }

/-- `i8259_SetMask`. -/
def setMask (newMask : BitVec 16) (s : IrqSystem ι κ) : IrqSystem ι κ :=
  { s with picMask := newMask }.outs (setMaskWrites newMask)

/-- `i8259_GetMask`. -/
def getMask (s : IrqSystem ι κ) : BitVec 16 :=
  s.controllers.master.mask.setWidth 16 ||| s.controllers.slave.mask.setWidth 16 <<< 8

/-- `i8259_Configure`. -/
def configure (offsetPic1 offsetPic2 : Byte) (autoEoi : Bool) (s : IrqSystem ι κ) :
    IrqSystem ι κ :=
  { s with picMask := 0xFFFF#16 }.outs (configureWrites offsetPic1 offsetPic2 autoEoi)

/-- `i8259_Probe`. -/
def probe (s : IrqSystem ι κ) : Bool × IrqSystem ι κ :=
  let s := (s.setMask 0xFFFF#16).setMask 0x1337#16
  (s.getMask = 0x1337#16, s)

/-- `i8259_Mask`. -/
def mask (irq : ℕ) (s : IrqSystem ι κ) : IrqSystem ι κ := s.setMask (s.picMask ||| irqBit irq)

/-- `i8259_Unmask`. -/
def unmask (irq : ℕ) (s : IrqSystem ι κ) : IrqSystem ι κ :=
  s.setMask (s.picMask &&& ~~~irqBit irq)

/-- `keyboard_init`, as far as the controllers go. -/
def keyboardInit (s : IrqSystem ι κ) : IrqSystem ι κ :=
  s.outs [(0x21#16, s.controllers.master.mask &&& ~~~(1#8 <<< 1))]

/-- `i8259_SendEndOfInterrupt`. -/
def sendEndOfInterrupt (irq : ℕ) (s : IrqSystem ι κ) : IrqSystem ι κ :=
  s.outs (endOfInterruptWrites irq)

/-- `i686_IRQ_RegisterHandler`. -/
def i686IRQRegisterHandler (irq : Fin 16) (handler : ι) (s : IrqSystem ι κ) : IrqSystem ι κ :=
  { s with irqHandlers := Function.update s.irqHandlers irq (some handler) }

/-- `i686_IRQ_Handler`, where `run` is what a device's handler does; `none` if the vector is that of
no line, or there is no driver to be called. -/
def i686IRQHandler (run : ι → κ → κ) (interrupt : Word) (s : IrqSystem ι κ) :
    Option (IrqSystem ι κ) :=
  let irq := (interrupt - 0x20#32).toNat
  if h : irq < 16 then
    let world := match s.irqHandlers ⟨irq, h⟩ with
      | some f => run f s.world
      | none => s.world
    let s := { s with world := world, served := ⟨irq, h⟩ :: s.served }
    if s.driver then some (s.sendEndOfInterrupt irq) else none
  else none

/-- `i686_ISR_Handler`; `none` if the kernel panics. -/
def i686ISRHandler (run : ι → κ → κ) (interrupt : Fin 256) (s : IrqSystem ι κ) :
    Option (IrqSystem ι κ) :=
  match s.tables.handlers interrupt with
  | some .irqHandler => s.i686IRQHandler run (BitVec.ofNat 32 interrupt)
  | some (.other f) => some { s with world := run f s.world }
  | none => if 32 ≤ (interrupt : ℕ) then some s else none

/-- `i686_IRQ_Initialize`. -/
def i686IRQInitialize (s : IrqSystem ι κ) : IrqSystem ι κ :=
  let (found, s) := s.probe
  if found then
    let s := { s with driver := true }.configure 0x20#8 0x28#8 false
    { s with
      tables := (List.finRange 16).foldl
        (fun t i => t.i686ISRRegisterHandler (irqVector i) .irqHandler) s.tables }
  else s

/-- The processor takes an interrupt: it asks the controllers for the vector, and the stub that the
gate of the vector leads to calls `i686_ISR_Handler` with its own number. -/
def interrupt (isr : Fin 256 → Addr) (run : ι → κ → κ) (s : IrqSystem ι κ) :
    Option (IrqSystem ι κ) :=
  let (vector, controllers) := s.controllers.acknowledge
  let idt := fun v => (s.tables.idt v).bits
  let stub := (vectorTarget (g_GDT.map GDTEntry.bits) idt vector.toFin).bind (stubAt isr)
  stub.bind fun v => { s with controllers := controllers }.i686ISRHandler run v

end IrqSystem

/-- What can happen behind the initialisation. -/
inductive IrqEvent (ι : Type*)
  | raise (line : Fin 16)
  | interrupt
  | mask (irq : ℕ)
  | unmask (irq : ℕ)
  | keyboardInit
  | register (irq : Fin 16) (handler : ι)
  | syscallInitialize (handler : ι)

/-- An event. -/
def IrqSystem.step (isr : Fin 256 → Addr) (run : ι → κ → κ) (s : IrqSystem ι κ) :
    IrqEvent ι → Option (IrqSystem ι κ)
  | .raise line => some { s with controllers := s.controllers.raise line }
  | .interrupt => s.interrupt isr run
  | .mask irq => some (s.mask irq)
  | .unmask irq => some (s.unmask irq)
  | .keyboardInit => some s.keyboardInit
  | .register irq f => some (s.i686IRQRegisterHandler irq f)
  | .syscallInitialize f =>
      some { s with tables := s.tables.i686ISRRegisterHandler 0x80 (.other f) }

/-! ### The lines -/

/-- The system without its controllers: which lines are requested, what is masked, and the driver's
shadow of the masks. -/
structure IrqLines (ι κ : Type*) where
  requested : Fin 16 → Bool
  mask : BitVec 16
  picMask : BitVec 16
  handlers : Fin 16 → Option ι
  world : κ
  served : List (Fin 16)

namespace IrqLines

/-- There is a request at a line that is not masked.  Those from line 8 on are masked with line 2,
too. -/
def deliverable (l : IrqLines ι κ) (i : Fin 16) : Bool :=
  l.requested i && !l.mask.getLsbD i && !(decide (8 ≤ (i : ℕ)) && l.mask.getLsbD 2)

/-- The masks are set. -/
def setMask (m : BitVec 16) (l : IrqLines ι κ) : IrqLines ι κ := { l with mask := m, picMask := m }

/-- The handler of a line is called. -/
def call (run : ι → κ → κ) (i : Fin 16) (l : IrqLines ι κ) : IrqLines ι κ :=
  { l with
    world := match l.handlers i with
      | some f => run f l.world
      | none => l.world
    served := i :: l.served }

/-- An interrupt is taken: if there is a line to be served its request is taken back. -/
def interrupt (run : ι → κ → κ) (l : IrqLines ι κ) : IrqLines ι κ :=
  match priority.find? l.deliverable with
  | some i => { l with requested := Function.update l.requested i false }.call run i
  | none => l.call run 7

/-- An event. -/
def step (run : ι → κ → κ) (l : IrqLines ι κ) : IrqEvent ι → IrqLines ι κ
  | .raise line => { l with requested := Function.update l.requested line true }
  | .interrupt => l.interrupt run
  | .mask irq => l.setMask (l.picMask ||| irqBit irq)
  | .unmask irq => l.setMask (l.picMask &&& ~~~irqBit irq)
  | .keyboardInit => { l with mask := l.mask &&& ~~~irqBit 1 }
  | .register irq f => { l with handlers := Function.update l.handlers irq (some f) }
  | .syscallInitialize _ => l

/-- The system behind the initialisation: nothing is requested and everything is masked. -/
def start (handlers : Fin 16 → Option ι) (world : κ) (served : List (Fin 16)) : IrqLines ι κ where
  requested := fun _ => false
  mask := 0xFFFF#16
  picMask := 0xFFFF#16
  handlers := handlers
  world := world
  served := served

end IrqLines

/-! ### The controllers between two events -/

/-- The pair with nothing in service, as it was programmed. -/
def atRest (requested1 requested2 : Fin 8 → Bool) (m : BitVec 16) : Controllers where
  master := ⟨requested1, fun _ => false, m.setWidth 8, 0x20#8, .nothing, false⟩
  slave := ⟨requested2, fun _ => false, (m >>> 8).setWidth 8, 0x28#8, .nothing, false⟩

section Rest

variable {requested1 requested2 : Fin 8 → Bool} {m : BitVec 16}

lemma idle_atRest : (atRest requested1 requested2 m).Idle := ⟨fun _ => rfl, fun _ => rfl⟩

lemma setMask_atRest (m' : BitVec 16) :
    Controllers.outbs (setMaskWrites m') (atRest requested1 requested2 m) =
      atRest requested1 requested2 m' := rfl

/-- The keyboard's line is unmasked. -/
lemma keyboardInit_atRest :
    Controllers.outbs [(0x21#16, m.setWidth 8 &&& ~~~(1#8 <<< 1))]
        (atRest requested1 requested2 m) =
      atRest requested1 requested2 (m &&& ~~~irqBit 1) := by
  have hlow : (m &&& ~~~irqBit 1).setWidth 8 = m.setWidth 8 &&& ~~~(1#8 <<< 1) := by
    rw [BitVec.setWidth_and]
    rfl
  have hhigh : ((m &&& ~~~irqBit 1) >>> 8).setWidth 8 = (m >>> 8).setWidth 8 := by
    have hbit : ∀ j < 8, (~~~irqBit 1).getLsbD (8 + j) = true := by decide
    ext j hj
    simp [BitVec.getLsbD_and, hbit j hj]
  rw [atRest, atRest, hlow, hhigh]
  rfl

/-- The writes of an initialisation, whatever the pair was at, if no other one is under way. -/
lemma configure_eq_atRest {p : Controllers} (hmaster : p.master.awaiting = .nothing)
    (hslave : p.slave.awaiting = .nothing) :
    Controllers.outbs (configureWrites 0x20#8 0x28#8 false) p =
      atRest (fun _ => false) (fun _ => false) 0xFFFF#16 := by
  obtain ⟨⟨requested1, inService1, mask1, base1, awaiting1, autoEnd1⟩,
    ⟨requested2, inService2, mask2, base2, awaiting2, autoEnd2⟩⟩ := p
  obtain rfl : awaiting1 = .nothing := hmaster
  obtain rfl : awaiting2 = .nothing := hslave
  rfl

lemma first_none : Controller.first (fun _ => false) = none := rfl

lemma first_update (k : Fin 8) :
    Controller.first (Function.update (fun _ => false) k true) = some k := by
  revert k
  decide

/-- The end of the interrupt of the first line in service. -/
lemma command_of_first {c : Controller} {k : Fin 8}
    (hfirst : Controller.first c.inService = some k) :
    c.command PIC_CMD_END_OF_INTERRUPT = c.endOf k := by
  simp [Controller.command, PIC_CMD_END_OF_INTERRUPT, hfirst]

/-- The end of the interrupt of a line that was taken. -/
lemma command_take {c : Controller} (hidle : c.inService = fun _ => false)
    (hauto : c.autoEnd = false) (k : Fin 8) :
    (c.take k).command PIC_CMD_END_OF_INTERRUPT =
      { c with requested := Function.update c.requested k false } := by
  obtain ⟨requested, inService, mask, base, awaiting, autoEnd⟩ := c
  obtain rfl : inService = fun _ => false := hidle
  obtain rfl : autoEnd = false := hauto
  have hend : Function.update (Function.update (fun _ => false) k true) k false =
      fun _ : Fin 8 => false := by
    rw [Function.update_idem]
    exact Function.update_eq_self k _
  rw [command_of_first (by simpa [Controller.take] using first_update k)]
  simp only [Controller.take, Bool.false_eq_true, if_false, Controller.endOf, hend]

/-- With nothing in service, there is nothing to be ended. -/
lemma command_idle {c : Controller} (hidle : c.inService = fun _ => false) :
    c.command PIC_CMD_END_OF_INTERRUPT = c := by
  have hfirst : Controller.first c.inService = none := by rw [hidle, first_none]
  simp [Controller.command, PIC_CMD_END_OF_INTERRUPT, hfirst]

/-- A line is served and its interrupt is ended: its request is taken back. -/
lemma endOfInterrupt_masterLine (k : Fin 8) :
    Controllers.outbs (endOfInterruptWrites (masterLine k))
        ((atRest requested1 requested2 m).serve (masterLine k)).2 =
      atRest (Function.update requested1 k false) requested2 m := by
  have hk : ¬8 ≤ (masterLine k : ℕ) := not_le.mpr k.isLt
  rw [endOfInterruptWrites, if_neg hk, serve_masterLine]
  exact congrArg (fun c => (⟨c, _⟩ : Controllers)) (command_take rfl rfl k)

/-- A line of the second controller is served and ended: so is line 2 of the first. -/
lemma endOfInterrupt_slaveLine (k : Fin 8) :
    Controllers.outbs (endOfInterruptWrites (slaveLine k))
        ((atRest requested1 requested2 m).serve (slaveLine k)).2 =
      atRest (Function.update requested1 2 false) (Function.update requested2 k false) m := by
  have hk : 8 ≤ (slaveLine k : ℕ) := Nat.le_add_right 8 k
  rw [endOfInterruptWrites, if_pos hk, serve_slaveLine]
  exact congrArg₂ Controllers.mk (command_take rfl rfl 2) (command_take rfl rfl k)

/-- The end of an interrupt of line 7 that no line had requested. -/
lemma endOfInterrupt_atRest :
    Controllers.outbs (endOfInterruptWrites 7) (atRest requested1 requested2 m) =
      atRest requested1 requested2 m :=
  congrArg (fun c => (⟨c, _⟩ : Controllers)) (command_idle rfl)

end Rest

/-! ### The refinement -/

/-- The system stands for some lines: between two events nothing is in service, the requests and the
masks are those of the controllers, and the gates of the lines lead to `i686_IRQ_Handler`. -/
structure RefinesLines (isr : Fin 256 → Addr) (s : IrqSystem ι κ) (l : IrqLines ι κ) : Prop where
  controllers : ∃ requested1 requested2, s.controllers = atRest requested1 requested2 l.mask
  requested : ∀ i ≠ 2, s.controllers.requested i = l.requested i
  gate : ∀ i, s.tables.idt (irqVector i) = stubEntry (isr (irqVector i)) true
  handler : ∀ i, s.tables.handlers (irqVector i) = some .irqHandler
  driver : s.driver = true
  picMask : s.picMask = l.picMask
  irqHandlers : s.irqHandlers = l.handlers
  world : s.world = l.world
  served : s.served = l.served

section Refinement

variable {isr : Fin 256 → Addr} {run : ι → κ → κ} {s : IrqSystem ι κ} {l : IrqLines ι κ}

lemma requested_masterLine (k : Fin 8) (p : Controllers) :
    p.requested (masterLine k) = p.master.requested k := dif_pos k.isLt

lemma requested_slaveLine (k : Fin 8) (p : Controllers) :
    p.requested (slaveLine k) = p.slave.requested k := by
  have hk : ¬(slaveLine k : ℕ) < 8 := by simp [slaveLine]
  have hsub : (slaveLine k : ℕ) - 8 = k := Nat.add_sub_cancel_left 8 k
  rw [Controllers.requested, dif_neg hk]
  simp only [hsub]

/-- Every line belongs to one of the controllers. -/
lemma eq_masterLine_or_slaveLine (i : Fin 16) :
    (∃ k, i = masterLine k) ∨ ∃ k, i = slaveLine k := by
  by_cases hi : (i : ℕ) < 8
  · exact .inl ⟨⟨i, hi⟩, rfl⟩
  · exact .inr ⟨⟨i - 8, by omega⟩, Fin.ext (by simp [slaveLine]; omega)⟩

/-- The masks of the lines. -/
lemma deliverable_eq (h : RefinesLines isr s l) {i : Fin 16} (hi : i ≠ 2) :
    s.controllers.deliverable i = l.deliverable i := by
  obtain ⟨requested1, requested2, hp⟩ := h.controllers
  have hreq := h.requested i hi
  rw [IrqLines.deliverable, ← hreq]
  obtain ⟨k, rfl⟩ | ⟨k, rfl⟩ := eq_masterLine_or_slaveLine i
  · have hk : ¬8 ≤ (k : ℕ) := not_le.mpr k.isLt
    rw [deliverable_masterLine, requested_masterLine, hp]
    simp [atRest, hk, masterLine]
  · have hk : 8 ≤ (slaveLine k : ℕ) := Nat.le_add_right 8 k
    rw [deliverable_slaveLine, requested_slaveLine, hp]
    simp [atRest, slaveLine]

lemma find_deliverable_eq (h : RefinesLines isr s l) :
    priority.find? s.controllers.deliverable = priority.find? l.deliverable :=
  List.find?_congr fun i hi => deliverable_eq h (by rintro rfl; exact absurd hi (by decide))

/-- The line of a vector. -/
lemma irqVector_sub (i : Fin 16) : (BitVec.ofNat 32 (irqVector i) - 0x20#32).toNat = i := by
  revert i
  decide

lemma vector_masterLine (k : Fin 8) :
    (0x20#8 + BitVec.ofNat 8 k).toFin = irqVector (masterLine k) := by
  revert k
  decide

lemma vector_slaveLine (k : Fin 8) :
    (0x28#8 + BitVec.ofNat 8 k).toFin = irqVector (slaveLine k) := by
  revert k
  decide

/-- The vector of a line leads to its stub, and from there to the driver. -/
lemma interrupt_of_vector (hisr : Function.Injective isr) (h : RefinesLines isr s l) {i : Fin 16}
    {vector : Byte} {controllers : Controllers}
    (hack : s.controllers.acknowledge = (vector, controllers)) (hi : vector.toFin = irqVector i) :
    s.interrupt isr run = some ({ s with
      controllers := controllers
      world := match s.irqHandlers i with
        | some f => run f s.world
        | none => s.world
      served := i :: s.served }.sendEndOfInterrupt i) := by
  have htarget : vectorTarget (g_GDT.map GDTEntry.bits) (fun v => (s.tables.idt v).bits)
      (irqVector i) = some (isr (irqVector i)) :=
    (vectorTarget_stubEntry (congrArg IDTEntry.bits (h.gate i))).trans (if_pos rfl)
  rw [IrqSystem.interrupt, hack]
  simp only [hi, htarget, Option.bind_some, stubAt_isr hisr, IrqSystem.i686ISRHandler, h.handler i]
  rw [IrqSystem.i686IRQHandler]
  simp only [h.driver, if_true, irqVector_sub]
  exact dif_pos i.isLt

/-- A request of the first controller is set or taken back. -/
lemma requested_update_master (requested1 requested2 : Fin 8 → Bool) (m : BitVec 16) (k : Fin 8)
    (b : Bool) : (atRest (Function.update requested1 k b) requested2 m).requested =
      Function.update (atRest requested1 requested2 m).requested (masterLine k) b := by
  funext j
  obtain ⟨j, rfl⟩ | ⟨j, rfl⟩ := eq_masterLine_or_slaveLine j
  · have hinj : masterLine j = masterLine k ↔ j = k := by simp [masterLine, Fin.ext_iff]
    rw [requested_masterLine]
    by_cases hj : j = k
    · subst hj
      simp [atRest]
    · rw [Function.update_of_ne (mt hinj.mp hj), requested_masterLine]
      exact Function.update_of_ne hj _ _
  · have hne : slaveLine j ≠ masterLine k := by
      simp only [slaveLine, masterLine, ne_eq, Fin.mk.injEq]
      omega
    rw [Function.update_of_ne hne, requested_slaveLine, requested_slaveLine]
    rfl

/-- A request of the second controller is set or taken back. -/
lemma requested_update_slave (requested1 requested2 : Fin 8 → Bool) (m : BitVec 16) (k : Fin 8)
    (b : Bool) : (atRest requested1 (Function.update requested2 k b) m).requested =
      Function.update (atRest requested1 requested2 m).requested (slaveLine k) b := by
  funext j
  obtain ⟨j, rfl⟩ | ⟨j, rfl⟩ := eq_masterLine_or_slaveLine j
  · have hne : masterLine j ≠ slaveLine k := by
      simp only [slaveLine, masterLine, ne_eq, Fin.mk.injEq]
      omega
    rw [Function.update_of_ne hne, requested_masterLine, requested_masterLine]
    rfl
  · have hinj : slaveLine j = slaveLine k ↔ j = k := by simp [slaveLine, Fin.ext_iff]
    rw [requested_slaveLine]
    by_cases hj : j = k
    · subst hj
      simp [atRest]
    · rw [Function.update_of_ne (mt hinj.mp hj), requested_slaveLine]
      exact Function.update_of_ne hj _ _

/-- A request of a line. -/
lemma refines_raise (h : RefinesLines isr s l) (i : Fin 16) :
    RefinesLines isr { s with controllers := s.controllers.raise i }
      { l with requested := Function.update l.requested i true } := by
  obtain ⟨requested1, requested2, hp⟩ := h.controllers
  have hupdate : ∀ {q : Fin 16 → Bool}, q = Function.update s.controllers.requested i true →
      ∀ j ≠ 2, q j = Function.update l.requested i true j := by
    rintro q rfl j hj
    simp only [Function.update_apply, h.requested j hj]
  obtain ⟨k, rfl⟩ | ⟨k, rfl⟩ := eq_masterLine_or_slaveLine i
  · have hraise : s.controllers.raise (masterLine k) =
        atRest (Function.update requested1 k true) requested2 l.mask := by
      rw [hp]
      exact dif_pos k.isLt
    refine { h with controllers := ⟨_, _, hraise⟩, requested := hupdate ?_ }
    rw [hraise, requested_update_master, hp]
  · have hk : (⟨(slaveLine k : ℕ) - 8, by omega⟩ : Fin 8) = k :=
      Fin.ext (Nat.add_sub_cancel_left 8 k)
    have hraise : s.controllers.raise (slaveLine k) =
        atRest requested1 (Function.update requested2 k true) l.mask := by
      rw [hp]
      refine (dif_neg (by simp [slaveLine])).trans ?_
      rw [hk]
      rfl
    refine { h with controllers := ⟨_, _, hraise⟩, requested := hupdate ?_ }
    rw [hraise, requested_update_slave, hp]

/-- A line is served and its interrupt is ended. -/
lemma refines_served (h : RefinesLines isr s l) {i : Fin 16} {controllers : Controllers}
    {requested1 requested2 : Fin 8 → Bool} {requested : Fin 16 → Bool}
    (hrest : Controllers.outbs (endOfInterruptWrites i) controllers =
      atRest requested1 requested2 l.mask)
    (hrequested : ∀ j ≠ 2, (atRest requested1 requested2 l.mask).requested j = requested j) :
    RefinesLines isr ({ s with
        controllers := controllers
        world := match s.irqHandlers i with
          | some f => run f s.world
          | none => s.world
        served := i :: s.served }.sendEndOfInterrupt i)
      ({ l with requested := requested }.call run i) where
  controllers := ⟨_, _, hrest⟩
  requested j hj := (congrArg (fun p => p.requested j) hrest).trans (hrequested j hj)
  gate := h.gate
  handler := h.handler
  driver := h.driver
  picMask := h.picMask
  irqHandlers := h.irqHandlers
  world := by
    simp only [IrqSystem.sendEndOfInterrupt, IrqSystem.outs, IrqLines.call, h.irqHandlers, h.world]
  served := congrArg (i :: ·) h.served

/-- An interrupt serves the first deliverable line. -/
lemma refines_interrupt (hisr : Function.Injective isr) (h : RefinesLines isr s l) :
    ∃ s', s.interrupt isr run = some s' ∧ RefinesLines isr s' (l.interrupt run) := by
  obtain ⟨requested1, requested2, hp⟩ := h.controllers
  have hidle : s.controllers.Idle := by
    rw [hp]
    exact idle_atRest
  have hrequested : ∀ j ≠ 2, (atRest requested1 requested2 l.mask).requested j = l.requested j := by
    rw [← hp]
    exact h.requested
  have hack := acknowledge_of_idle hidle
  rw [find_deliverable_eq h] at hack
  rw [IrqLines.interrupt]
  cases hnext : priority.find? l.deliverable with
  | none =>
      rw [hnext] at hack
      refine ⟨_, interrupt_of_vector hisr h (i := 7) hack ?_, ?_⟩
      · rw [hp]
        exact vector_masterLine 7
      · rw [hp]
        exact refines_served h endOfInterrupt_atRest hrequested
  | some i =>
      replace hack : s.controllers.acknowledge = s.controllers.serve i := by rw [hack, hnext]
      have hserve : s.controllers.acknowledge =
          (((atRest requested1 requested2 l.mask).serve i).1,
            ((atRest requested1 requested2 l.mask).serve i).2) := by
        rw [hack, hp]
      have hupdate : ∀ j ≠ 2, Function.update (atRest requested1 requested2 l.mask).requested i
          false j = Function.update l.requested i false j := by
        intro j hj
        simp only [Function.update_apply, hrequested j hj]
      obtain ⟨k, rfl⟩ | ⟨k, rfl⟩ := eq_masterLine_or_slaveLine i
      · refine ⟨_, interrupt_of_vector hisr h (i := masterLine k) hserve ?_,
          refines_served h (endOfInterrupt_masterLine k) ?_⟩
        · rw [serve_masterLine]
          exact vector_masterLine k
        · rw [requested_update_master]
          exact hupdate
      · refine ⟨_, interrupt_of_vector hisr h (i := slaveLine k) hserve ?_,
          refines_served h (endOfInterrupt_slaveLine k) ?_⟩
        · rw [serve_slaveLine]
          exact vector_slaveLine k
        · intro j hj
          have hline : j ≠ masterLine 2 := hj
          rw [requested_update_slave, requested_update_master, ← hupdate j hj,
            Function.update_apply, Function.update_apply, Function.update_apply, if_neg hline]

/-- The masks are set. -/
lemma refines_setMask (h : RefinesLines isr s l) (m : BitVec 16) :
    RefinesLines isr (s.setMask m) (l.setMask m) := by
  obtain ⟨requested1, requested2, hp⟩ := h.controllers
  have hrest : Controllers.outbs (setMaskWrites m) s.controllers =
      atRest requested1 requested2 m := by
    rw [hp, setMask_atRest]
  refine { h with
    controllers := ⟨_, _, hrest⟩, requested := fun j hj => ?_, picMask := rfl }
  refine (congrArg (fun p => p.requested j) hrest).trans (Eq.trans ?_ (h.requested j hj))
  rw [hp]
  rfl

/-- The keyboard's line is unmasked past the driver. -/
lemma refines_keyboardInit (h : RefinesLines isr s l) :
    RefinesLines isr s.keyboardInit { l with mask := l.mask &&& ~~~irqBit 1 } := by
  obtain ⟨requested1, requested2, hp⟩ := h.controllers
  have hrest : s.keyboardInit.controllers =
      atRest requested1 requested2 (l.mask &&& ~~~irqBit 1) := by
    have hmask : s.controllers.master.mask = l.mask.setWidth 8 := by
      rw [hp]
      rfl
    rw [IrqSystem.keyboardInit, hmask, IrqSystem.outs, hp]
    exact keyboardInit_atRest
  refine { h with controllers := ⟨_, _, hrest⟩, requested := fun j hj => ?_ }
  refine (congrArg (fun p => p.requested j) hrest).trans (Eq.trans ?_ (h.requested j hj))
  rw [hp]
  rfl

/-- The handler of the system calls is registered. -/
lemma refines_syscallInitialize (h : RefinesLines isr s l) (f : ι) :
    RefinesLines isr { s with tables := s.tables.i686ISRRegisterHandler 0x80 (.other f) } l := by
  have hne : ∀ i, (0x80 : Fin 256) ≠ irqVector i := by decide
  refine { h with gate := fun i => ?_, handler := fun i => ?_ }
  · refine (enableGate_stubEntry 0x80 (h.gate i)).trans ?_
    simp
  · exact (Function.update_of_ne (hne i).symm _ _).trans (h.handler i)

variable (run) in
/-- **Every event** does to the system what it does to the lines. -/
theorem refines_step (hisr : Function.Injective isr) (h : RefinesLines isr s l) (e : IrqEvent ι) :
    ∃ s', s.step isr run e = some s' ∧ RefinesLines isr s' (l.step run e) := by
  cases e with
  | raise line => exact ⟨_, rfl, refines_raise h line⟩
  | interrupt => exact refines_interrupt hisr h
  | mask irq =>
      refine ⟨_, rfl, ?_⟩
      rw [IrqSystem.mask, h.picMask]
      exact refines_setMask h _
  | unmask irq =>
      refine ⟨_, rfl, ?_⟩
      rw [IrqSystem.unmask, h.picMask]
      exact refines_setMask h _
  | keyboardInit => exact ⟨_, rfl, refines_keyboardInit h⟩
  | register irq f =>
      refine ⟨_, rfl, { h with irqHandlers := ?_ }⟩
      exact congrArg (Function.update · irq (some f)) h.irqHandlers
  | syscallInitialize f => exact ⟨_, rfl, refines_syscallInitialize h f⟩

variable (run) in
lemma refines_run (hisr : Function.Injective isr) (h : RefinesLines isr s l)
    (es : List (IrqEvent ι)) : ∃ s', es.foldlM (IrqSystem.step isr run) s = some s' ∧
      RefinesLines isr s' (es.foldl (IrqLines.step run) l) := by
  induction es generalizing s l with
  | nil => exact ⟨s, rfl, h⟩
  | cons e es ih =>
      obtain ⟨s', hs', h'⟩ := refines_step run hisr h e
      obtain ⟨s'', hs'', h''⟩ := ih h'
      refine ⟨s'', ?_, h''⟩
      rw [List.foldlM_cons, hs']
      exact hs''

/-- The gates and the handlers of the lines behind the initialisation. -/
lemma registerLines (lines : List (Fin 16)) {tables : IsrTables (IsrFunction ι)} {v : Fin 256}
    {base : Addr} {present : Bool} (hv : tables.idt v = stubEntry base present) :
    (lines.foldl (fun t i => t.i686ISRRegisterHandler (irqVector i) .irqHandler) tables).idt v =
        stubEntry base (present || decide (v ∈ lines.map irqVector)) ∧
      (lines.foldl (fun t i => t.i686ISRRegisterHandler (irqVector i) .irqHandler)
          tables).handlers v =
        if v ∈ lines.map irqVector then some .irqHandler else tables.handlers v := by
  induction lines using List.reverseRecOn with
  | nil => simp [hv]
  | append_singleton lines i ih =>
      rw [List.foldl_append]
      constructor
      · refine (enableGate_stubEntry (irqVector i) ih.1).trans ?_
        simp [eq_comm (a := v), Bool.or_assoc]
      · refine (Function.update_apply ..).trans ?_
        rw [ih.2]
        by_cases hi : v = irqVector i
        · simp [hi]
        · simp [hi]

/-- Setting the mask starts no initialisation. -/
lemma setMask_awaiting (hmaster : s.controllers.master.awaiting = .nothing)
    (hslave : s.controllers.slave.awaiting = .nothing) (m : BitVec 16) :
    (s.setMask m).controllers =
      ⟨{ s.controllers.master with mask := m.setWidth 8 },
        { s.controllers.slave with mask := (m >>> 8).setWidth 8 }⟩ := by
  obtain ⟨tables, irqHandlers, driver, picMask, ⟨⟨requested1, inService1, mask1, base1, awaiting1,
    autoEnd1⟩, ⟨requested2, inService2, mask2, base2, awaiting2, autoEnd2⟩⟩, world, served⟩ := s
  obtain rfl : awaiting1 = .nothing := hmaster
  obtain rfl : awaiting2 = .nothing := hslave
  rfl

/-- The masks and their shadow, of controllers that no initialisation is under way in. -/
def IrqSystem.pic (s : IrqSystem ι κ) : PicMachine where
  pic1 := ⟨s.controllers.master.mask, 0⟩
  pic2 := ⟨s.controllers.slave.mask, 0⟩
  picMask := s.picMask
  keyboardOutput := []

/-- **The driver** does to the masks what it does to controllers that have nothing but masks. -/
theorem pic_driver (hmaster : s.controllers.master.awaiting = .nothing)
    (hslave : s.controllers.slave.awaiting = .nothing) :
    (∀ m, (s.setMask m).pic = i8259SetMask m s.pic) ∧
      (s.configure 0x20#8 0x28#8 false).pic = i8259Configure 0x20#8 0x28#8 false s.pic ∧
      s.keyboardInit.pic = MiqOSoft.keyboardInit s.pic ∧ s.getMask = i8259GetMask s.pic := by
  have hready : s.pic.Ready := ⟨rfl, rfl⟩
  have hconfigure : (s.configure 0x20#8 0x28#8 false).controllers =
      atRest (fun _ => false) (fun _ => false) 0xFFFF#16 := configure_eq_atRest hmaster hslave
  refine ⟨fun m => ?_, ?_, ?_, rfl⟩
  · rw [IrqSystem.pic, setMask_awaiting hmaster hslave, i8259SetMask_eq hready]
    rfl
  · rw [IrqSystem.pic, hconfigure, i8259Configure_eq hready]
    rfl
  · have hdata : (s.controllers.master.data
        (s.controllers.master.mask &&& ~~~(1#8 <<< 1))).mask =
          s.controllers.master.mask &&& ~~~(1#8 <<< 1) := by
      rw [Controller.data, hmaster]
    rw [keyboardInit_eq hready]
    exact congrArg (fun mask : Byte =>
      (⟨⟨mask, 0⟩, ⟨s.controllers.slave.mask, 0⟩, s.picMask, []⟩ : PicMachine)) hdata

/-- The controllers are found. -/
lemma i686IRQInitialize_eq (hmaster : s.controllers.master.awaiting = .nothing)
    (hslave : s.controllers.slave.awaiting = .nothing) : s.i686IRQInitialize =
      { ({ (s.setMask 0xFFFF#16).setMask 0x1337#16 with driver := true } : IrqSystem ι κ).configure
          0x20#8 0x28#8 false with
        tables := (List.finRange 16).foldl
          (fun t i => t.i686ISRRegisterHandler (irqVector i) .irqHandler) s.tables } := by
  have hmask := setMask_awaiting hmaster hslave 0xFFFF#16
  have hget : ((s.setMask 0xFFFF#16).setMask 0x1337#16).getMask = 0x1337#16 := by
    rw [IrqSystem.getMask, setMask_awaiting (by rwa [hmask]) (by rwa [hmask])]
    exact getMask_halves _
  have hprobe : s.probe = (true, (s.setMask 0xFFFF#16).setMask 0x1337#16) :=
    congrArg (·, _) (decide_eq_true hget)
  rw [IrqSystem.i686IRQInitialize, hprobe]
  rfl

/-- Behind the set-up of the tables, `i686_IRQ_Initialize` finds the controllers and programs
them. -/
lemma refines_initialized {t : IsrTables (IsrFunction ι)} {cs : List (GateCall (IsrFunction ι))}
    (htables : s.tables = t.after isr cs) (hmaster : s.controllers.master.awaiting = .nothing)
    (hslave : s.controllers.slave.awaiting = .nothing) :
    RefinesLines isr s.i686IRQInitialize (.start s.irqHandlers s.world s.served) := by
  have hlines : ∀ i, (irqVector i) ∈ (List.finRange 16).map irqVector := fun i =>
    List.mem_map_of_mem (List.mem_finRange i)
  have hregister : ∀ i, _ ∧ _ := fun i =>
    registerLines (List.finRange 16) (idt_after isr t cs (irqVector i))
  have hmask := setMask_awaiting hmaster hslave 0xFFFF#16
  have hprobed := setMask_awaiting (s := s.setMask 0xFFFF#16) (by rwa [hmask]) (by rwa [hmask])
    0x1337#16
  have hrest := configure_eq_atRest (p := ((s.setMask 0xFFFF#16).setMask 0x1337#16).controllers)
    (by rwa [hprobed, hmask]) (by rwa [hprobed, hmask])
  rw [i686IRQInitialize_eq hmaster hslave, htables]
  refine ⟨⟨_, _, hrest⟩, fun i _ => ?_, fun i => ?_, fun i => ?_, rfl, rfl, rfl, rfl, rfl⟩
  · refine (congrArg (fun p => p.requested i) hrest).trans ?_
    simp [Controllers.requested, atRest, IrqLines.start]
  · refine (hregister i).1.trans ?_
    simp [hlines i]
  · exact (hregister i).2.trans (if_pos (hlines i))

end Refinement

/-! ### Which handlers are called -/

/-- The event is a request of the line. -/
def IrqEvent.requests (i : Fin 16) : IrqEvent ι → Bool
  | .raise line => line = i
  | _ => false

/-- The handlers of some lines are called, one after the other. -/
def IrqSystem.calls (run : ι → κ → κ) (lines : List (Fin 16)) (s : IrqSystem ι κ) : κ :=
  lines.foldl (fun world i => match s.irqHandlers i with
    | some f => run f world
    | none => world) s.world

namespace IrqLines

variable {run : ι → κ → κ} {l : IrqLines ι κ}

variable (run) in
/-- A handler that is called has taken a request, or is that of line 7. -/
lemma balance_step {i : Fin 16} (hi : i ≠ 7) (e : IrqEvent ι) :
    (l.step run e).served.count i + ((l.step run e).requested i).toNat ≤
      l.served.count i + (l.requested i).toNat + (e.requests i).toNat := by
  cases e with
  | raise line =>
      by_cases hline : line = i
      · subst hline
        simp only [step, Function.update_self, IrqEvent.requests, decide_true, Bool.toNat_true]
        omega
      · simp [step, IrqEvent.requests, Function.update_of_ne (Ne.symm hline), hline]
  | interrupt =>
      change (l.interrupt run).served.count i + ((l.interrupt run).requested i).toNat ≤ _
      rw [interrupt]
      cases hnext : priority.find? l.deliverable with
      | none => simp [call, IrqEvent.requests, hi.symm]
      | some j =>
          by_cases hj : j = i
          · subst hj
            have hreq : l.requested j = true := by
              have hdeliverable := List.find?_some hnext
              simp only [deliverable, Bool.and_eq_true] at hdeliverable
              exact hdeliverable.1.1
            simp [call, IrqEvent.requests, hreq]
          · simp [call, IrqEvent.requests, hj, Function.update_of_ne (Ne.symm hj)]
  | mask irq => exact Nat.le_add_right _ _
  | unmask irq => exact Nat.le_add_right _ _
  | keyboardInit => exact Nat.le_add_right _ _
  | register irq f => exact Nat.le_add_right _ _
  | syscallInitialize f => exact Nat.le_add_right _ _

lemma balance_run {i : Fin 16} (hi : i ≠ 7) (es : List (IrqEvent ι)) :
    (es.foldl (step run) l).served.count i + ((es.foldl (step run) l).requested i).toNat ≤
      l.served.count i + (l.requested i).toNat + es.countP (IrqEvent.requests i) := by
  induction es generalizing l with
  | nil => exact Nat.le_add_right _ _
  | cons e es ih =>
      have hrest := ih (l := l.step run e)
      have hfirst := balance_step run (l := l) hi e
      have hcount : (e :: es).countP (IrqEvent.requests i) =
          es.countP (IrqEvent.requests i) + (e.requests i).toNat := by
        rw [List.countP_cons]
        cases e.requests i <;> rfl
      rw [List.foldl_cons, hcount]
      omega

/-- The line that the second controller is at is not served itself. -/
lemma count_two (es : List (IrqEvent ι)) :
    (es.foldl (step run) l).served.count 2 = l.served.count 2 := by
  induction es generalizing l with
  | nil => rfl
  | cons e es ih =>
      rw [List.foldl_cons, ih]
      cases e with
      | interrupt =>
          change (l.interrupt run).served.count 2 = _
          rw [interrupt]
          cases hnext : priority.find? l.deliverable with
          | none => simp [call]
          | some i =>
              have hi : i ≠ 2 := by
                rintro rfl
                exact absurd (List.mem_of_find?_eq_some hnext) (by decide)
              simp [call, hi]
      | raise line => rfl
      | mask irq => rfl
      | unmask irq => rfl
      | keyboardInit => rfl
      | register irq f => rfl
      | syscallInitialize f => rfl

variable (run) in
/-- Once the first line is served, those behind it are left. -/
lemma filter_interrupt {i : Fin 16} {D : List (Fin 16)}
    (hD : priority.filter l.deliverable = i :: D) :
    l.interrupt run = { l with requested := Function.update l.requested i false }.call run i ∧
      priority.filter (l.interrupt run).deliverable = D := by
  have hnext : priority.find? l.deliverable = some i := by
    rw [← List.head?_filter, hD]
    rfl
  have hinterrupt : l.interrupt run =
      { l with requested := Function.update l.requested i false }.call run i := by
    rw [interrupt, hnext]
  have hdeliverable : (l.interrupt run).deliverable =
      fun j => decide (j ≠ i) && l.deliverable j := by
    rw [hinterrupt]
    funext j
    by_cases hj : j = i
    · subst hj
      simp [deliverable, call]
    · simp [deliverable, call, hj]
  have hnodup : (i :: D).Nodup := by
    rw [← hD]
    exact List.Nodup.filter _ (by decide)
  refine ⟨hinterrupt, ?_⟩
  rw [hdeliverable, ← List.filter_filter, hD, List.filter_cons_of_neg (by simp)]
  refine List.filter_eq_self.mpr fun j hj => ?_
  have hne : j ≠ i := by
    rintro rfl
    exact (List.nodup_cons.mp hnodup).1 hj
  exact decide_eq_true hne

variable (run) in
/-- The lines that can be served are served in their order. -/
lemma drain {D : List (Fin 16)} (hD : priority.filter l.deliverable = D) :
    let l' := (List.replicate D.length .interrupt).foldl (step run) l
    l'.served = D.reverse ++ l.served ∧ priority.filter l'.deliverable = [] ∧
      l'.world = D.foldl (fun world i => match l.handlers i with
        | some f => run f world
        | none => world) l.world := by
  induction D generalizing l with
  | nil => exact ⟨rfl, hD, rfl⟩
  | cons i D ih =>
      obtain ⟨hinterrupt, hrest⟩ := filter_interrupt run hD
      obtain ⟨hserved, hnone, hworld⟩ := ih hrest
      have hstep : l.step run .interrupt = l.interrupt run := rfl
      rw [List.length_cons, List.replicate_succ, List.foldl_cons, hstep]
      refine ⟨hserved.trans ?_, hnone, hworld.trans ?_⟩
      · rw [hinterrupt, List.reverse_cons, List.append_assoc]
        rfl
      · rw [hinterrupt]
        rfl

end IrqLines

section Runs

variable {isr : Fin 256 → Addr} {run : ι → κ → κ} {s s' : IrqSystem ι κ}
  {t : IsrTables (IsrFunction ι)} {cs : List (GateCall (IsrFunction ι))} {es : List (IrqEvent ι)}

/-- **Behind the initialisation** of the tables and of the controllers, every order of events runs
and does to them what it does to the lines: each interrupt calls the handler of the first line of
the order that is requested and not masked, and takes its request back.  Before, the controllers may
be in any state but in the middle of an initialisation. -/
theorem irq_refines (hisr : Function.Injective isr) (run : ι → κ → κ)
    (htables : s.tables = t.after isr cs) (hmaster : s.controllers.master.awaiting = .nothing)
    (hslave : s.controllers.slave.awaiting = .nothing) (es : List (IrqEvent ι)) :
    ∃ s', es.foldlM (IrqSystem.step isr run) s.i686IRQInitialize = some s' ∧
      RefinesLines isr s' (es.foldl (IrqLines.step run)
        (.start s.irqHandlers s.world s.served)) :=
  refines_run run hisr (refines_initialized htables hmaster hslave) es

/-- A kernel that has set up its tables, with controllers that nobody has programmed. -/
def poweredOn : IrqSystem Unit ℕ where
  tables := .after (BitVec.ofNat 32 ·) ⟨fun _ => ⟨0, 0, 0, 0, 0⟩, fun _ => none⟩ []
  irqHandlers := fun _ => none
  driver := false
  picMask := 0xFFFF#16
  controllers :=
    ⟨⟨fun _ => true, fun _ => true, 0, 0, .nothing, false⟩,
      ⟨fun _ => true, fun _ => true, 0, 0, .nothing, false⟩⟩
  world := 0
  served := []

/-- The timer and the keyboard are unmasked and request, and an interrupt is taken. -/
def firstEvents : List (IrqEvent Unit) :=
  [.register 1 (), .unmask 0, .unmask 1, .raise 1, .raise 0, .interrupt]

theorem irq_refines_firstEvents :
    ∃ s', firstEvents.foldlM (IrqSystem.step (BitVec.ofNat 32 ·) fun _ => Nat.succ)
        poweredOn.i686IRQInitialize = some s' ∧
      RefinesLines (BitVec.ofNat 32 ·) s' (firstEvents.foldl (IrqLines.step fun _ => Nat.succ)
        (.start poweredOn.irqHandlers poweredOn.world poweredOn.served)) :=
  irq_refines injective_ofNat _ rfl rfl rfl firstEvents

/-- **No handler is called without a request** of its line, in any order of events, but the one of
line 7: the requests of a line are at least the calls of its handler and the one that is still to
be served.  The handler of line 2 is never called. -/
theorem served_le_requests (hisr : Function.Injective isr) (htables : s.tables = t.after isr cs)
    (hmaster : s.controllers.master.awaiting = .nothing)
    (hslave : s.controllers.slave.awaiting = .nothing)
    (hrun : es.foldlM (IrqSystem.step isr run) s.i686IRQInitialize = some s') :
    (∀ i, i ≠ 2 → i ≠ 7 → s'.served.count i + (s'.controllers.requested i).toNat ≤
      s.served.count i + es.countP (IrqEvent.requests i)) ∧
      s'.served.count 2 = s.served.count 2 := by
  obtain ⟨s₁, hs₁, h⟩ := refines_run run hisr (refines_initialized htables hmaster hslave) es
  obtain rfl : s₁ = s' := Option.some.inj (hs₁.symm.trans hrun)
  constructor
  · intro i hi2 hi7
    rw [h.served, h.requested i hi2]
    exact IrqLines.balance_run hi7 es
  · rw [h.served, IrqLines.count_two]
    rfl

theorem served_le_requests_firstEvents :
    ∃ s', firstEvents.foldlM (IrqSystem.step (BitVec.ofNat 32 ·) fun _ => Nat.succ)
        poweredOn.i686IRQInitialize = some s' ∧
      s'.served.count 1 + (s'.controllers.requested 1).toNat ≤ 1 := by
  obtain ⟨s', hs', -⟩ := refines_run (fun _ => Nat.succ) injective_ofNat
    (refines_initialized (s := poweredOn) rfl rfl rfl) firstEvents
  have hle := (served_le_requests injective_ofNat rfl rfl rfl hs').1 1 (by decide) (by decide)
  exact ⟨s', hs', hle⟩

/-- **The lines are served in their order**: from every state that events lead to, as many
interrupts as there are lines to be served call their handlers in the order of the priorities, each
one once, and leave none to be served. -/
theorem interrupts_drain (hisr : Function.Injective isr) (htables : s.tables = t.after isr cs)
    (hmaster : s.controllers.master.awaiting = .nothing)
    (hslave : s.controllers.slave.awaiting = .nothing)
    (hrun : es.foldlM (IrqSystem.step isr run) s.i686IRQInitialize = some s') :
    let lines := priority.filter s'.controllers.deliverable
    ∃ s'', (List.replicate lines.length .interrupt).foldlM (IrqSystem.step isr run) s' = some s'' ∧
      s''.served = lines.reverse ++ s'.served ∧ s''.world = s'.calls run lines ∧
      priority.filter s''.controllers.deliverable = [] := by
  intro lines
  obtain ⟨s₁, hs₁, h⟩ := refines_run run hisr (refines_initialized htables hmaster hslave) es
  obtain rfl : s₁ = s' := Option.some.inj (hs₁.symm.trans hrun)
  obtain ⟨s'', hs'', h''⟩ := refines_run run hisr h (List.replicate lines.length .interrupt)
  have hfilter : ∀ {s : IrqSystem ι κ} {l}, RefinesLines isr s l →
      priority.filter l.deliverable = priority.filter s.controllers.deliverable := fun h =>
    List.filter_congr fun i hi =>
      (deliverable_eq h (by rintro rfl; exact absurd hi (by decide))).symm
  obtain ⟨hserved, hnone, hworld⟩ := IrqLines.drain run (hfilter h)
  refine ⟨s'', hs'', ?_, ?_, ?_⟩
  · rw [h''.served, hserved, h.served]
  · rw [h''.world, hworld, ← h.irqHandlers, ← h.world]
    rfl
  · rw [← hfilter h'', hnone]

theorem interrupts_drain_firstEvents :
    ∃ s', firstEvents.foldlM (IrqSystem.step (BitVec.ofNat 32 ·) fun _ => Nat.succ)
        poweredOn.i686IRQInitialize = some s' ∧
      let lines := priority.filter s'.controllers.deliverable
      ∃ s'', (List.replicate lines.length .interrupt).foldlM
          (IrqSystem.step (BitVec.ofNat 32 ·) fun _ => Nat.succ) s' = some s'' ∧
        s''.served = lines.reverse ++ s'.served := by
  obtain ⟨s', hs', -⟩ := refines_run (fun _ => Nat.succ) injective_ofNat
    (refines_initialized (s := poweredOn) rfl rfl rfl) firstEvents
  obtain ⟨s'', hs'', hserved, -⟩ := interrupts_drain injective_ofNat rfl rfl rfl hs'
  exact ⟨s', hs', s'', hs'', hserved⟩

end Runs

end MiqOSoft
