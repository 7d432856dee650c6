import MiqOSoft.Kernel.InterruptStubs
import MiqOSoft.Machine.Descriptors

/-!
The descriptor tables of the kernel, `gdt.c` and `idt.c`, and the table of interrupt handlers in
`isr.c`.

* `GDT_ENTRY`, `i686IDTSetGate`: how descriptors are made; `GDTEntry.segment`, `IDTEntry.gate`: what
  the processor reads from them.
* `i686ISRInitialize`, `GateCall`, `IsrTables.after`: the set-up of the tables, and any order of
  calls behind it.
* `vectorTarget_after`: an interrupt leads to the stub of its vector, exactly as long as the last
  call for the vector did not disable its gate.
-/

namespace MiqOSoft

open Machine

/-- There is a gate, so that numbers stand for them. -/
local instance neZero_gates : NeZero 256 := ⟨by decide⟩

/-! ### Segments -/

/-- `GDTEntry`. -/
structure GDTEntry where
  limitLow : BitVec 16
  baseLow : BitVec 16
  baseMiddle : Byte
  access : Byte
  flagsLimitHi : Byte
  baseHigh : Byte
deriving DecidableEq

/-- The bytes of a packed `GDTEntry`, as one number. -/
def GDTEntry.bits (e : GDTEntry) : Descriptor :=
  e.baseHigh ++ e.flagsLimitHi ++ e.access ++ e.baseMiddle ++ e.baseLow ++ e.limitLow

/-- `GDT_ENTRY`. -/
def GDT_ENTRY (base limit : Word) (access flags : Byte) : GDTEntry where
  limitLow := (limit &&& 0xFFFF#32).setWidth 16
  baseLow := (base &&& 0xFFFF#32).setWidth 16
  baseMiddle := ((base >>> 16) &&& 0xFF#32).setWidth 8
  access := access
  flagsLimitHi := ((limit >>> 16) &&& 0xF#32).setWidth 8 ||| (flags &&& 0xF0#8)
  baseHigh := ((base >>> 24) &&& 0xFF#32).setWidth 8

/-- `GDT_ACCESS_PRESENT | GDT_ACCESS_RING0 | GDT_ACCESS_CODE_SEGMENT | GDT_ACCESS_CODE_READABLE`. -/
def codeAccess : Byte := 0x80#8 ||| 0x00#8 ||| 0x18#8 ||| 0x02#8

/-- `GDT_ACCESS_PRESENT | GDT_ACCESS_RING0 | GDT_ACCESS_DATA_SEGMENT |
GDT_ACCESS_DATA_WRITEABLE`. -/
def dataAccess : Byte := 0x80#8 ||| 0x00#8 ||| 0x10#8 ||| 0x02#8

/-- `GDT_FLAG_32BIT | GDT_FLAG_GRANULARITY_4K`. -/
def flatFlags : Byte := 0x40#8 ||| 0x80#8

/-- `g_GDT`. -/
def g_GDT : List GDTEntry :=
  [GDT_ENTRY 0#32 0#32 0#8 0#8,
    GDT_ENTRY 0#32 0xFFFFF#32 codeAccess flatFlags,
    GDT_ENTRY 0#32 0xFFFFF#32 dataAccess flatFlags]

/-- The fields that are read from an entry. -/
lemma segment_bits (e : GDTEntry) : Segment.ofBits e.bits =
    ⟨e.baseHigh ++ e.baseMiddle ++ e.baseLow, e.flagsLimitHi.extractLsb' 0 4 ++ e.limitLow,
      e.access, e.flagsLimitHi.extractLsb' 4 4⟩ := by
  obtain ⟨limitLow, baseLow, baseMiddle, access, flagsLimitHi, baseHigh⟩ := e
  simp only [Segment.ofBits, GDTEntry.bits, Segment.mk.injEq]
  refine ⟨?_, ?_, ?_, ?_⟩
  all_goals
    ext i hi
    simp only [BitVec.getElem_append, BitVec.getElem_extractLsb', BitVec.getLsbD_append]
    grind

/-- The high half of the flags and of the limit share a byte. -/
lemma limitHi_flags (limit : Word) (flags : Byte) :
    (((limit >>> 16) &&& 0xF#32).setWidth 8 ||| (flags &&& 0xF0#8)).extractLsb' 0 4 =
        limit.extractLsb' 16 4 ∧
      (((limit >>> 16) &&& 0xF#32).setWidth 8 ||| (flags &&& 0xF0#8)).extractLsb' 4 4 =
        flags.extractLsb' 4 4 := by
  have hlimit : ∀ j < 8, (0xF#32).getLsbD j = decide (j < 4) := by decide
  have hflags : ∀ j < 8, (0xF0#8).getLsbD j = decide (4 ≤ j) := by decide
  constructor
  all_goals
    ext i hi
    simp only [BitVec.getElem_extractLsb', BitVec.getLsbD_or, BitVec.getLsbD_and,
      BitVec.getLsbD_setWidth, BitVec.getLsbD_ushiftRight]
    grind

/-- **A segment is read as it was made**: with its base, the low 20 bits of its limit, its access
byte and the high half of its flags. -/
theorem segment_GDT_ENTRY (base limit : Word) (access flags : Byte) :
    Segment.ofBits (GDT_ENTRY base limit access flags).bits =
      ⟨base, limit.setWidth 20, access, flags.extractLsb' 4 4⟩ := by
  have hhalf : ∀ j < 16, (0xFFFF#32).getLsbD j = true := by decide
  have hbyte : ∀ j < 8, (0xFF#32).getLsbD j = true := by decide
  obtain ⟨hlimit, hflags⟩ := limitHi_flags limit flags
  rw [segment_bits]
  simp only [GDT_ENTRY, hlimit, hflags, Segment.mk.injEq, and_true]
  constructor
  all_goals
    ext i hi
    simp only [BitVec.getElem_append, BitVec.getElem_setWidth, BitVec.getElem_extractLsb',
      BitVec.getLsbD_and, BitVec.getLsbD_ushiftRight]
    grind

/-! ### Gates -/

/-- `IDTEntry`. -/
structure IDTEntry where
  baseLow : BitVec 16
  segmentSelector : BitVec 16
  reserved : Byte
  flags : Byte
  baseHigh : BitVec 16
deriving DecidableEq

/-- The bytes of a packed `IDTEntry`, as one number. -/
def IDTEntry.bits (e : IDTEntry) : Descriptor :=
  e.baseHigh ++ e.flags ++ e.reserved ++ e.segmentSelector ++ e.baseLow

/-- `IDT_FLAG_PRESENT`. -/
def IDT_FLAG_PRESENT : Byte := 0x80#8

/-- `IDT_FLAG_RING0 | IDT_FLAG_GATE_32BIT_INT`. -/
def stubFlags : Byte := 0x00#8 ||| 0x0E#8

/-- `g_IDT` and `g_ISRHandlers`, whose entries are functions, or null pointers. -/
structure IsrTables (ι : Type*) where
  idt : Fin 256 → IDTEntry
  handlers : Fin 256 → Option ι

variable {ι : Type*}

/-- The entry that `i686_IDT_SetGate` stores. -/
def gateEntry (base : Addr) (segmentDescriptor : BitVec 16) (flags : Byte) : IDTEntry where
  baseLow := (base &&& 0xFFFF#32).setWidth 16
  segmentSelector := segmentDescriptor
  reserved := 0#8
  flags := flags
  baseHigh := ((base >>> 16) &&& 0xFFFF#32).setWidth 16

namespace IsrTables

/-- `i686_IDT_SetGate`. -/
def i686IDTSetGate (interrupt : Fin 256) (base : Addr) (segmentDescriptor : BitVec 16)
    (flags : Byte) (t : IsrTables ι) : IsrTables ι :=
  { t with idt := Function.update t.idt interrupt (gateEntry base segmentDescriptor flags) }

/-- `i686_IDT_EnableGate`. -/
def i686IDTEnableGate (interrupt : Fin 256) (t : IsrTables ι) : IsrTables ι :=
  let e := t.idt interrupt
  { t with idt := Function.update t.idt interrupt { e with flags := e.flags ||| IDT_FLAG_PRESENT } }

/-- `i686_IDT_DisableGate`. -/
def i686IDTDisableGate (interrupt : Fin 256) (t : IsrTables ι) : IsrTables ι :=
  let e := t.idt interrupt
  { t with
    idt := Function.update t.idt interrupt { e with flags := e.flags &&& ~~~IDT_FLAG_PRESENT } }

/-- `i686_ISR_InitializeGates`, where `isr v` is the address of the stub `i686_ISRv`. -/
def i686ISRInitializeGates (isr : Fin 256 → Addr) (t : IsrTables ι) : IsrTables ι :=
  (List.finRange 256).foldl
    (fun t v => t.i686IDTSetGate v (isr v) i686_GDT_CODE_SEGMENT stubFlags) t

/-- `i686_ISR_Initialize`. -/
def i686ISRInitialize (isr : Fin 256 → Addr) (t : IsrTables ι) : IsrTables ι :=
  let t := t.i686ISRInitializeGates isr
  let t := (List.finRange 256).foldl (fun t v => t.i686IDTEnableGate v) t
  t.i686IDTDisableGate 0x80

/-- `i686_ISR_RegisterHandler`. -/
def i686ISRRegisterHandler (interrupt : Fin 256) (handler : ι) (t : IsrTables ι) : IsrTables ι :=
  { t with handlers := Function.update t.handlers interrupt (some handler) }.i686IDTEnableGate
    interrupt

end IsrTables

/-- A call behind the set-up. -/
inductive GateCall (ι : Type*)
  | enable (interrupt : Fin 256)
  | disable (interrupt : Fin 256)
  | register (interrupt : Fin 256) (handler : ι)

namespace GateCall

/-- The vector that the call is for. -/
def vector : GateCall ι → Fin 256
  | .enable v => v
  | .disable v => v
  | .register v _ => v

/-- The handler that the call registers. -/
def handler? : GateCall ι → Option ι
  | .register _ f => some f
  | _ => none

/-- The call leaves the gate of its vector present. -/
def enables : GateCall ι → Bool
  | .disable _ => false
  | _ => true

end GateCall

/-- What a call does. -/
def IsrTables.exec (t : IsrTables ι) : GateCall ι → IsrTables ι
  | .enable v => t.i686IDTEnableGate v
  | .disable v => t.i686IDTDisableGate v
  | .register v f => t.i686ISRRegisterHandler v f

/-- The stub that is found at an address. -/
def stubAt (isr : Fin 256 → Addr) (a : Addr) : Option (Fin 256) :=
  (List.finRange 256).find? fun v => isr v = a

/-- The tables behind the set-up and some calls. -/
def IsrTables.after (isr : Fin 256 → Addr) (t : IsrTables ι) (cs : List (GateCall ι)) :
    IsrTables ι :=
  cs.foldl IsrTables.exec (t.i686ISRInitialize isr)

/-! ### What the processor reads -/

/-- The fields that are read from an entry. -/
lemma gate_bits (e : IDTEntry) : Gate.ofBits e.bits =
    ⟨e.baseHigh ++ e.baseLow, e.segmentSelector, e.flags.extractLsb' 0 4,
      e.flags.extractLsb' 5 2, e.flags.getLsbD 7⟩ := by
  obtain ⟨baseLow, segmentSelector, reserved, flags, baseHigh⟩ := e
  simp only [Gate.ofBits, IDTEntry.bits, Gate.mk.injEq]
  refine ⟨?_, ?_, ?_, ?_, ?_⟩
  case refine_5 =>
    simp only [BitVec.getLsbD_append]
    grind
  all_goals
    ext i hi
    simp only [BitVec.getElem_append, BitVec.getElem_extractLsb', BitVec.getLsbD_append]
    grind

/-- The two halves of an address. -/
lemma append_halves (base : Addr) :
    (((base >>> 16) &&& 0xFFFF#32).setWidth 16 ++ (base &&& 0xFFFF#32).setWidth 16 : Addr) =
      base := by
  have hhalf : ∀ j < 16, (0xFFFF#32).getLsbD j = true := by decide
  ext i hi
  simp only [BitVec.getElem_append, BitVec.getElem_setWidth, BitVec.getLsbD_and,
    BitVec.getLsbD_ushiftRight]
  grind

/-- The entry for a stub, present or not. -/
def stubEntry (base : Addr) (present : Bool) : IDTEntry :=
  gateEntry base i686_GDT_CODE_SEGMENT (if present then 0x8E#8 else 0x0E#8)

lemma gate_stubEntry (base : Addr) (present : Bool) : Gate.ofBits (stubEntry base present).bits =
    ⟨base, i686_GDT_CODE_SEGMENT, interruptGate, 0#2, present⟩ := by
  rw [gate_bits]
  simp only [stubEntry, gateEntry, append_halves]
  cases present <;> rfl

/-- Every offset is an address in the segment of the kernel's code. -/
lemma linear_codeSegment (offset : Addr) :
    linear (g_GDT.map GDTEntry.bits) i686_GDT_CODE_SEGMENT offset = some offset := by
  have hsegment : (selected (g_GDT.map GDTEntry.bits) i686_GDT_CODE_SEGMENT).map Segment.ofBits =
      some ⟨0#32, 0xFFFFF#20, codeAccess, 0xC#4⟩ :=
    congrArg some (segment_GDT_ENTRY 0#32 0xFFFFF#32 codeAccess flatFlags)
  have hlimit : offset ≤ 0xFFFFFFFF#32 := by
    rw [BitVec.le_def]
    exact Nat.le_of_lt_succ offset.isLt
  rw [linear, hsegment]
  simp only [BitVec.zero_add]
  exact if_pos ⟨rfl, hlimit⟩

/-- The target of a stub's gate. -/
lemma vectorTarget_stubEntry {idt : Fin 256 → Descriptor} {v : Fin 256} {base : Addr}
    {present : Bool} (hv : idt v = (stubEntry base present).bits) :
    vectorTarget (g_GDT.map GDTEntry.bits) idt v = if present then some base else none := by
  have hsegment : (selected (g_GDT.map GDTEntry.bits) i686_GDT_CODE_SEGMENT).map Segment.ofBits =
      some ⟨0#32, 0xFFFFF#20, codeAccess, 0xC#4⟩ :=
    congrArg some (segment_GDT_ENTRY 0#32 0xFFFFF#32 codeAccess flatFlags)
  rw [vectorTarget, hv, gate_stubEntry]
  simp only [hsegment, linear_codeSegment]
  cases present <;> rfl

/-- The stubs are at different places. -/
lemma stubAt_isr {isr : Fin 256 → Addr} (hisr : Function.Injective isr) (v : Fin 256) :
    stubAt isr (isr v) = some v := by
  rw [stubAt]
  have hmem := List.mem_finRange v
  generalize List.finRange 256 = vs at hmem ⊢
  cases hfind : vs.find? fun u => isr u = isr v with
  | none =>
      have hne := List.find?_eq_none.mp hfind v hmem
      simp at hne
  | some u =>
      have hu := List.find?_some hfind
      exact congrArg some (hisr (by simpa using hu))

/-- Stubs may be at different places. -/
lemma injective_ofNat : Function.Injective fun v : Fin 256 => (BitVec.ofNat 32 v : Addr) := by
  intro v w hvw
  have hnat := congrArg BitVec.toNat hvw
  simp only [BitVec.toNat_ofNat] at hnat
  omega

/-! ### The tables behind any order of calls -/

section After

variable {t : IsrTables ι} {isr : Fin 256 → Addr} {v : Fin 256}

/-- The gate of a vector is present behind the calls: the last one for it did not disable it. -/
def presentAfter (cs : List (GateCall ι)) (v : Fin 256) : Bool :=
  match cs.reverse.find? fun c => c.vector = v with
  | some c => c.enables
  | none => v ≠ 0x80

/-- The handler of a vector that the calls have registered last. -/
def handlerAfter (cs : List (GateCall ι)) (v : Fin 256) : Option ι :=
  (cs.reverse.filter fun c => c.vector = v).findSome? GateCall.handler?

lemma initializeGates_idt (isr : Fin 256 → Addr) (t : IsrTables ι) (vs : List (Fin 256)) :
    (vs.foldl (fun t v => t.i686IDTSetGate v (isr v) i686_GDT_CODE_SEGMENT stubFlags) t).idt v =
      if v ∈ vs then stubEntry (isr v) false else t.idt v := by
  induction vs using List.reverseRecOn with
  | nil => rfl
  | append_singleton vs u ih =>
      rw [List.foldl_append]
      by_cases hu : v = u
      · subst hu
        rw [if_pos (by simp)]
        exact Function.update_self ..
      · refine (Function.update_of_ne hu _ _).trans (ih.trans ?_)
        simp [hu]

lemma enableGate_stubEntry {base : Addr} {present : Bool} (u : Fin 256)
    (hv : t.idt v = stubEntry base present) :
    (t.i686IDTEnableGate u).idt v = stubEntry base (present || decide (u = v)) := by
  by_cases hu : u = v
  · subst hu
    refine (Function.update_self ..).trans ?_
    rw [hv]
    cases present <;> simp [stubEntry, gateEntry, IDT_FLAG_PRESENT]
  · refine (Function.update_of_ne (Ne.symm hu) _ _).trans ?_
    simp [hv, hu]

lemma disableGate_stubEntry {base : Addr} {present : Bool} (u : Fin 256)
    (hv : t.idt v = stubEntry base present) :
    (t.i686IDTDisableGate u).idt v = stubEntry base (present && decide (u ≠ v)) := by
  by_cases hu : u = v
  · subst hu
    refine (Function.update_self ..).trans ?_
    rw [hv]
    cases present <;> simp [stubEntry, gateEntry, IDT_FLAG_PRESENT]
  · refine (Function.update_of_ne (Ne.symm hu) _ _).trans ?_
    simp [hv, hu]

lemma enableGates_idt {base : Addr} (vs : List (Fin 256)) (hv : t.idt v = stubEntry base false) :
    (vs.foldl (fun t v => t.i686IDTEnableGate v) t).idt v = stubEntry base (decide (v ∈ vs)) := by
  induction vs using List.reverseRecOn with
  | nil => simpa using hv
  | append_singleton vs u ih =>
      rw [List.foldl_append]
      refine (enableGate_stubEntry u ih).trans ?_
      simp [eq_comm (a := u)]

/-- The set-up: all gates are present but the one for the system calls. -/
lemma initialize_idt (isr : Fin 256 → Addr) (t : IsrTables ι) (v : Fin 256) :
    (t.i686ISRInitialize isr).idt v = stubEntry (isr v) (decide (v ≠ 0x80)) := by
  have hmem := List.mem_finRange v
  rw [IsrTables.i686ISRInitialize, IsrTables.i686ISRInitializeGates]
  generalize List.finRange 256 = vs at hmem ⊢
  have hgates := (initializeGates_idt (v := v) isr t vs).trans (if_pos hmem)
  rw [disableGate_stubEntry 0x80 (enableGates_idt vs hgates), decide_eq_true hmem, Bool.true_and,
    decide_eq_decide.mpr ne_comm]

lemma handlers_foldl {f : IsrTables ι → Fin 256 → IsrTables ι}
    (hf : ∀ t v, (f t v).handlers = t.handlers) (vs : List (Fin 256)) (t : IsrTables ι) :
    (vs.foldl f t).handlers = t.handlers := by
  induction vs generalizing t with
  | nil => rfl
  | cons u vs ih => exact (ih (f t u)).trans (hf t u)

lemma initialize_handlers (isr : Fin 256 → Addr) (t : IsrTables ι) :
    (t.i686ISRInitialize isr).handlers = t.handlers := by
  rw [IsrTables.i686ISRInitialize, IsrTables.i686ISRInitializeGates]
  generalize List.finRange 256 = vs
  have hsets := handlers_foldl (f := fun t v => t.i686IDTSetGate v (isr v) i686_GDT_CODE_SEGMENT
    stubFlags) (fun _ _ => rfl) vs t
  have henables := handlers_foldl (f := fun t v => IsrTables.i686IDTEnableGate v t)
    (fun _ _ => rfl) vs (vs.foldl (fun t v => t.i686IDTSetGate v (isr v) i686_GDT_CODE_SEGMENT
      stubFlags) t)
  exact henables.trans hsets

lemma tables_after_snoc (isr : Fin 256 → Addr) (t : IsrTables ι) (cs : List (GateCall ι))
    (c : GateCall ι) : t.after isr (cs ++ [c]) = (t.after isr cs).exec c :=
  List.foldl_append

lemma presentAfter_snoc (cs : List (GateCall ι)) (c : GateCall ι) (v : Fin 256) :
    presentAfter (cs ++ [c]) v = if c.vector = v then c.enables else presentAfter cs v := by
  rw [presentAfter, List.reverse_append, List.reverse_singleton, List.singleton_append,
    List.find?_cons]
  by_cases hv : c.vector = v
  · rw [if_pos hv, decide_eq_true hv]
  · rw [if_neg hv, decide_eq_false hv, presentAfter]

lemma handlerAfter_snoc (cs : List (GateCall ι)) (c : GateCall ι) (v : Fin 256) :
    handlerAfter (cs ++ [c]) v =
      if c.vector = v then c.handler?.or (handlerAfter cs v) else handlerAfter cs v := by
  rw [handlerAfter, List.reverse_append, List.reverse_singleton, List.singleton_append,
    List.filter_cons]
  by_cases hv : c.vector = v
  · rw [if_pos hv, decide_eq_true hv, if_pos rfl, List.findSome?_cons, handlerAfter]
    cases c.handler? <;> rfl
  · rw [if_neg hv, decide_eq_false hv, if_neg (by decide), handlerAfter]

/-- The entries behind the calls. -/
lemma idt_after (isr : Fin 256 → Addr) (t : IsrTables ι) (cs : List (GateCall ι)) (v : Fin 256) :
    (t.after isr cs).idt v = stubEntry (isr v) (presentAfter cs v) := by
  induction cs using List.reverseRecOn with
  | nil => exact initialize_idt isr t v
  | append_singleton cs c ih =>
      rw [tables_after_snoc, presentAfter_snoc]
      cases c with
      | enable u =>
          refine (enableGate_stubEntry u ih).trans ?_
          by_cases hu : u = v <;> simp [hu, GateCall.vector, GateCall.enables]
      | disable u =>
          refine (disableGate_stubEntry u ih).trans ?_
          by_cases hu : u = v <;> simp [hu, GateCall.vector, GateCall.enables]
      | register u f =>
          refine (enableGate_stubEntry u ih).trans ?_
          by_cases hu : u = v <;> simp [hu, GateCall.vector, GateCall.enables]

/-- The handlers behind the calls. -/
lemma handlers_after (isr : Fin 256 → Addr) (t : IsrTables ι) (cs : List (GateCall ι))
    (v : Fin 256) : (t.after isr cs).handlers v = (handlerAfter cs v).or (t.handlers v) := by
  induction cs using List.reverseRecOn with
  | nil => exact congrFun (initialize_handlers isr t) v
  | append_singleton cs c ih =>
      rw [tables_after_snoc, handlerAfter_snoc]
      cases c with
      | enable u =>
          refine ih.trans ?_
          by_cases hu : u = v <;> simp [hu, GateCall.vector, GateCall.handler?]
      | disable u =>
          refine ih.trans ?_
          by_cases hu : u = v <;> simp [hu, GateCall.vector, GateCall.handler?]
      | register u f =>
          by_cases hu : u = v
          · subst hu
            refine (Function.update_self ..).trans ?_
            simp [GateCall.vector, GateCall.handler?]
          · refine (Function.update_of_ne (Ne.symm hu) _ _).trans (ih.trans ?_)
            simp [hu, GateCall.vector]

/-- **An interrupt leads to the stub of its vector** behind the set-up and any order of calls,
through the gate and the segment it names, exactly as long as the last call for the vector did not
disable the gate; and its handler is the one registered last. -/
theorem vectorTarget_after (isr : Fin 256 → Addr) (t : IsrTables ι) (cs : List (GateCall ι))
    (v : Fin 256) :
    vectorTarget (g_GDT.map GDTEntry.bits) (fun u => ((t.after isr cs).idt u).bits) v =
        (if presentAfter cs v then some (isr v) else none) ∧
      (t.after isr cs).handlers v = (handlerAfter cs v).or (t.handlers v) :=
  ⟨vectorTarget_stubEntry (congrArg IDTEntry.bits (idt_after isr t cs v)),
    handlers_after isr t cs v⟩

end After

end MiqOSoft
