import MiqOSoft.Machine.Memory

/-!
The disk of the boot loader's second stage: `disk.c`, and the routines of `x86.asm` that it calls
the BIOS with.

* `x86DiskGetDriveParams`, `x86DiskReadRegisters`: what the routines take out of the registers of
  INT 13h, and put into them.  The BIOS is a parameter.
* `diskLba2Chs`, `diskReadSectors`: the functions of `disk.c`.
* `decodeLba`: the sector that the registers name.
* `decodeLba_readRegisters`: it is the one asked for up to the last of 1024 cylinders; from there on
  the cylinder is taken modulo 1024.
-/

namespace MiqOSoft

open Machine

/-! ### The drive -/

/-- `DISK`. -/
structure Disk where
  id : Byte
  cylinders : BitVec 16
  sectors : BitVec 16
  heads : BitVec 16

/-- The cylinders, sectors and heads that `x86_Disk_GetDriveParams` takes out of the registers. -/
def x86DiskGetDriveParams (ch cl dh : Byte) : BitVec 16 × BitVec 16 × BitVec 16 :=
  ((cl >>> 6) ++ ch + 1#16, (cl &&& 0x3F#8).setWidth 16, dh.setWidth 16 + 1#16)

/-- A geometry with 1 to 1024 cylinders, 1 to 256 heads and 1 to 63 sectors per track. -/
structure Disk.Reportable (disk : Disk) : Prop where
  cylinders : 1 ≤ disk.cylinders.toNat ∧ disk.cylinders.toNat ≤ 1024
  heads : 1 ≤ disk.heads.toNat ∧ disk.heads.toNat ≤ 256
  sectors : 1 ≤ disk.sectors.toNat ∧ disk.sectors.toNat ≤ 63

/-! ### Calling the BIOS -/

/-- The registers of INT 13h, AH = 02h. -/
structure ReadRegisters where
  al : Byte
  ch : Byte
  cl : Byte
  dh : Byte
  dl : Byte
  es : BitVec 16
  bx : BitVec 16

/-- A call of INT 13h: AH = 02h, or AH = 00h with the drive in DL. -/
inductive Int13Call
  | read (regs : ReadRegisters)
  | reset (dl : Byte)

/-- The BIOS: whether it sets the carry flag, and what the call does to the machine. -/
abbrev Bios (σ : Type) := Int13Call → σ → Bool × σ

/-- The machine, and the calls of INT 13h made, oldest first. -/
structure BiosState (σ : Type) where
  machine : σ
  calls : List Int13Call

variable {σ : Type}

/-- INT 13h with the carry flag set before: 1 if the BIOS clears it. -/
def int13 (bios : Bios σ) (call : Int13Call) (s : BiosState σ) : Bool × BiosState σ :=
  (!(bios call s.machine).1, ⟨(bios call s.machine).2, s.calls ++ [call]⟩)

/-- The registers that `x86_Disk_Read` sets up. -/
def x86DiskReadRegisters (drive : Byte) (cylinder sector head : BitVec 16) (count : Byte)
    (dataOut : Word) : ReadRegisters where
  dl := drive
  ch := cylinder.setWidth 8
  cl := (cylinder >>> 8).setWidth 8 <<< 6 ||| sector.setWidth 8 &&& 0x3F#8
  dh := head.setWidth 8
  al := count
  es := (dataOut >>> 4).setWidth 16
  bx := (dataOut &&& 0xF#32).setWidth 16

/-- `x86_Disk_Read`. -/
def x86DiskRead (bios : Bios σ) (drive : Byte) (cylinder sector head : BitVec 16) (count : Byte)
    (dataOut : Word) (s : BiosState σ) : Bool × BiosState σ :=
  int13 bios (.read (x86DiskReadRegisters drive cylinder sector head count dataOut)) s

/-- `x86_Disk_Reset`. -/
def x86DiskReset (bios : Bios σ) (drive : Byte) (s : BiosState σ) : Bool × BiosState σ :=
  int13 bios (.reset drive) s

/-! ### The functions of `disk.c` -/

/-- The three results of `DISK_LBA2CHS`. -/
structure Chs where
  cylinder : BitVec 16
  sector : BitVec 16
  head : BitVec 16

/-- `DISK_LBA2CHS`, which divides by zero on a drive without sectors or heads. -/
def diskLba2Chs (disk : Disk) (lba : Word) : Option Chs :=
  if disk.sectors = 0#16 ∨ disk.heads = 0#16 then none
  else some {
    sector := (lba % disk.sectors.setWidth 32 + 1#32).setWidth 16
    cylinder := (lba / disk.sectors.setWidth 32 / disk.heads.setWidth 32).setWidth 16
    head := (lba / disk.sectors.setWidth 32 % disk.heads.setWidth 32).setWidth 16 }

/-- The attempts of `DISK_ReadSectors`, each but a successful one followed by a reset. -/
def readAttempts (bios : Bios σ) (disk : Disk) (chs : Chs) (sectors : Byte) (dataOut : Word) :
    ℕ → BiosState σ → Bool × BiosState σ
  | 0, s => (false, s)
  | n + 1, s =>
      let (ok, s) := x86DiskRead bios disk.id chs.cylinder chs.sector chs.head sectors dataOut s
      if ok then (true, s)
      else
        let (_, s) := x86DiskReset bios disk.id s
        readAttempts bios disk chs sectors dataOut n s

/-- `DISK_ReadSectors`. -/
def diskReadSectors (bios : Bios σ) (disk : Disk) (lba : Word) (sectors : Byte) (dataOut : Word)
    (s : BiosState σ) : Option (Bool × BiosState σ) := do
  let chs ← diskLba2Chs disk lba
  some (readAttempts bios disk chs sectors dataOut 3 s)

/-! ### What the registers name -/

/-- The cylinder: its low eight bits are in CH, the other two in bits 6 and 7 of CL. -/
def ReadRegisters.cylinder (r : ReadRegisters) : ℕ := 256 * (r.cl >>> 6).toNat + r.ch.toNat

/-- The sector, counted from 1, in bits 0 to 5 of CL. -/
def ReadRegisters.sector (r : ReadRegisters) : ℕ := (r.cl &&& 0x3F#8).toNat

/-- The head, in DH. -/
def ReadRegisters.head (r : ReadRegisters) : ℕ := r.dh.toNat

/-- The address of the sector that the registers name on a drive. -/
def decodeLba (disk : Disk) (r : ReadRegisters) : ℕ :=
  (r.cylinder * disk.heads.toNat + r.head) * disk.sectors.toNat + (r.sector - 1)

/-- The number of sectors on 1024 cylinders, the most that the registers can name. -/
def Disk.reach (disk : Disk) : ℕ := 1024 * disk.heads.toNat * disk.sectors.toNat

/-- Every read that was asked of the BIOS names the sector at `lba`. -/
def ReadsSector (disk : Disk) (lba : Word) (s : BiosState σ) : Prop :=
  ∀ r, Int13Call.read r ∈ s.calls → decodeLba disk r = lba.toNat

/-! ### Packing -/

/-- Bits 6 and 7 of CL are the low two bits of the cylinder's high byte. -/
lemma packed_high (a b : Byte) : (a <<< 6 ||| b &&& 0x3F#8) >>> 6 = a &&& 3#8 := by
  apply BitVec.eq_of_getLsbD_eq
  intro i hi
  interval_cases i <;> simp

/-- Bits 0 to 5 of CL are those of the sector. -/
lemma packed_low (a b : Byte) : (a <<< 6 ||| b &&& 0x3F#8) &&& 0x3F#8 = b &&& 0x3F#8 := by
  apply BitVec.eq_of_getLsbD_eq
  intro i hi
  interval_cases i <;> simp

section packing

variable (drive : Byte) (cylinder sector head : BitVec 16) (count : Byte) (dataOut : Word)

/-- Only ten bits of the cylinder reach the BIOS. -/
lemma cylinder_readRegisters :
    (x86DiskReadRegisters drive cylinder sector head count dataOut).cylinder =
      cylinder.toNat % 1024 := by
  have hthree : ∀ b : Byte, (b &&& 3#8).toNat = b.toNat % 4 := by
    intro b
    rw [BitVec.toNat_and]
    exact Nat.and_two_pow_sub_one_eq_mod b.toNat 2
  rw [ReadRegisters.cylinder, x86DiskReadRegisters, packed_high, hthree]
  simp only [BitVec.toNat_setWidth, BitVec.toNat_ushiftRight, Nat.shiftRight_eq_div_pow]
  omega

lemma sector_readRegisters :
    (x86DiskReadRegisters drive cylinder sector head count dataOut).sector =
      sector.toNat % 64 := by
  rw [ReadRegisters.sector, x86DiskReadRegisters, packed_low, BitVec.toNat_and]
  rw [show (0x3F#8).toNat = 2 ^ 6 - 1 from rfl, Nat.and_two_pow_sub_one_eq_mod,
    BitVec.toNat_setWidth]
  omega

lemma head_readRegisters :
    (x86DiskReadRegisters drive cylinder sector head count dataOut).head = head.toNat % 256 :=
  BitVec.toNat_setWidth 8 head

end packing

/-- Every register content that reports a sector gives a geometry in the bounds. -/
theorem reportable_getDriveParams (id ch cl dh : Byte) (h : cl &&& 0x3F#8 ≠ 0#8) :
    Disk.Reportable ⟨id, (x86DiskGetDriveParams ch cl dh).1, (x86DiskGetDriveParams ch cl dh).2.1,
      (x86DiskGetDriveParams ch cl dh).2.2⟩ := by
  have hcl : (cl >>> 6).toNat < 4 := by
    rw [BitVec.toNat_ushiftRight, Nat.shiftRight_eq_div_pow]
    omega
  have hsector : (cl &&& 0x3F#8).toNat ≤ 63 := by
    rw [BitVec.toNat_and]
    exact Nat.and_le_right
  have hpos : (cl &&& 0x3F#8).toNat ≠ 0 := fun h0 => h (BitVec.eq_of_toNat_eq h0)
  have happend : ((cl >>> 6) ++ ch).toNat = 256 * (cl >>> 6).toNat + ch.toNat := by
    rw [BitVec.toNat_append, Nat.shiftLeft_eq, Nat.mul_comm,
      ← Nat.two_pow_add_eq_or_of_lt ch.isLt]
  refine ⟨?_, ?_, ?_⟩
  · simp only [x86DiskGetDriveParams, BitVec.toNat_add, happend, BitVec.toNat_ofNat]
    omega
  · simp only [x86DiskGetDriveParams, BitVec.toNat_add, BitVec.toNat_setWidth,
      BitVec.toNat_ofNat]
    omega
  · simp only [x86DiskGetDriveParams, BitVec.toNat_setWidth]
    omega

/-! ### Cylinder, head and sector -/

/-- A number is read back from its digits unless the first of them has been cut down. -/
lemma digits_eq_iff {lba h s m : ℕ} (hh : 0 < h) (hs : 0 < s) (hm : 0 < m) :
    (lba / s / h % m * h + lba / s % h) * s + lba % s = lba ↔ lba < m * h * s := by
  have hlba : (lba / s / h * h + lba / s % h) * s + lba % s = lba := by
    rw [Nat.div_add_mod', Nat.div_add_mod']
  have hlt : lba < m * h * s ↔ lba / s / h < m := by
    rw [Nat.div_lt_iff_lt_mul hh, Nat.div_lt_iff_lt_mul hs]
  rw [hlt]
  constructor
  · intro heq
    have hcut : lba / s / h % m = lba / s / h := by
      have hsum := Nat.add_right_cancel (heq.trans hlba.symm)
      have hrow := Nat.add_right_cancel (Nat.eq_of_mul_eq_mul_right hs hsum)
      exact Nat.eq_of_mul_eq_mul_right hh hrow
    rw [← hcut]
    exact Nat.mod_lt _ hm
  · intro hq
    rw [Nat.mod_eq_of_lt hq, hlba]

/-- The results of `DISK_LBA2CHS` as numbers. -/
lemma diskLba2Chs_spec {disk : Disk} (hgeo : disk.Reportable) (lba : Word) :
    ∃ chs, diskLba2Chs disk lba = some chs ∧
      chs.sector.toNat = lba.toNat % disk.sectors.toNat + 1 ∧
      chs.cylinder.toNat = lba.toNat / disk.sectors.toNat / disk.heads.toNat % 65536 ∧
      chs.head.toNat = lba.toNat / disk.sectors.toNat % disk.heads.toNat := by
  obtain ⟨-, ⟨hh, hh'⟩, hs, hs'⟩ := hgeo
  have hpos : ¬(disk.sectors = 0#16 ∨ disk.heads = 0#16) := by
    rintro (h | h)
    · rw [h] at hs
      exact absurd hs (by decide)
    · rw [h] at hh
      exact absurd hh (by decide)
  have hwide : ∀ b : BitVec 16, (b.setWidth 32).toNat = b.toNat := by
    intro b
    rw [BitVec.toNat_setWidth]
    exact Nat.mod_eq_of_lt (b.isLt.trans (by decide))
  have hsector : lba.toNat % disk.sectors.toNat < disk.sectors.toNat := Nat.mod_lt _ hs
  have hhead : lba.toNat / disk.sectors.toNat % disk.heads.toNat < disk.heads.toNat :=
    Nat.mod_lt _ hh
  refine ⟨_, if_neg hpos, ?_, ?_, ?_⟩
  · simp only [BitVec.toNat_setWidth, BitVec.toNat_add, BitVec.toNat_umod, hwide,
      BitVec.toNat_ofNat]
    omega
  · simp only [BitVec.toNat_setWidth, BitVec.toNat_udiv, hwide]
  · simp only [BitVec.toNat_setWidth, BitVec.toNat_umod, BitVec.toNat_udiv, hwide]
    omega

/-- The registers that `DISK_ReadSectors` asks the BIOS with. -/
def Chs.registers (disk : Disk) (chs : Chs) (sectors : Byte) (dataOut : Word) : ReadRegisters :=
  x86DiskReadRegisters disk.id chs.cylinder chs.sector chs.head sectors dataOut

/-- **The sector that the registers name**: the one asked for exactly up to the last of 1024
cylinders. -/
theorem decodeLba_registers {disk : Disk} (hgeo : disk.Reportable) {lba : Word} {chs : Chs}
    (h : diskLba2Chs disk lba = some chs) (sectors : Byte) (dataOut : Word) :
    decodeLba disk (chs.registers disk sectors dataOut) = lba.toNat ↔ lba.toNat < disk.reach := by
  obtain ⟨chs', h', hsector, hcylinder, hhead⟩ := diskLba2Chs_spec hgeo lba
  obtain rfl := Option.some.inj (h.symm.trans h')
  obtain ⟨-, ⟨hh, hh'⟩, hs, hs'⟩ := hgeo
  have hsector' : lba.toNat % disk.sectors.toNat < disk.sectors.toNat := Nat.mod_lt _ hs
  have hhead' : lba.toNat / disk.sectors.toNat % disk.heads.toNat < disk.heads.toNat :=
    Nat.mod_lt _ hh
  rw [Disk.reach, ← digits_eq_iff hh hs (by decide), decodeLba, Chs.registers,
    cylinder_readRegisters, sector_readRegisters, head_readRegisters, hsector, hcylinder, hhead,
    Nat.mod_mod_of_dvd _ (by decide), Nat.mod_eq_of_lt (hhead'.trans_le hh'),
    Nat.mod_eq_of_lt (show lba.toNat % disk.sectors.toNat + 1 < 64 by omega),
    Nat.add_sub_cancel]

/-! ### The attempts -/

section attempts

variable (bios : Bios σ) (disk : Disk) (chs : Chs) (sectors : Byte) (dataOut : Word)

lemma readAttempts_succ (n : ℕ) (s : BiosState σ) :
    readAttempts bios disk chs sectors dataOut (n + 1) s =
      if (int13 bios (.read (chs.registers disk sectors dataOut)) s).1 then
        (true, (int13 bios (.read (chs.registers disk sectors dataOut)) s).2)
      else readAttempts bios disk chs sectors dataOut n (int13 bios (.reset disk.id)
        (int13 bios (.read (chs.registers disk sectors dataOut)) s).2).2 :=
  rfl

/-- All attempts ask for the same. -/
lemma read_mem_readAttempts (n : ℕ) (s : BiosState σ) {r : ReadRegisters}
    (h : Int13Call.read r ∈ (readAttempts bios disk chs sectors dataOut n s).2.calls) :
    Int13Call.read r ∈ s.calls ∨ r = chs.registers disk sectors dataOut := by
  induction n generalizing s with
  | zero => exact Or.inl h
  | succ n ih =>
      rw [readAttempts_succ] at h
      split_ifs at h with hok
      · simpa [int13] using h
      · simpa [int13, or_assoc] using ih _ h

/-- An attempt that succeeds has asked the BIOS. -/
lemma registers_mem_readAttempts (n : ℕ) (s : BiosState σ)
    (h : (readAttempts bios disk chs sectors dataOut n s).1 = true) :
    Int13Call.read (chs.registers disk sectors dataOut) ∈
      (readAttempts bios disk chs sectors dataOut n s).2.calls := by
  induction n generalizing s with
  | zero => exact absurd h Bool.false_ne_true
  | succ n ih =>
      rw [readAttempts_succ] at h ⊢
      split_ifs at h ⊢ with hok
      · exact List.mem_append_right _ (List.mem_singleton_self _)
      · exact ih _ h

end attempts

/-- What a read that returns true has asked the BIOS for. -/
lemma readsSector_iff_lt (bios : Bios σ) {disk : Disk} (hgeo : disk.Reportable) (lba : Word)
    (sectors : Byte) (dataOut : Word) (m : σ) {s : BiosState σ}
    (h : diskReadSectors bios disk lba sectors dataOut ⟨m, []⟩ = some (true, s)) :
    ReadsSector disk lba s ↔ lba.toNat < disk.reach := by
  obtain ⟨chs, hchs, hrun⟩ := Option.bind_eq_some_iff.mp h
  have hattempts := Option.some.inj hrun
  rw [← decodeLba_registers hgeo hchs sectors dataOut]
  constructor
  · intro hreads
    refine hreads _ ?_
    have hmem := registers_mem_readAttempts bios disk chs sectors dataOut 3 ⟨m, []⟩
      (by rw [hattempts])
    rwa [hattempts] at hmem
  · intro hdecode r hr
    have hr' : Int13Call.read r ∈
        (readAttempts bios disk chs sectors dataOut 3 ⟨m, []⟩).2.calls := by rwa [hattempts]
    rcases read_mem_readAttempts bios disk chs sectors dataOut 3 ⟨m, []⟩ hr' with hold | rfl
    · exact absurd hold List.not_mem_nil
    · exact hdecode

/-- **When a read that returns true has read the sector asked for**: on every drive the registers
that `x86_Disk_Read` has built name the sector at `lba` if and only if `lba` lies on the first 1024
cylinders, and two such addresses are never read from one cylinder, head and sector. -/
theorem readsSector_iff (bios : Bios σ) {disk : Disk} (hgeo : disk.Reportable) (lba : Word)
    (sectors : Byte) (dataOut : Word) (m : σ) {s : BiosState σ}
    (h : diskReadSectors bios disk lba sectors dataOut ⟨m, []⟩ = some (true, s)) :
    (ReadsSector disk lba s ↔ lba.toNat < disk.reach) ∧
      (lba.toNat < disk.reach → ∀ lba' sectors' dataOut' m' s',
        diskReadSectors bios disk lba' sectors' dataOut' ⟨m', []⟩ = some (true, s') →
        lba'.toNat < disk.reach →
        ∀ r r', Int13Call.read r ∈ s.calls → Int13Call.read r' ∈ s'.calls →
          r.cylinder = r'.cylinder → r.head = r'.head → r.sector = r'.sector → lba = lba') := by
  refine ⟨readsSector_iff_lt bios hgeo lba sectors dataOut m h, ?_⟩
  intro hlba lba' sectors' dataOut' m' s' h' hlba' r r' hr hr' hcylinder hhead hsector
  have hreads := (readsSector_iff_lt bios hgeo lba sectors dataOut m h).mpr hlba
  have hreads' := (readsSector_iff_lt bios hgeo lba' sectors' dataOut' m' h').mpr hlba'
  apply BitVec.eq_of_toNat_eq
  rw [← hreads r hr, ← hreads' r' hr', decodeLba, decodeLba, hcylinder, hhead, hsector]

/-- A BIOS that reports no error. -/
def willingBios : Bios Unit := fun _ m => (false, m)

/-- A drive with 1024 cylinders, 16 heads and 63 sectors per track. -/
def largeDrive : Disk := ⟨0x80#8, 1024#16, 63#16, 16#16⟩

/-- Behind the last cylinder the drive is read from the beginning again: sector 1032192 is read
with the registers of sector 0. -/
theorem not_readsSector_largeDrive :
    ∃ s r, diskReadSectors willingBios largeDrive 1032192#32 1#8 0x7c00#32 ⟨(), []⟩ =
      some (true, s) ∧ Int13Call.read r ∈ s.calls ∧ decodeLba largeDrive r = 0 ∧
      ¬ReadsSector largeDrive 1032192#32 s := by
  refine ⟨_, _, rfl, List.mem_singleton_self _, by decide, ?_⟩
  intro h
  exact absurd (h _ (List.mem_singleton_self _)) (by decide)

/-- The last sector of the drive is read. -/
theorem readsSector_largeDrive :
    ∃ s, diskReadSectors willingBios largeDrive 1032191#32 1#8 0x7c00#32 ⟨(), []⟩ =
      some (true, s) ∧ ReadsSector largeDrive 1032191#32 s :=
  ⟨_, rfl, (readsSector_iff willingBios ⟨by decide, by decide, by decide⟩ _ _ _ _ rfl).1.mpr
    (by decide)⟩

end MiqOSoft
