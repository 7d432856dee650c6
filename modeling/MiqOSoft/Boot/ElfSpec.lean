import MiqOSoft.Boot.ElfRead

/-!
`ELF_Read` on a file.

* `fileHeader`, `fileEntry`: the header and the program header table of a file.
* `Loadable`: the files whose table fits the header buffer and whose segments stay out of the
  loader's memory.
* `elfRead_spec`: on such a file `ELF_Read` returns, succeeds exactly when the table and every
  segment lie in the file, and leaves `loadedByte` all over each segment that no other one meets.
* `elfRead_segment_iff`: such a segment is the file's exactly when its full chunks are zero.
-/

namespace MiqOSoft

open Machine

/-! ### The file -/

/-- The file as a memory. -/
def fileMem (F : List Byte) : Memory := fun a => F.getD a.toNat 0#8

/-- The header of a file. -/
def fileHeader (F : List Byte) : ELFHeader := elfHeader (fileMem F) 0#32

/-- `ProgramHeaderTablePosition` of a file. -/
def tablePos (F : List Byte) : ℕ := (fileHeader F).programHeaderTablePosition.toNat

/-- `ProgramHeaderTableEntrySize` of a file. -/
def entrySize (F : List Byte) : ℕ := (fileHeader F).programHeaderTableEntrySize.toNat

/-- `ProgramHeaderTableEntryCount` of a file. -/
def entryCount (F : List Byte) : ℕ := (fileHeader F).programHeaderTableEntryCount.toNat

/-- Entry `j` of the program header table of a file. -/
def fileEntry (F : List Byte) (j : ℕ) : ELFProgramHeader :=
  progHeader (fileMem F) (BitVec.ofNat 32 (tablePos F + j * entrySize F))

/-- Entry `j` of the file is a segment to load. -/
def IsLoad (F : List Byte) (j : ℕ) : Prop :=
  j < entryCount F ∧ (fileEntry F j).type = ELF_PROGRAM_TYPE_LOAD

/-- The files `ELF_Read` has room for: the file fits above the header buffer, its entries are
program headers, the table fits the header buffer, and no segment meets the loader's memory. -/
structure Loadable (F : List Byte) : Prop where
  length_le : F.length ≤ 0xFFFD0000
  entrySize_ge : 32 ≤ entrySize F
  table_le : entryCount F * entrySize F ≤ 0x10000
  apart : ∀ j, IsLoad F j → Disjoint (fileEntry F j).extent loaderArea

lemma loadIn_fileEntry_iff {F : List Byte} {j : ℕ} :
    LoadIn (fileEntry F) 0 (entryCount F) j ↔ IsLoad F j :=
  ⟨fun h => ⟨by have := h.lt; omega, h.type_eq⟩,
    fun h => ⟨Nat.zero_le j, by have := h.1; omega, h.2⟩⟩

/-- A header depends on its 52 bytes only, wherever they lie. -/
lemma elfHeader_add_congr {m m' : Memory} {a b : Addr}
    (h : ∀ k < 52, m (a + BitVec.ofNat 32 k) = m' (b + BitVec.ofNat 32 k)) :
    elfHeader m a = elfHeader m' b := by
  have h0 : load32 m a = load32 m' b := by
    simpa using load32_add_congr h (o := 0) (by omega)
  rw [elfHeader, elfHeader, h0, h 4 (by omega), h 5 (by omega), h 6 (by omega),
    load16_add_congr h (o := 16) (by omega), load16_add_congr h (o := 18) (by omega),
    load32_add_congr h (o := 20) (by omega), load32_add_congr h (o := 24) (by omega),
    load32_add_congr h (o := 28) (by omega), load16_add_congr h (o := 42) (by omega),
    load16_add_congr h (o := 44) (by omega)]

/-- The product of the two fields does not wrap. -/
lemma toNat_programHeaderSize (h : ELFHeader) : h.programHeaderSize.toNat
    = h.programHeaderTableEntryCount.toNat * h.programHeaderTableEntrySize.toNat := by
  have hlt := Nat.mul_lt_mul'' h.programHeaderTableEntryCount.isLt
    h.programHeaderTableEntrySize.isLt
  rw [ELFHeader.programHeaderSize, BitVec.toNat_mul, BitVec.toNat_setWidth_of_le (by omega),
    BitVec.toNat_setWidth_of_le (by omega), Nat.mul_comm, Nat.mod_eq_of_lt (by omega)]

section

variable {σ Partition Path : Type*} {D : FatDriver σ Partition Path} {part : Partition}
  {path : Path} {F : List Byte} {Ready : BootState σ → Prop} {At : Addr → ℕ → BootState σ → Prop}

/-- The header buffer, and what a read runs over behind it, does not meet the driver. -/
lemma disjoint_header_driverArea {n : ℕ} (hn : n ≤ 0xFFFD0000) :
    Disjoint (span MEMORY_ELF_ADDR n) driverArea := by
  have hbase : MEMORY_ELF_ADDR.toNat = 0x30000 := rfl
  rw [Set.disjoint_left]
  intro x hx hx'
  rw [mem_span_iff (by omega)] at hx
  rw [mem_driverArea] at hx'
  omega

/-- A read of the file into the header buffer, which may run over its end. -/
lemma FatDriver.Delivers.readHeader (hD : D.Delivers part path F Ready At) {fd : Addr} {p : ℕ}
    {s : BootState σ} (n : Word) (hat : At fd p s) (hlen : delivered F p n ≤ 0xFFFD0000) :
    ∃ read s₁, D.fatRead part fd n MEMORY_ELF_ADDR s = (read, s₁) ∧
      read.toNat = min n.toNat (F.length - p) ∧ At fd (p + read.toNat) s₁ ∧
      ∀ k < read.toNat, s₁.mem (MEMORY_ELF_ADDR + BitVec.ofNat 32 k) = F.getD (p + k) 0#8 := by
  have hread := hD.fatRead (n := n) hat (disjoint_header_driverArea hlen)
  refine ⟨_, _, rfl, hread.count, ?_, ?_⟩
  · rw [hread.count]
    exact hread.position
  · rw [hread.count]
    exact hread.bytes

/-- The byte that `n` bytes of the file from position `p` on, read into the header buffer and what
lies behind it, leave at `x`, if they reach it. -/
def fromFile (F : List Byte) (p n : ℕ) (x : Addr) : Option Byte :=
  if (x - MEMORY_ELF_ADDR).toNat < n then some (F.getD (p + (x - MEMORY_ELF_ADDR).toNat) 0#8)
  else none

lemma fromFile_eq_none_iff {F : List Byte} {p n : ℕ} {x : Addr} :
    fromFile F p n x = none ↔ x ∉ span MEMORY_ELF_ADDR n := by
  rw [mem_span]
  by_cases h : (x - MEMORY_ELF_ADDR).toNat < n
  · rw [fromFile, if_pos h]
    exact iff_of_false (Option.some_ne_none _) (not_not.mpr h)
  · rw [fromFile, if_neg h]
    exact iff_of_true rfl h

/-- The memory after such a read, outside of the driver's. -/
lemma FatDriver.Delivers.readHeader_mem (hD : D.Delivers part path F Ready At) {fd : Addr} {p : ℕ}
    {s : BootState σ} {n : Word} (hat : At fd p s) (hlen : delivered F p n ≤ 0xFFFD0000)
    {x : Addr} (hx : x ∉ driverArea) :
    (D.fatRead part fd n MEMORY_ELF_ADDR s).2.mem x
      = (fromFile F p (delivered F p n) x).getD (s.mem x) := by
  have hread := hD.fatRead (n := n) hat (disjoint_header_driverArea hlen)
  rw [fromFile]
  by_cases hin : (x - MEMORY_ELF_ADDR).toNat < delivered F p n
  · have hbyte := hread.bytes _ hin
    rw [BitVec.ofNat_toNat, BitVec.setWidth_eq, BitVec.add_comm, BitVec.sub_add_cancel] at hbyte
    rw [if_pos hin]
    exact hbyte
  · rw [if_neg hin]
    exact hread.frame fun h => h.elim hx hin

/-- How many bytes of the file the seek to the table reads. -/
def seekLength (F : List Byte) : ℕ :=
  delivered F 52 ((fileHeader F).programHeaderTablePosition - sizeofELFHeader)

/-- How many bytes of the file the read of the table delivers. -/
def tableLength (F : List Byte) : ℕ :=
  delivered F (52 + seekLength F) (fileHeader F).programHeaderSize

/-- The byte that the seek to the table and the read of the table, both into the header buffer,
leave at `x`, if they reach it. -/
def headerWritten (F : List Byte) (x : Addr) : Option Byte :=
  (fromFile F (52 + seekLength F) (tableLength F) x).or (fromFile F 52 (seekLength F) x)

/-- The later write stays. -/
lemma getD_or {α : Type*} (a b : Option α) (d : α) : (a.or b).getD d = a.getD (b.getD d) := by
  cases a <;> rfl

/-- The table of the file is there. -/
def HasTable (F : List Byte) : Prop :=
  entryCount F * entrySize F = 0 ∨
    52 ≤ tablePos F ∧ tablePos F + entryCount F * entrySize F ≤ F.length

/-- Bytes `[tablePos, tablePos + size)` of the file, read to the header buffer, are its table. -/
lemma progHeader_of_table (hlen : F.length ≤ 0xFFFD0000) (hes : 32 ≤ entrySize F)
    (htable : entryCount F * entrySize F ≤ 0x10000)
    (hend : tablePos F + entryCount F * entrySize F ≤ F.length) {m : Memory}
    (hbytes : ∀ k < entryCount F * entrySize F,
      m (MEMORY_ELF_ADDR + BitVec.ofNat 32 k) = F.getD (tablePos F + k) 0#8)
    {j : ℕ} (hj : j < entryCount F) {es : Word} (hes' : es.toNat = entrySize F) :
    progHeader m (entryAddr es j) = fileEntry F j := by
  have hin : (j + 1) * entrySize F ≤ entryCount F * entrySize F := Nat.mul_le_mul_right _ hj
  rw [Nat.add_mul, Nat.one_mul] at hin
  refine progHeader_add_congr fun k hk => ?_
  have haddr : entryAddr es j + BitVec.ofNat 32 k
      = MEMORY_ELF_ADDR + BitVec.ofNat 32 (j * entrySize F + k) := by
    have hbase : MEMORY_ELF_ADDR.toNat = 0x30000 := rfl
    have hto := toNat_entryAddr es (j := j) (by rw [hes']; omega)
    rw [hes'] at hto
    refine BitVec.eq_of_toNat_eq ?_
    rw [BitVec.toNat_add, BitVec.toNat_add, hto, hbase, BitVec.toNat_ofNat, BitVec.toNat_ofNat]
    omega
  rw [haddr, hbytes _ (by omega), fileMem, ← BitVec.ofNat_add, BitVec.toNat_ofNat,
    Nat.mod_eq_of_lt (by omega), Nat.add_assoc]

/-- **The table is read** exactly when it is there: a seek from behind it ends at the end of
the file, with nothing left to read. -/
lemma FatDriver.Delivers.readTable (hD : D.Delivers part path F Ready At)
    (hlen : F.length ≤ 0xFFFD0000) {fd : Addr} {s : BootState σ} (hat : At fd 52 s)
    (hheader : 52 ≤ F.length) :
    ∃ r₁ s₁ r₂ s₂,
      D.fatRead part fd ((fileHeader F).programHeaderTablePosition - sizeofELFHeader)
        MEMORY_ELF_ADDR s = (r₁, s₁) ∧
      D.fatRead part fd (fileHeader F).programHeaderSize MEMORY_ELF_ADDR s₁ = (r₂, s₂) ∧
      (∀ x ∉ driverArea, s₂.mem x = (headerWritten F x).getD (s.mem x)) ∧
      (r₂ = (fileHeader F).programHeaderSize ↔ HasTable F) ∧ (∃ q, At fd q s₂) ∧
      (r₂ = (fileHeader F).programHeaderSize → 32 ≤ entrySize F →
        entryCount F * entrySize F ≤ 0x10000 → ∀ {es : Word}, es.toNat = entrySize F →
        ∀ j < entryCount F, progHeader s₂.mem (entryAddr es j) = fileEntry F j) := by
  have hsize : (fileHeader F).programHeaderSize.toNat = entryCount F * entrySize F :=
    toNat_programHeaderSize _
  have hseek : ((fileHeader F).programHeaderTablePosition - sizeofELFHeader).toNat
      = if 52 ≤ tablePos F then tablePos F - 52 else 2 ^ 32 + tablePos F - 52 := by
    have := (fileHeader F).programHeaderTablePosition.isLt
    have h52 : sizeofELFHeader.toNat = 52 := rfl
    rw [BitVec.toNat_sub, h52, tablePos]
    split <;> omega
  have hle : ∀ (p : ℕ) (n : Word), delivered F p n ≤ 0xFFFD0000 := fun p n =>
    (Nat.min_le_right _ _).trans (by omega)
  obtain ⟨r₁, s₁, hrd₁, hcount₁, hat₁, -⟩ := hD.readHeader
    ((fileHeader F).programHeaderTablePosition - sizeofELFHeader) hat (hle _ _)
  have hr₁ : r₁.toNat = seekLength F := hcount₁
  obtain ⟨r₂, s₂, hrd₂, hcount₂, hat₂, hbytes⟩ := hD.readHeader
    (fileHeader F).programHeaderSize hat₁ (hle _ _)
  have hmem : ∀ x ∉ driverArea, s₂.mem x = (headerWritten F x).getD (s.mem x) := by
    intro x hx
    have hmem₁ := hD.readHeader_mem (n := (fileHeader F).programHeaderTablePosition
      - sizeofELFHeader) hat (hle _ _) hx
    have hmem₂ := hD.readHeader_mem (n := (fileHeader F).programHeaderSize) hat₁ (hle _ _) hx
    rw [hrd₁] at hmem₁
    rw [hrd₂, hr₁] at hmem₂
    rw [hmem₂, hmem₁, headerWritten, getD_or]
    rfl
  rw [hsize] at hcount₂
  rw [hseek] at hcount₁
  have hr₂ : r₂ = (fileHeader F).programHeaderSize ↔ r₂.toNat = entryCount F * entrySize F := by
    rw [← hsize]
    exact BitVec.toNat_inj.symm
  refine ⟨r₁, s₁, r₂, s₂, hrd₁, hrd₂, hmem, ?_, ⟨_, hat₂⟩, fun h hge htable es hes j hj => ?_⟩
  · rw [hr₂, HasTable]
    split at hcount₁ <;> omega
  · have hpos : 0 < entryCount F * entrySize F := Nat.mul_pos (by omega) (by omega)
    rw [hr₂] at h
    have hat52 : 52 + r₁.toNat = tablePos F := by
      split at hcount₁ <;> omega
    rw [hat52, h] at hbytes
    exact progHeader_of_table hlen hge htable (by omega) hbytes hj hes

/-- A read into the header buffer that does not run over its end changes nothing outside. -/
lemma FatDriver.Delivers.readHeader_frame (hD : D.Delivers part path F Ready At) {fd : Addr}
    {p : ℕ} {s : BootState σ} {n : Word} (hat : At fd p s) (hn : n.toNat ≤ 0x10000) :
    Set.EqOn (D.fatRead part fd n MEMORY_ELF_ADDR s).2.mem s.mem loaderAreaᶜ := by
  have hdel : delivered F p n ≤ 0x10000 := (Nat.min_le_left _ _).trans hn
  refine (hD.fatRead hat (disjoint_header_driverArea (by omega))).frame.mono ?_
  refine Set.compl_subset_compl.mpr (Set.union_subset driverArea_subset ?_)
  exact (span_mono hdel).trans elfArea_subset

/-- A file without a header is rejected. -/
lemma elfRead_short (hD : D.Delivers part path F Ready At) (hlen : F.length < 52) (fuel : ℕ)
    (e : Word) {s : BootState σ} (hready : Ready s) :
    ∃ s', elfRead D part path fuel e s = some (false, e, s') ∧
      Set.EqOn s'.mem s.mem loaderAreaᶜ := by
  obtain ⟨hat₁, hopen⟩ := hD.fatOpen hready
  obtain ⟨r, s₂, hrd, hcount, -, -⟩ := hD.readHeader sizeofELFHeader hat₁
    ((Nat.min_le_left _ _).trans (by decide))
  have hframe := hD.readHeader_frame (n := sizeofELFHeader) hat₁ (by decide)
  rw [hrd] at hframe
  have hr : r ≠ sizeofELFHeader := fun h => by
    have h52 : sizeofELFHeader.toNat = 52 := rfl
    rw [h, h52] at hcount
    omega
  simp only [elfRead, hrd, if_pos hr]
  refine ⟨s₂, rfl, fun x hx => (hframe hx).trans (hopen fun h => hx (driverArea_subset h))⟩

/-- **The header and the table**: outside of its own memory `ELF_Read` leaves `headerWritten`
before it turns to the entries, which it does exactly when the table is there. -/
lemma elfRead_table (hD : D.Delivers part path F Ready At) (hlen : F.length ≤ 0xFFFD0000)
    (hheader : 52 ≤ F.length) (fuel : ℕ) (e : Word) {s : BootState σ} (hready : Ready s) :
    ∃ s₁, (∀ x ∉ loaderArea, s₁.mem x = (headerWritten F x).getD (s.mem x)) ∧
      (¬ HasTable F → elfRead D part path fuel e s
        = some (false, (fileHeader F).programEntryPosition, s₁)) ∧
      (HasTable F → Ready s₁ ∧
        (32 ≤ entrySize F → entryCount F * entrySize F ≤ 0x10000 →
          ∀ j < entryCount F, progHeader s₁.mem
            (entryAddr ((fileHeader F).programHeaderTableEntrySize.setWidth 32) j)
              = fileEntry F j) ∧
        elfRead D part path fuel e s
          = (entryLoop D part path fuel ((fileHeader F).programHeaderTableEntrySize.setWidth 32)
              (entryCount F) (BitVec.ofNat 32 0) s₁).map
              fun (ok, s) => (ok, (fileHeader F).programEntryPosition, s)) := by
  have h52 : sizeofELFHeader.toNat = 52 := rfl
  obtain ⟨hat₁, hopen⟩ := hD.fatOpen hready
  obtain ⟨r₂, s₂, hrd₂, hcount₂, hat₂, hbytes₂⟩ := hD.readHeader sizeofELFHeader hat₁
    ((Nat.min_le_left _ _).trans (by decide))
  have hframe₂ := hD.readHeader_frame (n := sizeofELFHeader) hat₁ (by decide)
  rw [hrd₂] at hframe₂
  have hr₂ : r₂ = sizeofELFHeader := BitVec.eq_of_toNat_eq (by rw [hcount₂, h52]; omega)
  rw [Nat.zero_add, hr₂, h52] at hat₂
  rw [hr₂, h52] at hbytes₂
  have hhead : elfHeader s₂.mem MEMORY_ELF_ADDR = fileHeader F := by
    refine elfHeader_add_congr fun k hk => ?_
    rw [hbytes₂ k hk, fileMem, BitVec.zero_add, BitVec.toNat_ofNat, Nat.zero_add,
      Nat.mod_eq_of_lt (by omega)]
  obtain ⟨r₃, s₃, r₄, s₄, hrd₃, hrd₄, hmem₄, hr₄, ⟨q, hat₄⟩, hentries⟩ :=
    hD.readTable hlen hat₂ hheader
  have hmem : ∀ x ∉ loaderArea, s₄.mem x = (headerWritten F x).getD (s.mem x) := by
    intro x hx
    have hx' : x ∉ driverArea := fun h => hx (driverArea_subset h)
    rw [hmem₄ x hx', hframe₂ hx, hopen hx']
  simp only [elfRead, hrd₂, if_neg (not_not.mpr hr₂), hhead]
  rw [hr₂]
  simp only [hrd₃, hrd₄]
  by_cases hr : r₄ = (fileHeader F).programHeaderSize
  · obtain ⟨hready₅, hclose⟩ := hD.fatClose hat₄
    have hes : ((fileHeader F).programHeaderTableEntrySize.setWidth 32).toNat = entrySize F :=
      BitVec.toNat_setWidth_of_le (by omega)
    refine ⟨D.fatClose (D.fatOpen part path s).1 s₄, fun x hx => ?_,
      fun h => absurd (hr₄.mp hr) h, fun _ => ⟨hready₅, fun hge htable j hj => ?_, ?_⟩⟩
    · exact (hclose fun h => hx (driverArea_subset h)).trans (hmem x hx)
    · rw [← hentries hr hge htable hes j hj]
      exact progHeader_congr (hclose.mono fun x hx hx' =>
        Set.disjoint_left.mp disjoint_elfArea_driverArea
          (span_entryAddr_subset (hes.symm ▸ hge) (hes.symm ▸ htable) hj hx) hx')
    · rw [if_neg (not_not.mpr hr)]
      rfl
  · rw [if_pos hr]
    exact ⟨s₄, hmem, fun _ => rfl, fun h => absurd (hr₄.mpr h) hr⟩

/-- **`ELF_Read`** returns; it succeeds exactly when the header, the table and every segment lie
in the file, and then every segment that no other one meets is loaded. -/
theorem elfRead_spec (hD : D.Delivers part path F Ready At) (hF : Loadable F) {fuel : ℕ}
    (hfuel : 65537 ≤ fuel) (e : Word) {s : BootState σ} (hready : Ready s) :
    ∃ ok e' s', elfRead D part path fuel e s = some (ok, e', s') ∧
      (ok = true ↔ 52 ≤ F.length ∧ HasTable F ∧ ∀ j, IsLoad F j →
        (fileEntry F j).offset.toNat + (fileEntry F j).fileSize.toNat ≤ F.length) ∧
      (ok = true → Loaded F (fileEntry F) 0 (entryCount F) s'.mem) := by
  by_cases hheader : 52 ≤ F.length
  · obtain ⟨s₁, -, hnone, htable⟩ := elfRead_table hD hF.length_le hheader fuel e hready
    by_cases ht : HasTable F
    · obtain ⟨hready₁, hT, hrun₁⟩ := htable ht
      have hT := hT hF.entrySize_ge hF.table_le
      have hes : ((fileHeader F).programHeaderTableEntrySize.setWidth 32).toNat = entrySize F :=
        BitVec.toNat_setWidth_of_le (by omega)
      obtain ⟨ok, s', hrun, -, hok, hdone⟩ := entryLoop_spec hD hfuel
        (by rw [hes]; exact hF.entrySize_ge) (entryCount F)
        (by rw [hes, Nat.zero_add]; exact hF.table_le) hready₁
        (fun j _ hj => hT j (by omega)) fun j hj => hF.apart j (loadIn_fileEntry_iff.mp hj)
      simp only [loadIn_fileEntry_iff] at hok
      rw [hrun] at hrun₁
      exact ⟨ok, _, s', hrun₁, hok.trans ⟨fun h => ⟨hheader, ht, h⟩, fun h => h.2.2⟩, hdone⟩
    · exact ⟨false, _, s₁, hnone ht, iff_of_false Bool.false_ne_true fun h => ht h.2.1,
        fun h => absurd h Bool.false_ne_true⟩
  · obtain ⟨s', hrun, -⟩ := elfRead_short hD (not_le.mp hheader) fuel e hready
    exact ⟨false, e, s', hrun, iff_of_false Bool.false_ne_true fun h => hheader h.1,
      fun h => absurd h Bool.false_ne_true⟩

/-! ### Segments -/

/-- The range of entry `h` in memory holds its bytes of the file, then zeros. -/
def SegmentLoaded (F : List Byte) (h : ELFProgramHeader) (m : Memory) : Prop :=
  (∀ k < h.fileSize.toNat,
    F[h.offset.toNat + k]? = some (m (h.virtualAddress + BitVec.ofNat 32 k))) ∧
  ∀ k, h.fileSize.toNat ≤ k → k < h.memorySize.toNat →
    m (h.virtualAddress + BitVec.ofNat 32 k) = 0#8

/-- The full chunks of entry `h` are zero in the file. -/
def FullChunksZero (F : List Byte) (h : ELFProgramHeader) : Prop :=
  ∀ k < h.fileSize.toNat / 65536 * 65536, F[h.offset.toNat + k]? = some 0#8

/-- An entry of less than a full chunk has none. -/
lemma fullChunksZero_of_lt {h : ELFProgramHeader} (hlt : h.fileSize.toNat < 65536) :
    FullChunksZero F h := fun k hk => by
  rw [Nat.div_eq_of_lt hlt, Nat.zero_mul] at hk
  exact absurd hk (Nat.not_lt_zero k)

/-- Where loading leaves `loadedByte`, the segment is loaded exactly when its full chunks are
zero. -/
lemma segmentLoaded_iff {h : ELFProgramHeader} {m : Memory}
    (hend : h.offset.toNat + h.fileSize.toNat ≤ F.length)
    (hle : h.fileSize.toNat ≤ h.memorySize.toNat)
    (hm : ∀ k < h.memorySize.toNat,
      m (h.virtualAddress + BitVec.ofNat 32 k) = loadedByte F h k) :
    SegmentLoaded F h m ↔ FullChunksZero F h := by
  constructor
  · rintro ⟨hbytes, -⟩ k hk
    rw [hbytes k (by omega), hm k (by omega), loadedByte, if_pos hk]
  · intro hzero
    refine ⟨fun k hk => ?_, fun k hk hk' => ?_⟩
    · rw [hm k (by omega), loadedByte]
      by_cases hfull : k < h.fileSize.toNat / 65536 * 65536
      · rw [if_pos hfull]
        exact hzero k hfull
      · rw [if_neg hfull, if_pos hk, List.getD_eq_getElem?_getD,
          List.getElem?_eq_getElem (by omega), Option.getD_some]
    · rw [hm k hk', loadedByte, if_neg (by omega), if_neg (by omega)]

/-- **When a segment is loaded**: `ELF_Read` returns, and if it returns true, every segment that
fits its range and that no other one meets is loaded exactly when its full chunks of
`MEMORY_LOAD_SIZE` bytes are zero. -/
theorem elfRead_segment_iff (hD : D.Delivers part path F Ready At) (hF : Loadable F) {fuel : ℕ}
    (hfuel : 65537 ≤ fuel) (e : Word) {s : BootState σ} (hready : Ready s) :
    ∃ ok e' s', elfRead D part path fuel e s = some (ok, e', s') ∧
      (ok = true → ∀ i, IsLoad F i →
        (fileEntry F i).fileSize.toNat ≤ (fileEntry F i).memorySize.toNat →
        (∀ j, IsLoad F j → j ≠ i → Disjoint (fileEntry F i).extent (fileEntry F j).extent) →
        (SegmentLoaded F (fileEntry F i) s'.mem ↔ FullChunksZero F (fileEntry F i))) := by
  obtain ⟨ok, e', s', hrun, hok, hdone⟩ := elfRead_spec hD hF hfuel e hready
  refine ⟨ok, e', s', hrun, fun h i hi hle hapart => ?_⟩
  obtain ⟨-, -, hends⟩ := hok.mp h
  refine segmentLoaded_iff (hends i hi) hle fun k hk => ?_
  exact hdone h i (loadIn_fileEntry_iff.mpr hi) hle
    (fun j hj => hapart j (loadIn_fileEntry_iff.mp hj)) k hk

end

/-! ### A driver over a file in memory -/

/-- A driver that keeps the file itself; its state is the position. -/
def flatDriver (F : List Byte) : FatDriver ℕ Unit Unit where
  fatOpen _ _ s := (0x20000#32, { s with fat := 0 })
  fatRead _ _ n dst s :=
    let r := delivered F s.fat n
    (BitVec.ofNat 32 r, {
      fat := s.fat + r
      mem := fun a =>
        if (a - dst).toNat < r then F.getD (s.fat + (a - dst).toNat) 0#8 else s.mem a })
  fatClose _ s := s

lemma flatDriver_delivers (F : List Byte) :
    (flatDriver F).Delivers () () F (fun _ => True) fun _ p s => s.fat = p where
  ready_congr _ _ := trivial
  at_congr hat _ := hat
  fatOpen _ := ⟨rfl, fun _ _ => rfl⟩
  fatRead := by
    rintro fd p n dst s rfl -
    have hlt : delivered F s.fat n < 2 ^ 32 := (Nat.min_le_left _ _).trans_lt n.isLt
    refine ⟨?_, rfl, fun k hk => ?_, fun x hx => if_neg fun h => hx (.inr h)⟩
    · exact (BitVec.toNat_ofNat _ _).trans (Nat.mod_eq_of_lt hlt)
    · have hoff := toNat_add_ofNat_sub dst (k := k) (by omega)
      simp only [flatDriver, hoff, if_pos hk]
  fatClose _ := ⟨trivial, fun _ _ => rfl⟩

/-- An ELF file with one segment to load: `fileSize` bytes at offset 84, for `memorySize` bytes
at `0x100000`. -/
def oneSegment (fileSize memorySize : Word) (body : List Byte) : List Byte :=
  [0x7F, 0x45, 0x4C, 0x46, 1, 1, 1, 0, 0, 0, 0, 0, 0, 0, 0, 0,
    2, 0, 3, 0, 1, 0, 0, 0, 0, 0, 0x10, 0, 52, 0, 0, 0, 0, 0, 0, 0, 0, 0, 0, 0,
    52, 0, 32, 0, 1, 0, 0, 0, 0, 0, 0, 0,
    1, 0, 0, 0, 84, 0, 0, 0, 0, 0, 0x10, 0, 0, 0, 0x10, 0,
    wordByte fileSize 0, wordByte fileSize 1, wordByte fileSize 2, wordByte fileSize 3,
    wordByte memorySize 0, wordByte memorySize 1, wordByte memorySize 2, wordByte memorySize 3,
    5, 0, 0, 0, 0, 0, 0, 0] ++ body

section

variable {fileSize memorySize : Word} {body : List Byte}

lemma entryCount_oneSegment : entryCount (oneSegment fileSize memorySize body) = 1 := by
  simp [entryCount, fileHeader, elfHeader, load16, fileMem, oneSegment]

lemma entrySize_oneSegment : entrySize (oneSegment fileSize memorySize body) = 32 := by
  simp [entrySize, fileHeader, elfHeader, load16, fileMem, oneSegment]

lemma tablePos_oneSegment : tablePos (oneSegment fileSize memorySize body) = 52 := by
  simp [tablePos, fileHeader, elfHeader, load32, fileMem, oneSegment]

lemma fileEntry_oneSegment :
    fileEntry (oneSegment fileSize memorySize body) 0
      = ⟨ELF_PROGRAM_TYPE_LOAD, 84#32, 0x100000#32, fileSize, memorySize⟩ := by
  rw [fileEntry, tablePos_oneSegment, Nat.zero_mul, Nat.add_zero]
  ext1
  · simp [progHeader, load32, fileMem, oneSegment, ELF_PROGRAM_TYPE_LOAD]
  · simp [progHeader, load32, fileMem, oneSegment]
  · simp [progHeader, load32, fileMem, oneSegment]
  · exact load32_of_bytes rfl rfl rfl rfl
  · exact load32_of_bytes rfl rfl rfl rfl

lemma isLoad_oneSegment_iff {j : ℕ} :
    IsLoad (oneSegment fileSize memorySize body) j ↔ j = 0 := by
  rw [IsLoad, entryCount_oneSegment, Nat.lt_one_iff]
  refine ⟨And.left, fun h => ⟨h, ?_⟩⟩
  rw [h, fileEntry_oneSegment]

lemma length_oneSegment : (oneSegment fileSize memorySize body).length = 84 + body.length := by
  rw [oneSegment, List.length_append]
  rfl

lemma loadable_oneSegment (hbody : body.length ≤ 0x10000)
    (hsize : max fileSize.toNat memorySize.toNat ≤ 0x10000) :
    Loadable (oneSegment fileSize memorySize body) where
  length_le := by
    rw [length_oneSegment]
    omega
  entrySize_ge := entrySize_oneSegment.ge
  table_le := by
    rw [entryCount_oneSegment, entrySize_oneSegment]
    decide
  apart j hj := by
    rw [isLoad_oneSegment_iff.mp hj, fileEntry_oneSegment]
    have haddr : (0x100000#32).toNat = 0x100000 := rfl
    exact disjoint_span (by dsimp only; omega) (by decide)
      (.inr (by dsimp only; rw [haddr]; decide))

/-- `ELF_Read` returns true on such a file if the segment is in it. -/
lemma elfRead_oneSegment (fileSize memorySize : Word) (body : List Byte)
    (hbody : body.length ≤ 0x10000)
    (hsize : max fileSize.toNat memorySize.toNat ≤ 0x10000)
    (hend : fileSize.toNat ≤ body.length) (s : BootState ℕ) :
    ∃ e' s', elfRead (flatDriver (oneSegment fileSize memorySize body)) () () 65537 0#32 s
        = some (true, e', s') ∧
      Loaded (oneSegment fileSize memorySize body) (fileEntry (oneSegment fileSize memorySize body))
        0 (entryCount (oneSegment fileSize memorySize body)) s'.mem := by
  obtain ⟨ok, e', s', hrun, hok, hdone⟩ := elfRead_spec
    (flatDriver_delivers (oneSegment fileSize memorySize body))
    (loadable_oneSegment hbody hsize) le_rfl 0#32 (s := s) trivial
  have htrue : ok = true := by
    rw [hok, length_oneSegment]
    refine ⟨by omega, .inr ⟨tablePos_oneSegment.ge, ?_⟩, fun j hj => ?_⟩
    · rw [tablePos_oneSegment, entryCount_oneSegment, entrySize_oneSegment, length_oneSegment]
      omega
    · rw [isLoad_oneSegment_iff.mp hj, fileEntry_oneSegment]
      have hoff : (84#32 : Word).toNat = 84 := rfl
      dsimp only
      omega
  rw [htrue] at hrun
  exact ⟨e', s', hrun, hdone htrue⟩

end

/-- The memory in front of the first run, all zero. -/
def zeroState : BootState ℕ := ⟨0, fun _ => 0#8⟩

/-- An entry of four bytes in the file and eight in memory. -/
def smallElf : List Byte := oneSegment 4#32 8#32 [1, 2, 3, 4]

/-- Less than a full chunk is loaded. -/
theorem elfRead_segment_iff_small :
    ∃ e' s', elfRead (flatDriver smallElf) () () 65537 0#32 zeroState = some (true, e', s') ∧
      SegmentLoaded smallElf (fileEntry smallElf 0) s'.mem := by
  obtain ⟨ok, e', s', hrun, hseg⟩ := elfRead_segment_iff (flatDriver_delivers smallElf)
    (loadable_oneSegment (by decide) (by decide)) le_rfl 0#32 (s := zeroState) trivial
  obtain ⟨e'', s'', hrun', -⟩ := elfRead_oneSegment 4#32 8#32 [1, 2, 3, 4] (by decide) (by decide)
    (by decide) zeroState
  have hok : ok = true := congrArg Prod.fst (Option.some.inj (hrun.symm.trans hrun'))
  have hentry : fileEntry smallElf 0
      = ⟨ELF_PROGRAM_TYPE_LOAD, 84#32, 0x100000#32, 4#32, 8#32⟩ := fileEntry_oneSegment
  refine ⟨e', s', hok ▸ hrun, (hseg hok 0 (isLoad_oneSegment_iff.mpr rfl) ?_ ?_).mpr ?_⟩
  · rw [hentry]
    decide
  · exact fun j hj hne => absurd (isLoad_oneSegment_iff.mp hj) hne
  · refine fullChunksZero_of_lt ?_
    rw [hentry]
    decide

/-- An entry of one full chunk of ones. -/
def chunkElf : List Byte := oneSegment 0x10000#32 0x10000#32 (List.replicate 0x10000 1#8)

/-- A full chunk is not loaded, although `ELF_Read` returns true. -/
theorem elfRead_drops_chunk :
    (flatDriver chunkElf).Delivers () () chunkElf (fun _ => True) (fun _ p s => s.fat = p) ∧
      IsLoad chunkElf 0 ∧ (∀ j, IsLoad chunkElf j → j = 0) ∧
      (fileEntry chunkElf 0).fileSize.toNat ≤ (fileEntry chunkElf 0).memorySize.toNat ∧
      Disjoint (fileEntry chunkElf 0).extent loaderArea ∧
      ∃ e' s', elfRead (flatDriver chunkElf) () () 65537 0#32 zeroState = some (true, e', s') ∧
        ¬ SegmentLoaded chunkElf (fileEntry chunkElf 0) s'.mem := by
  have hlen : (List.replicate 0x10000 (1#8 : Byte)).length = 0x10000 := List.length_replicate
  have hload : IsLoad chunkElf 0 := isLoad_oneSegment_iff.mpr rfl
  have hfits : Loadable chunkElf := loadable_oneSegment hlen.le (by decide)
  have hentry : fileEntry chunkElf 0
      = ⟨ELF_PROGRAM_TYPE_LOAD, 84#32, 0x100000#32, 0x10000#32, 0x10000#32⟩ := fileEntry_oneSegment
  obtain ⟨e', s', hrun, hloaded⟩ := elfRead_oneSegment 0x10000#32 0x10000#32
    (List.replicate 0x10000 1#8) hlen.le (by decide) hlen.ge zeroState
  refine ⟨flatDriver_delivers chunkElf, hload, fun j hj => isLoad_oneSegment_iff.mp hj,
    by rw [hentry], hfits.apart 0 hload, e', s', hrun, fun hseg => ?_⟩
  have hbyte := hloaded 0 (loadIn_fileEntry_iff.mpr hload) (by rw [← chunkElf, hentry])
    (fun j hj hne => absurd (isLoad_oneSegment_iff.mp (loadIn_fileEntry_iff.mp hj)) hne) 0
  rw [← chunkElf, hentry] at hbyte
  have hfile := hseg.1 0
  rw [hentry] at hfile
  have hfile := hfile (by decide)
  rw [hbyte (by decide)] at hfile
  have hfirst : chunkElf[84]? = some 1#8 := by
    rw [chunkElf, oneSegment, List.getElem?_append_right (by decide), List.getElem?_replicate]
    exact if_pos (by decide)
  exact absurd (hfirst.symm.trans hfile) (by decide)

end MiqOSoft
