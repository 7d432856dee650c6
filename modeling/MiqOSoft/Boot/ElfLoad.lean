import MiqOSoft.Boot.Elf

/-!
The two inner loops of `ELF_Read`.

* `FatDriver.Delivers D part path F Ready At`: the driver delivers the file `F`.  `Ready` are
  the states in which the file is not open, `At fd p` those in which `fd` is open at `p`.
* `seekLoop_spec`, `loadLoop_spec`: each loop returns once it has fuel enough, reports success
  exactly when the file is long enough, and changes memory in a known place only.  The loading
  loop copies the last chunk only: a full one has `MEMORY_LOAD_SIZE` bytes, and the length of
  `memcpy` is 16 bits wide.
-/

namespace MiqOSoft

open Machine

/-! ### The areas of memory -/

/-- The memory the driver works in: the code, the stack and the data of the second stage, and
the driver's structures at `MEMORY_FAT_ADDR`. -/
def driverArea : Set Addr := span 0#32 0x30000

/-- The header buffer. -/
def elfArea : Set Addr := span MEMORY_ELF_ADDR 0x10000

/-- The load buffer. -/
def loadArea : Set Addr := span MEMORY_LOAD_KERNEL 0x10000

/-- All of these. -/
def loaderArea : Set Addr := span 0#32 0x50000

lemma mem_driverArea {a : Addr} : a ∈ driverArea ↔ a.toNat < 0x30000 := by
  rw [driverArea, mem_span, BitVec.sub_zero]

lemma mem_loaderArea {a : Addr} : a ∈ loaderArea ↔ a.toNat < 0x50000 := by
  rw [loaderArea, mem_span, BitVec.sub_zero]

lemma mem_elfArea {a : Addr} : a ∈ elfArea ↔ 0x30000 ≤ a.toNat ∧ a.toNat < 0x40000 :=
  mem_span_iff (by decide)

lemma mem_loadArea {a : Addr} : a ∈ loadArea ↔ 0x40000 ≤ a.toNat ∧ a.toNat < 0x50000 :=
  mem_span_iff (by decide)

lemma disjoint_elfArea_driverArea : Disjoint elfArea driverArea := by
  rw [Set.disjoint_left]
  intro a ha ha'
  rw [mem_elfArea] at ha
  rw [mem_driverArea] at ha'
  omega

lemma disjoint_elfArea_loadArea : Disjoint elfArea loadArea := by
  rw [Set.disjoint_left]
  intro a ha ha'
  rw [mem_elfArea] at ha
  rw [mem_loadArea] at ha'
  omega

lemma disjoint_loadArea_driverArea : Disjoint loadArea driverArea := by
  rw [Set.disjoint_left]
  intro a ha ha'
  rw [mem_loadArea] at ha
  rw [mem_driverArea] at ha'
  omega

lemma driverArea_subset : driverArea ⊆ loaderArea := span_mono (by decide)

lemma elfArea_subset : elfArea ⊆ loaderArea := fun a ha => by
  rw [mem_elfArea] at ha
  rw [mem_loaderArea]
  omega

lemma loadArea_subset : loadArea ⊆ loaderArea := fun a ha => by
  rw [mem_loadArea] at ha
  rw [mem_loaderArea]
  omega

/-! ### Program headers in memory -/

/-- A program header depends on its bytes only, wherever they lie. -/
lemma progHeader_add_congr {m m' : Memory} {a b : Addr}
    (h : ∀ k < 32, m (a + BitVec.ofNat 32 k) = m' (b + BitVec.ofNat 32 k)) :
    progHeader m a = progHeader m' b := by
  have h0 : load32 m a = load32 m' b := by
    simpa using load32_add_congr h (o := 0) (by omega)
  rw [progHeader, progHeader, h0, load32_add_congr h (o := 4) (by omega),
    load32_add_congr h (o := 8) (by omega), load32_add_congr h (o := 16) (by omega),
    load32_add_congr h (o := 20) (by omega)]

lemma progHeader_congr {m m' : Memory} {a : Addr} (h : Set.EqOn m m' (span a 32)) :
    progHeader m a = progHeader m' a :=
  progHeader_add_congr fun _ hk => h (add_ofNat_mem_span hk (by omega))

/-- Fields of a structure do not meet. -/
lemma disjoint_fields {a : Addr} (o o' : ℕ) (ho : o + 4 ≤ o') (ho' : o' + 4 ≤ 2 ^ 32) :
    Disjoint (span (a + BitVec.ofNat 32 o) 4) (span (a + BitVec.ofNat 32 o') 4) := by
  rw [Set.disjoint_left]
  intro x hx hx'
  rw [mem_span] at hx hx'
  bv_omega

/-- Decrementing `progHeader->Offset`. -/
lemma progHeader_store_offset (m : Memory) (a : Addr) (w : Word) :
    progHeader (store32 m (a + 4#32) w) a = { progHeader m a with offset := w } := by
  have h0 : load32 (store32 m (a + 4#32) w) a = load32 m a := by
    refine load32_store32_of_disjoint w ?_
    simpa using (disjoint_fields (a := a) 0 4 (by omega) (by omega)).symm
  ext1
  · exact h0
  · exact load32_store32_self m _ w
  · exact load32_store32_of_disjoint w (disjoint_fields _ _ (by omega) (by omega))
  · exact load32_store32_of_disjoint w (disjoint_fields _ _ (by omega) (by omega))
  · exact load32_store32_of_disjoint w (disjoint_fields _ _ (by omega) (by omega))

/-- Decrementing `progHeader->FileSize`. -/
lemma progHeader_store_fileSize (m : Memory) (a : Addr) (w : Word) :
    progHeader (store32 m (a + 16#32) w) a = { progHeader m a with fileSize := w } := by
  have h0 : load32 (store32 m (a + 16#32) w) a = load32 m a := by
    refine load32_store32_of_disjoint w ?_
    simpa using (disjoint_fields (a := a) 0 16 (by omega) (by omega)).symm
  ext1
  · exact h0
  · exact load32_store32_of_disjoint w (disjoint_fields _ _ (by omega) (by omega)).symm
  · exact load32_store32_of_disjoint w (disjoint_fields _ _ (by omega) (by omega)).symm
  · exact load32_store32_self m _ w
  · exact load32_store32_of_disjoint w (disjoint_fields _ _ (by omega) (by omega))

/-! ### A driver that delivers a file -/

section

variable {σ Partition Path : Type*} {D : FatDriver σ Partition Path} {part : Partition}
  {path : Path} {F : List Byte} {Ready : BootState σ → Prop} {At : Addr → ℕ → BootState σ → Prop}

/-- The bytes of `F` that a read of `n` bytes at position `p` delivers. -/
def delivered (F : List Byte) (p : ℕ) (n : Word) : ℕ := min n.toNat (F.length - p)

/-- One read of the file, at position `p` to `dst`: the bytes that are left of it, up to `n`. -/
structure FatDriver.Reads (D : FatDriver σ Partition Path) (part : Partition) (F : List Byte)
    (At : Addr → ℕ → BootState σ → Prop) (fd : Addr) (p : ℕ) (n : Word) (dst : Addr)
    (s : BootState σ) : Prop where
  count : ((D.fatRead part fd n dst s).1).toNat = delivered F p n
  position : At fd (p + delivered F p n) (D.fatRead part fd n dst s).2
  bytes : ∀ k < delivered F p n,
    (D.fatRead part fd n dst s).2.mem (dst + BitVec.ofNat 32 k) = F.getD (p + k) 0#8
  frame : Set.EqOn (D.fatRead part fd n dst s).2.mem s.mem
    (driverArea ∪ span dst (delivered F p n))ᶜ

/-- The driver delivers `F` without error: opening it leads to position 0, a read whose
destination is not the driver's own memory delivers what is left of it, up to the count, and
closing it leads back.  The driver works in its own memory, and its state is lost only if that
memory changes. -/
structure FatDriver.Delivers (D : FatDriver σ Partition Path) (part : Partition) (path : Path)
    (F : List Byte) (Ready : BootState σ → Prop) (At : Addr → ℕ → BootState σ → Prop) : Prop where
  ready_congr : ∀ {s : BootState σ} {m : Memory}, Ready s → Set.EqOn m s.mem driverArea →
    Ready { s with mem := m }
  at_congr : ∀ {fd : Addr} {p : ℕ} {s : BootState σ} {m : Memory}, At fd p s →
    Set.EqOn m s.mem driverArea → At fd p { s with mem := m }
  fatOpen : ∀ {s : BootState σ}, Ready s →
    At (D.fatOpen part path s).1 0 (D.fatOpen part path s).2 ∧
      Set.EqOn (D.fatOpen part path s).2.mem s.mem driverAreaᶜ
  fatRead : ∀ {fd : Addr} {p : ℕ} {n : Word} {dst : Addr} {s : BootState σ}, At fd p s →
    Disjoint (span dst (delivered F p n)) driverArea → D.Reads part F At fd p n dst s
  fatClose : ∀ {fd : Addr} {p : ℕ} {s : BootState σ}, At fd p s →
    Ready (D.fatClose fd s) ∧ Set.EqOn (D.fatClose fd s).mem s.mem driverAreaᶜ

/-! ### The two inner loops -/

/-- What the inner loops write besides the segment. -/
def loopArea (ph : Addr) : Set Addr := driverArea ∪ loadArea ∪ span ph 32

/-- A read of one chunk into the load buffer. -/
lemma FatDriver.Delivers.readChunk (hD : D.Delivers part path F Ready At) {fd ph : Addr} {p : ℕ}
    {s : BootState σ} (n : Word) (hat : At fd p s) (hph : span ph 32 ⊆ elfArea) :
    ∃ read s₁, D.fatRead part fd (wordMin n MEMORY_LOAD_SIZE) MEMORY_LOAD_KERNEL s = (read, s₁) ∧
      read.toNat = min (wordMin n MEMORY_LOAD_SIZE).toNat (F.length - p) ∧
      At fd (p + read.toNat) s₁ ∧
      (∀ k < read.toNat, s₁.mem (MEMORY_LOAD_KERNEL + BitVec.ofNat 32 k) = F.getD (p + k) 0#8) ∧
      Set.EqOn s₁.mem s.mem (driverArea ∪ loadArea)ᶜ ∧
      progHeader s₁.mem ph = progHeader s.mem ph := by
  have hsub : span MEMORY_LOAD_KERNEL (delivered F p (wordMin n MEMORY_LOAD_SIZE)) ⊆ loadArea := by
    refine span_mono ((Nat.min_le_left _ _).trans ?_)
    rw [toNat_wordMin]
    exact Nat.min_le_right _ _
  have hread := hD.fatRead (n := wordMin n MEMORY_LOAD_SIZE) hat
    (disjoint_loadArea_driverArea.mono_left hsub)
  have hframe := hread.frame.mono
    (Set.compl_subset_compl.mpr (Set.union_subset_union_right driverArea hsub))
  refine ⟨_, _, rfl, hread.count, ?_, ?_, hframe, progHeader_congr (hframe.mono ?_)⟩
  · rw [hread.count]
    exact hread.position
  · rw [hread.count]
    exact hread.bytes
  · rintro x hx (hx' | hx')
    · exact Set.disjoint_left.mp disjoint_elfArea_driverArea (hph hx) hx'
    · exact Set.disjoint_left.mp disjoint_elfArea_loadArea (hph hx) hx'

/-- Decrementing a field of the program header leaves the driver alone. -/
lemma FatDriver.Delivers.at_store (hD : D.Delivers part path F Ready At) {fd ph : Addr} {p o : ℕ}
    {s : BootState σ} (w : Word) (hat : At fd p s) (hph : span ph 32 ⊆ elfArea) (ho : o + 4 ≤ 32) :
    At fd p { s with mem := store32 s.mem (ph + BitVec.ofNat 32 o) w } := by
  refine hD.at_congr hat fun x hx => store32_of_notMem w fun hx' => ?_
  have : (BitVec.ofNat 32 o).toNat + 4 ≤ 32 := by
    rw [BitVec.toNat_ofNat]
    omega
  exact Set.disjoint_left.mp disjoint_elfArea_driverArea (hph (span_add_subset this hx')) hx

/-- **Seeking**: the loop reads `Offset` bytes, chunk by chunk, and fails exactly when the file
ends before. -/
theorem seekLoop_spec (hD : D.Delivers part path F Ready At) {fd ph : Addr}
    (hph : span ph 32 ⊆ elfArea) (fuel : ℕ) {p : ℕ} {s : BootState σ} (hat : At fd p s)
    (hp : p ≤ F.length) (hfuel : (progHeader s.mem ph).offset.toNat + 65536 ≤ fuel * 65536) :
    ∃ ok s', seekLoop D part fd ph fuel s = some (ok, s') ∧
      Set.EqOn s'.mem s.mem (loopArea ph)ᶜ ∧
      (progHeader s'.mem ph).fileSize = (progHeader s.mem ph).fileSize ∧
      (ok = true ↔ p + (progHeader s.mem ph).offset.toNat ≤ F.length) ∧
      (ok = true → At fd (p + (progHeader s.mem ph).offset.toNat) s') := by
  induction fuel generalizing p s with
  | zero => omega
  | succ fuel ih =>
      rw [seekLoop]
      by_cases h0 : (progHeader s.mem ph).offset = 0#32
      · rw [if_pos h0, h0]
        exact ⟨true, s, rfl, fun _ _ => rfl, rfl, by simpa using hp, fun _ => hat⟩
      rw [if_neg h0]
      have hpos : 0 < (progHeader s.mem ph).offset.toNat :=
        Nat.pos_of_ne_zero fun h => h0 (BitVec.eq_of_toNat_eq h)
      have hmin := toNat_wordMin (progHeader s.mem ph).offset MEMORY_LOAD_SIZE
      have hsize : MEMORY_LOAD_SIZE.toNat = 65536 := rfl
      obtain ⟨read, s₁, hrd, hcount, hat₁, -, hframe, hsame⟩ :=
        hD.readChunk (progHeader s.mem ph).offset hat hph
      simp only [hrd]
      by_cases hr : read = wordMin (progHeader s.mem ph).offset MEMORY_LOAD_SIZE
      · -- the chunk was delivered: the rest is the loop at a smaller `Offset`
        rw [if_neg (not_not.mpr hr), hsame]
        have hoff₂ : ((progHeader s.mem ph).offset - read).toNat
            = (progHeader s.mem ph).offset.toNat - read.toNat :=
          BitVec.toNat_sub_of_le (BitVec.le_def.mpr (by rw [hr]; omega))
        have hph₂ := progHeader_store_offset s₁.mem ph ((progHeader s.mem ph).offset - read)
        rw [hsame] at hph₂
        have hle : p + read.toNat ≤ F.length := by omega
        rw [← hr] at hmin
        obtain ⟨ok, s', hrun, hframe', hfile, hok, hat'⟩ :=
          ih (hD.at_store (o := 4) _ hat₁ hph (by omega)) hle
            (by rw [hph₂, hoff₂]; omega)
        rw [hph₂, hoff₂] at hok hat'
        rw [hph₂] at hfile
        refine ⟨ok, s', hrun, ?_, hfile, ?_, fun h => ?_⟩
        · intro x hx
          have hstore : x ∉ span (ph + 4#32) 4 := fun hx' =>
            hx (.inr (span_add_subset (by decide) hx'))
          calc s'.mem x = store32 s₁.mem (ph + 4#32) _ x := hframe' hx
            _ = s₁.mem x := store32_of_notMem _ hstore
            _ = s.mem x := hframe fun h => hx (.inl h)
        · rw [hok]
          omega
        · have := hat' h
          rwa [show p + read.toNat + ((progHeader s.mem ph).offset.toNat - read.toNat)
            = p + (progHeader s.mem ph).offset.toNat by omega] at this
      · -- the file ends within the chunk
        rw [if_pos hr]
        have hne : read.toNat ≠ (wordMin (progHeader s.mem ph).offset MEMORY_LOAD_SIZE).toNat :=
          fun h => hr (BitVec.eq_of_toNat_eq h)
        refine ⟨false, s₁, rfl, ?_, by rw [hsame], ?_, fun h => absurd h Bool.false_ne_true⟩
        · exact hframe.mono (Set.compl_subset_compl.mpr Set.subset_union_left)
        · simp only [Bool.false_eq_true, false_iff, not_le]
          omega

lemma loopArea_subset {ph : Addr} (hph : span ph 32 ⊆ elfArea) : loopArea ph ⊆ loaderArea :=
  Set.union_subset (Set.union_subset driverArea_subset loadArea_subset)
    (hph.trans elfArea_subset)

/-- The memory after a turn of the loading loop that read `read` bytes: the smaller `FileSize`
is stored, and the chunk is copied. -/
def chunkMem (ph va : Addr) (fileSize read : Word) (m : Memory) : Memory :=
  memcpy va MEMORY_LOAD_KERNEL (len16 read) (store32 m (ph + 16#32) fileSize)

section

variable {ph va : Addr} {fileSize read : Word} {m : Memory}

/-- A turn writes `FileSize` and, in the segment, the low 16 bits of the count. -/
lemma chunkMem_of_notMem {x : Addr} (hx : x ∉ span (ph + 16#32) 4)
    (hx' : x ∉ span va (read.toNat % 65536)) : chunkMem ph va fileSize read m x = m x := by
  rw [chunkMem, memcpy, toNat_len16, copyBytes_of_notMem (by omega) hx', store32_of_notMem _ hx]

/-- A turn leaves the driver alone. -/
lemma FatDriver.Delivers.at_chunkMem (hD : D.Delivers part path F Ready At) {fd : Addr} {p : ℕ}
    {s : BootState σ} (hat : At fd p s) (hph : span ph 32 ⊆ elfArea)
    (hva : Disjoint (span va read.toNat) loaderArea) :
    At fd p { s with mem := chunkMem ph va fileSize read s.mem } := by
  refine hD.at_congr hat fun x hx => chunkMem_of_notMem (fun hx' => ?_) fun hx' => ?_
  · exact Set.disjoint_left.mp disjoint_elfArea_driverArea
      (hph (span_add_subset (by decide) hx')) hx
  · exact Set.disjoint_left.mp hva (span_mono (Nat.mod_le _ _) hx') (driverArea_subset hx)

/-- A turn changes the field `FileSize` of the program header only. -/
lemma progHeader_chunkMem (m : Memory) (fileSize : Word) (hph : span ph 32 ⊆ elfArea)
    (hva : Disjoint (span va read.toNat) loaderArea) :
    progHeader (chunkMem ph va fileSize read m) ph
      = { progHeader m ph with fileSize := fileSize } := by
  rw [← progHeader_store_fileSize]
  refine progHeader_congr fun x hx => ?_
  rw [chunkMem, memcpy, toNat_len16]
  refine copyBytes_of_notMem (by omega) fun hx' => ?_
  exact Set.disjoint_left.mp hva (span_mono (Nat.mod_le _ _) hx') (elfArea_subset (hph hx))

/-- A chunk that is not full is copied. -/
lemma chunkMem_of_lt (hph : span ph 32 ⊆ elfArea)
    (hva : Disjoint (span va read.toNat) loaderArea) (hread : read.toNat < 65536) {k : ℕ}
    (hk : k < read.toNat) :
    chunkMem ph va fileSize read m (va + BitVec.ofNat 32 k)
      = m (MEMORY_LOAD_KERNEL + BitVec.ofNat 32 k) := by
  have hsub : span MEMORY_LOAD_KERNEL read.toNat ⊆ loadArea := span_mono (by omega)
  rw [chunkMem, memcpy, toNat_len16, Nat.mod_eq_of_lt hread]
  rw [copyBytes_of_disjoint (by omega) (hva.mono_right (hsub.trans loadArea_subset)) k hk]
  refine store32_of_notMem _ fun hx => ?_
  exact Set.disjoint_left.mp disjoint_elfArea_loadArea (hph (span_add_subset (by decide) hx))
    (hsub (add_ofNat_mem_span hk (by omega)))

end

/-- **Loading**: the loop reads `FileSize` bytes, chunk by chunk, and fails exactly when the
file ends before.  Full chunks leave the segment as it was, the last one is copied. -/
theorem loadLoop_spec (hD : D.Delivers part path F Ready At) {fd ph : Addr}
    (hph : span ph 32 ⊆ elfArea) (fuel : ℕ) {p : ℕ} {va : Addr} {s : BootState σ}
    (hat : At fd p s) (hp : p ≤ F.length)
    (hfuel : (progHeader s.mem ph).fileSize.toNat + 65536 ≤ fuel * 65536)
    (hva : Disjoint (span va (progHeader s.mem ph).fileSize.toNat) loaderArea) :
    ∃ ok s', loadLoop D part fd ph fuel va s = some (ok, s') ∧
      Set.EqOn s'.mem s.mem (loopArea ph ∪ span va (progHeader s.mem ph).fileSize.toNat)ᶜ ∧
      (ok = true ↔ p + (progHeader s.mem ph).fileSize.toNat ≤ F.length) ∧
      (ok = true → At fd (p + (progHeader s.mem ph).fileSize.toNat) s' ∧
        ∀ k < (progHeader s.mem ph).fileSize.toNat, s'.mem (va + BitVec.ofNat 32 k)
          = if k < (progHeader s.mem ph).fileSize.toNat / 65536 * 65536
            then s.mem (va + BitVec.ofNat 32 k) else F.getD (p + k) 0#8) := by
  induction fuel generalizing p va s with
  | zero => omega
  | succ fuel ih =>
      rw [loadLoop]
      by_cases h0 : (progHeader s.mem ph).fileSize = 0#32
      · rw [if_pos h0, h0]
        exact ⟨true, s, rfl, fun _ _ => rfl, by simpa using hp,
          fun _ => ⟨hat, fun k hk => absurd hk (Nat.not_lt_zero k)⟩⟩
      rw [if_neg h0]
      generalize hfs : (progHeader s.mem ph).fileSize = fs at *
      have hpos : 0 < fs.toNat := Nat.pos_of_ne_zero fun h => h0 (BitVec.eq_of_toNat_eq h)
      have hmin := toNat_wordMin fs MEMORY_LOAD_SIZE
      have hsize : MEMORY_LOAD_SIZE.toNat = 65536 := rfl
      obtain ⟨read, s₁, hrd, hcount, hat₁, hbytes, hframe, hsame⟩ := hD.readChunk fs hat hph
      simp only [hrd]
      by_cases hr : read = wordMin fs MEMORY_LOAD_SIZE
      · rw [if_neg (not_not.mpr hr), hsame, hfs, ← chunkMem]
        rw [← hr] at hmin
        have hrest : (fs - read).toNat = fs.toNat - read.toNat :=
          BitVec.toNat_sub_of_le (BitVec.le_def.mpr (by omega))
        have hvaRead : Disjoint (span va read.toNat) loaderArea :=
          hva.mono_left (span_mono (by omega))
        have hsub : span (va + read) (fs - read).toNat ⊆ span va fs.toNat :=
          span_add_subset (by omega)
        have hph₂ := progHeader_chunkMem s₁.mem (fs - read) hph hvaRead
        have hsame₂ : ∀ x, x ∉ loopArea ph → x ∉ span va (read.toNat % 65536) →
            chunkMem ph va (fs - read) read s₁.mem x = s.mem x := by
          intro x hx hx'
          rw [chunkMem_of_notMem (fun h => hx (.inr (span_add_subset (by decide) h))) hx']
          exact hframe fun h => hx (.inl h)
        obtain ⟨ok, s', hrun, hframe', hok, hdone⟩ :=
          ih (hD.at_chunkMem hat₁ hph hvaRead) (by omega)
            (by rw [hph₂]; dsimp only; omega) (by rw [hph₂]; exact hva.mono_left hsub)
        rw [hph₂] at hframe' hok hdone
        dsimp only at hframe' hok hdone
        rw [hrest, show p + read.toNat + (fs.toNat - read.toNat) = p + fs.toNat by omega]
          at hok hdone
        refine ⟨ok, s', hrun, fun x hx => ?_, hok, fun h => ⟨(hdone h).1, fun k hk => ?_⟩⟩
        · rw [Set.compl_union] at hx
          refine (hframe' fun h => h.elim hx.1 fun h => hx.2 (hsub h)).trans (hsame₂ x hx.1 ?_)
          exact fun h => hx.2 (span_mono (by omega) h)
        · have hmem : va + BitVec.ofNat 32 k ∈ span va fs.toNat := add_ofNat_mem_span hk (by omega)
          have hout : va + BitVec.ofNat 32 k ∉ loopArea ph := fun h =>
            Set.disjoint_left.mp hva hmem (loopArea_subset hph h)
          by_cases hk' : k < read.toNat
          · -- in this chunk, which no later turn writes
            have hlater : va + BitVec.ofNat 32 k ∉ span (va + read) (fs.toNat - read.toNat) := by
              rw [mem_span]
              bv_omega
            rw [hframe' fun h => h.elim hout (by rwa [hrest])]
            by_cases hfull : read.toNat < 65536
            · rw [if_neg (by omega)]
              exact (chunkMem_of_lt hph hvaRead hfull hk').trans (hbytes k hk')
            · rw [if_pos (by omega)]
              refine hsame₂ _ hout ?_
              rw [show read.toNat % 65536 = 0 by omega, span_zero]
              exact Set.notMem_empty _
          · -- in a later chunk
            have haddr : va + BitVec.ofNat 32 k = va + read + BitVec.ofNat 32 (k - read.toNat) := by
              bv_omega
            have hearlier : va + BitVec.ofNat 32 k ∉ span va (read.toNat % 65536) := by
              rw [mem_span, toNat_add_ofNat_sub va (by omega)]
              omega
            have hrec := (hdone h).2 (k - read.toNat) (by omega)
            rw [← haddr, hsame₂ _ hout hearlier,
              show p + read.toNat + (k - read.toNat) = p + k by omega] at hrec
            rw [hrec]
            congr 1
            rw [eq_iff_iff]
            omega
      · -- the file ends within the chunk
        rw [if_pos hr]
        have hne : read.toNat ≠ (wordMin fs MEMORY_LOAD_SIZE).toNat :=
          fun h => hr (BitVec.eq_of_toNat_eq h)
        refine ⟨false, s₁, rfl, ?_, ?_, fun h => absurd h Bool.false_ne_true⟩
        · refine hframe.mono (Set.compl_subset_compl.mpr ?_)
          exact Set.subset_union_left.trans Set.subset_union_left
        · simp only [Bool.false_eq_true, false_iff, not_le]
          omega

/-- A loading loop that fails leaves the segment as it was: only a chunk that is not full is
copied, and that is the last one. -/
lemma loadLoop_failed (hD : D.Delivers part path F Ready At) {fd ph : Addr}
    (hph : span ph 32 ⊆ elfArea) (fuel : ℕ) {p : ℕ} {va : Addr} {s s' : BootState σ}
    (hat : At fd p s) (hva : Disjoint (span va (progHeader s.mem ph).fileSize.toNat) loaderArea)
    (hrun : loadLoop D part fd ph fuel va s = some (false, s')) :
    Set.EqOn s'.mem s.mem (loopArea ph)ᶜ := by
  induction fuel generalizing p va s with
  | zero => exact absurd hrun (by simp [loadLoop])
  | succ fuel ih =>
      rw [loadLoop] at hrun
      by_cases h0 : (progHeader s.mem ph).fileSize = 0#32
      · rw [if_pos h0] at hrun
        simp at hrun
      rw [if_neg h0] at hrun
      generalize hfs : (progHeader s.mem ph).fileSize = fs at *
      have hmin := toNat_wordMin fs MEMORY_LOAD_SIZE
      have hsize : MEMORY_LOAD_SIZE.toNat = 65536 := rfl
      obtain ⟨read, s₁, hrd, -, hat₁, -, hframe, hsame⟩ := hD.readChunk fs hat hph
      simp only [hrd] at hrun
      by_cases hr : read = wordMin fs MEMORY_LOAD_SIZE
      · rw [if_neg (not_not.mpr hr), hsame, hfs, ← chunkMem] at hrun
        rw [← hr] at hmin
        have hrest : (fs - read).toNat = fs.toNat - read.toNat :=
          BitVec.toNat_sub_of_le (BitVec.le_def.mpr (by omega))
        have hvaRead : Disjoint (span va read.toNat) loaderArea :=
          hva.mono_left (span_mono (by omega))
        have hph₂ := progHeader_chunkMem s₁.mem (fs - read) hph hvaRead
        -- the loop goes on to fail, so that this chunk is a full one
        have hfull : read.toNat % 65536 = 0 := by
          by_contra hne
          have hdone : fs - read = 0#32 := BitVec.eq_of_toNat_eq (by
            rw [hrest, BitVec.toNat_ofNat]
            omega)
          cases fuel with
          | zero => exact absurd hrun (by simp [loadLoop])
          | succ fuel =>
              rw [loadLoop, hph₂, if_pos hdone] at hrun
              simp at hrun
        have hsub : span (va + read) (fs - read).toNat ⊆ span va fs.toNat :=
          span_add_subset (by omega)
        have hnext := ih (hD.at_chunkMem hat₁ hph hvaRead)
          (by rw [hph₂]; exact hva.mono_left hsub) hrun
        intro x hx
        calc s'.mem x = chunkMem ph va (fs - read) read s₁.mem x := hnext hx
          _ = s₁.mem x := by
            refine chunkMem_of_notMem (fun h => hx (.inr (span_add_subset (by decide) h))) ?_
            rw [hfull, span_zero]
            exact Set.notMem_empty _
          _ = s.mem x := hframe fun h => hx (.inl h)
      · rw [if_pos hr, Option.some.injEq, Prod.mk.injEq] at hrun
        rw [← hrun.2]
        exact hframe.mono (Set.compl_subset_compl.mpr Set.subset_union_left)

end

end MiqOSoft
