import MiqOSoft.Boot.ElfSpec

/-!
The header checks of `ELF_Read`, and what it writes.

* `written`, `tableWritten`: the byte that loading an entry, or the whole table, leaves at an
  address, if it writes there.
* `loadSegment_written`, `entryLoop_written`, `elfRead_written`: outside of its own memory the
  loader changes exactly these bytes.
* `TableLoadable`: the files whose table is not there, or empty, or one there is room for.
* `HeaderValid`: the header that the checks of `ELF_Read` describe.
* `elfRead_header_iff`: nothing reads the result of the checks, so that a file with another
  header is rejected without a write to a segment exactly when `ELF_Read` fails for another
  reason before its first write.
-/

namespace MiqOSoft

open Machine

/-! ### One segment -/

/-- The byte that loading an entry leaves at `x`, if it writes there: the last chunk of a segment
that lies in the file, else a zero of `memset`. -/
def written (F : List Byte) (h : ELFProgramHeader) (x : Addr) : Option Byte :=
  if h.offset.toNat + h.fileSize.toNat ≤ F.length
      ∧ h.fileSize.toNat / 65536 * 65536 ≤ (x - h.virtualAddress).toNat
      ∧ (x - h.virtualAddress).toNat < h.fileSize.toNat then
    some (F.getD (h.offset.toNat + (x - h.virtualAddress).toNat) 0#8)
  else if (x - h.virtualAddress).toNat < h.memorySize.toNat then some 0#8
  else none

/-- Where nothing is copied, `memset` decides. -/
lemma written_getD {F : List Byte} {h : ELFProgramHeader} {x : Addr}
    (hx : F.length < h.offset.toNat + h.fileSize.toNat ∨
      (x - h.virtualAddress).toNat < h.fileSize.toNat / 65536 * 65536 ∨
      h.fileSize.toNat ≤ (x - h.virtualAddress).toNat) (b : Byte) :
    (written F h x).getD b
      = if (x - h.virtualAddress).toNat < h.memorySize.toNat then 0#8 else b := by
  rw [written, if_neg (by omega)]
  split_ifs <;> rfl

/-- An entry without a range in memory, which does not lie in the file or has only full chunks
in it, writes nothing. -/
lemma written_eq_none {F : List Byte} {h : ELFProgramHeader} (hmem : h.memorySize = 0#32)
    (hfull : h.offset.toNat + h.fileSize.toNat ≤ F.length → 65536 ∣ h.fileSize.toNat) {x : Addr} :
    written F h x = none := by
  rw [written, if_neg (by omega), if_neg (by rw [hmem]; exact Nat.not_lt_zero _)]

/-- An entry that lies in the file writes nothing exactly when it has no range in memory and only
full chunks in the file. -/
lemma written_eq_none_iff {F : List Byte} {h : ELFProgramHeader}
    (hend : h.offset.toNat + h.fileSize.toNat ≤ F.length) :
    (∀ x ∈ h.extent, written F h x = none) ↔ h.memorySize = 0#32 ∧ 65536 ∣ h.fileSize.toNat := by
  have hfile := h.fileSize.isLt
  have hmem := h.memorySize.isLt
  constructor
  · intro hnone
    have hat : ∀ k < max h.fileSize.toNat h.memorySize.toNat,
        written F h (h.virtualAddress + BitVec.ofNat 32 k) = none := fun k hk =>
      hnone _ (add_ofNat_mem_span hk (by omega))
    refine ⟨BitVec.eq_of_toNat_eq ?_, ?_⟩
    · by_contra hne
      have hpos : 0 < h.memorySize.toNat := Nat.pos_of_ne_zero hne
      have h0 := hat 0 (by omega)
      rw [written, toNat_add_ofNat_sub _ (by omega), if_pos hpos] at h0
      split_ifs at h0
    · by_contra hne
      have hchunk := hat (h.fileSize.toNat / 65536 * 65536) (by omega)
      rw [written, toNat_add_ofNat_sub _ (by omega), if_pos ⟨hend, le_rfl, by omega⟩] at hchunk
      exact absurd hchunk (Option.some_ne_none _)
  · rintro ⟨hzero, hfull⟩ x -
    exact written_eq_none hzero fun _ => hfull

/-- An entry that does not lie in the file writes nothing exactly when it has no range in
memory. -/
lemma written_eq_none_iff_of_lt {F : List Byte} {h : ELFProgramHeader}
    (hend : F.length < h.offset.toNat + h.fileSize.toNat) :
    (∀ x ∈ h.extent, written F h x = none) ↔ h.memorySize = 0#32 := by
  have hfile := h.fileSize.isLt
  have hmem := h.memorySize.isLt
  constructor
  · intro hnone
    refine BitVec.eq_of_toNat_eq ?_
    by_contra hne
    have hpos : 0 < h.memorySize.toNat := Nat.pos_of_ne_zero hne
    have h0 := hnone (h.virtualAddress + BitVec.ofNat 32 0)
      (add_ofNat_mem_span (by omega) (by omega))
    rw [written, toNat_add_ofNat_sub _ (by omega), if_neg (by omega), if_pos hpos] at h0
    exact absurd h0 (Option.some_ne_none _)
  · intro hzero x _
    exact written_eq_none hzero fun h => absurd h (not_le.mpr hend)

section

variable {σ Partition Path : Type*} {D : FatDriver σ Partition Path} {part : Partition}
  {path : Path} {F : List Byte} {Ready : BootState σ → Prop} {At : Addr → ℕ → BootState σ → Prop}

/-- Opening the file for a segment: its memory is zeroed, and the driver's own changes. -/
lemma FatDriver.Delivers.openSegment_mem (hD : D.Delivers part path F Ready At)
    {s : BootState σ} {h : ELFProgramHeader} (hready : Ready s)
    (hext : Disjoint h.extent loaderArea) {x : Addr} (hx : x ∉ loaderArea) :
    (D.fatOpen part path
        { s with mem := memset h.virtualAddress 0#32 h.memorySize s.mem }).2.mem x
      = if (x - h.virtualAddress).toNat < h.memorySize.toNat then 0#8 else s.mem x := by
  have hlt := h.memorySize.isLt
  have hzero : ∀ y, y ∉ span h.virtualAddress h.memorySize.toNat →
      memset h.virtualAddress 0#32 h.memorySize s.mem y = s.mem y := fun y hy =>
    fillBytes_of_notMem (by omega) hy
  have hsub : span h.virtualAddress h.memorySize.toNat ⊆ h.extent :=
    span_mono (Nat.le_max_right _ _)
  have hready₁ : Ready { s with mem := memset h.virtualAddress 0#32 h.memorySize s.mem } :=
    hD.ready_congr hready fun y hy => hzero y fun hy' =>
      Set.disjoint_left.mp hext (hsub hy') (driverArea_subset hy)
  refine ((hD.fatOpen hready₁).2 fun h => hx (driverArea_subset h)).trans ?_
  by_cases hin : (x - h.virtualAddress).toNat < h.memorySize.toNat
  · rw [if_pos hin]
    have hxk : x = h.virtualAddress + BitVec.ofNat 32 (x - h.virtualAddress).toNat := by
      rw [BitVec.ofNat_toNat, BitVec.setWidth_eq]
      bv_omega
    conv_lhs => rw [hxk]
    exact fillBytes_of_lt (by omega) _ hin
  · rw [if_neg hin]
    exact hzero x hin

/-- **One entry** changes `written` outside the loader's memory. -/
theorem loadSegment_written (hD : D.Delivers part path F Ready At) {ph : Addr} {fuel : ℕ}
    {s s' : BootState σ} {h : ELFProgramHeader} {ok : Bool} (hph : span ph 32 ⊆ elfArea)
    (hfuel : 65537 ≤ fuel) (hready : Ready s) (hh : progHeader s.mem ph = h)
    (hext : Disjoint h.extent loaderArea)
    (hrun : loadSegment D part path fuel ph s = some (ok, s')) {x : Addr} (hx : x ∉ loaderArea) :
    s'.mem x = (written F h x).getD (s.mem x) := by
  have hfile : span h.virtualAddress h.fileSize.toNat ⊆ h.extent :=
    span_mono (Nat.le_max_left _ _)
  have hlt' := h.fileSize.isLt
  have hlt'' := h.offset.isLt
  have hloop : x ∉ loopArea ph := fun h => hx (loopArea_subset hph h)
  obtain ⟨fd, s₁, hopen, hat₁, -, hh₁, -⟩ := hD.openSegment hph hready hh hext
  have hzero := hD.openSegment_mem hready hext hx
  rw [hopen] at hzero
  obtain ⟨ok₂, s₂, hseek, hframe₂, hfile₂, hok₂, hat₂⟩ :=
    seekLoop_spec hD hph fuel hat₁ (Nat.zero_le _) (by omega)
  rw [hh₁] at hfile₂ hok₂ hat₂
  rw [Nat.zero_add] at hok₂ hat₂
  simp only [loadSegment, hh, hopen, hseek, Option.bind_some] at hrun
  -- what is left when nothing is copied
  have hset : F.length < h.offset.toNat + h.fileSize.toNat → s₂.mem x
      = (written F h x).getD (s.mem x) := fun hend => by
    rw [written_getD (.inl hend), hframe₂ hloop, hzero]
  cases ok₂ with
  | false =>
      have hend : ¬ h.offset.toNat ≤ F.length := fun h => Bool.false_ne_true (hok₂.mpr h)
      simp only [Bool.false_eq_true, if_false, Option.some.injEq, Prod.mk.injEq] at hrun
      rw [← hrun.2]
      exact hset (by omega)
  | true =>
      have hva : Disjoint (span h.virtualAddress (progHeader s₂.mem ph).fileSize.toNat)
          loaderArea := by
        rw [hfile₂]
        exact hext.mono_left hfile
      obtain ⟨ok₃, s₃, hload, hframe₃, hok₃, hdone⟩ :=
        loadLoop_spec hD hph fuel (hat₂ rfl) (hok₂.mp rfl) (by omega) hva
      simp only [if_true, hload, Option.map_some, Option.some.injEq] at hrun
      cases ok₃ with
      | false =>
          rw [← (Prod.mk.inj hrun).2]
          have hend : ¬ h.offset.toNat + h.fileSize.toNat ≤ F.length := fun h =>
            Bool.false_ne_true (hok₃.mpr (by rwa [hfile₂]))
          exact (loadLoop_failed hD hph fuel (hat₂ rfl) hva hload hloop).trans (hset (by omega))
      | true =>
          rw [hfile₂] at hframe₃ hok₃ hdone
          obtain ⟨hat₃, hbytes⟩ := hdone rfl
          simp only [if_true] at hrun
          rw [← (Prod.mk.inj hrun).2]
          refine ((hD.fatClose hat₃).2 fun h => hx (driverArea_subset h)).trans ?_
          have hend := hok₃.mp rfl
          have hxk : h.virtualAddress + BitVec.ofNat 32 (x - h.virtualAddress).toNat = x := by
            rw [BitVec.ofNat_toNat, BitVec.setWidth_eq]
            bv_omega
          by_cases hk : (x - h.virtualAddress).toNat < h.fileSize.toNat
          · have hbyte := hbytes _ hk
            rw [hxk] at hbyte
            rw [hbyte]
            by_cases hfull : (x - h.virtualAddress).toNat < h.fileSize.toNat / 65536 * 65536
            · rw [if_pos hfull, written_getD (.inr (.inl hfull)), hframe₂ hloop, hzero]
            · rw [if_neg hfull, written, if_pos ⟨hend, by omega, hk⟩]
              rfl
          · rw [written_getD (.inr (.inr (not_lt.mp hk))), hframe₃ fun h => h.elim hloop hk,
              hframe₂ hloop, hzero]

/-! ### The table -/

/-- The byte that the `n` entries of the table from entry `i` on leave at `x`: the last write
stays, and the loop ends at the first segment that does not lie in the file. -/
def tableWritten (F : List Byte) (T : ℕ → ELFProgramHeader) (x : Addr) : ℕ → ℕ → Option Byte
  | 0, _ => none
  | n + 1, i =>
      if (T i).type = ELF_PROGRAM_TYPE_LOAD then
        if (T i).offset.toNat + (T i).fileSize.toNat ≤ F.length then
          (tableWritten F T x n (i + 1)).or (written F (T i) x)
        else written F (T i) x
      else tableWritten F T x n (i + 1)

/-- **The table** changes `tableWritten` outside the loader's memory. -/
theorem entryLoop_written (hD : D.Delivers part path F Ready At) {T : ℕ → ELFProgramHeader}
    {entrySize : Word} {fuel : ℕ} (hfuel : 65537 ≤ fuel) (hes : 32 ≤ entrySize.toNat) (n : ℕ)
    {i : ℕ} {s s' : BootState σ} {ok : Bool} (htable : (i + n) * entrySize.toNat ≤ 0x10000)
    (hready : Ready s)
    (hT : ∀ j, i ≤ j → j < i + n → progHeader s.mem (entryAddr entrySize j) = T j)
    (hext : ∀ j, LoadIn T i n j → Disjoint (T j).extent loaderArea)
    (hrun : entryLoop D part path fuel entrySize n (BitVec.ofNat 32 i) s = some (ok, s'))
    {x : Addr} (hx : x ∉ loaderArea) :
    s'.mem x = (tableWritten F T x n i).getD (s.mem x) := by
  induction n generalizing i s with
  | zero =>
      simp only [entryLoop, Option.some.injEq, Prod.mk.injEq] at hrun
      rw [← hrun.2]
      rfl
  | succ n ih =>
      have hnext : BitVec.ofNat 32 i + 1#32 = BitVec.ofNat 32 (i + 1) := by
        rw [BitVec.ofNat_add]
      have htable' : (i + 1 + n) * entrySize.toNat ≤ 0x10000 := by
        rwa [show i + 1 + n = i + (n + 1) by omega]
      have hi := hT i le_rfl (by omega)
      simp only [entryLoop, hnext] at hrun
      rw [← entryAddr, hi] at hrun
      rw [tableWritten]
      by_cases hty : (T i).type = ELF_PROGRAM_TYPE_LOAD
      · rw [if_pos hty] at hrun ⊢
        have hload : LoadIn T i (n + 1) i := ⟨le_rfl, by omega, hty⟩
        have hph := span_entryAddr_subset hes htable (show i < i + (n + 1) by omega)
        obtain ⟨ok₁, s₁, hrun₁, hframe₁, hok₁, hdone₁⟩ :=
          loadSegment_spec hD hph hfuel hready hi (hext i hload)
        have hwritten := loadSegment_written hD hph hfuel hready hi (hext i hload) hrun₁ hx
        simp only [hrun₁, Option.bind_some] at hrun
        cases ok₁ with
        | false =>
            rw [if_neg fun h => Bool.false_ne_true (hok₁.mpr h)]
            simp only [Bool.false_eq_true, if_false, Option.some.injEq, Prod.mk.injEq] at hrun
            rw [← hrun.2, hwritten]
        | true =>
            rw [if_pos (hok₁.mp rfl), getD_or, ← hwritten]
            refine ih htable' (hdone₁ rfl).1 (fun j hij hj => ?_) (fun j hj => hext j hj.of_succ)
              hrun
            rw [← hT j (by omega) (by omega)]
            exact progHeader_of_later hes htable (by omega) (by omega) (hext i hload) hframe₁
      · rw [if_neg hty] at hrun ⊢
        exact ih htable' hready (fun j hij hj => hT j (by omega) (by omega))
          (fun j hj => hext j hj.of_succ) hrun

end

/-- Entry `j` of the table fails, and nothing was written until then: the segments up to it have
no range in memory, and those before it only full chunks in the file. -/
structure FailsUnwritten (F : List Byte) (T : ℕ → ELFProgramHeader) (i n j : ℕ) : Prop where
  load : LoadIn T i n j
  short : F.length < (T j).offset.toNat + (T j).fileSize.toNat
  unwritten : ∀ k, LoadIn T i n k → k ≤ j →
    (T k).memorySize = 0#32 ∧ (k < j → 65536 ∣ (T k).fileSize.toNat)

section

variable {F : List Byte} {T : ℕ → ELFProgramHeader}

/-- A table that fails so is not written from. -/
lemma FailsUnwritten.tableWritten (x : Addr) {n : ℕ} {i j : ℕ} (h : FailsUnwritten F T i n j) :
    tableWritten F T x n i = none := by
  induction n generalizing i with
  | zero => rfl
  | succ n ih =>
      rw [MiqOSoft.tableWritten]
      by_cases hty : (T i).type = ELF_PROGRAM_TYPE_LOAD
      · have hi := h.unwritten i ⟨le_rfl, by omega, hty⟩ h.load.le
        rw [if_pos hty]
        rcases Nat.eq_or_lt_of_le h.load.le with rfl | hlt
        · rw [if_neg (not_le.mpr h.short)]
          exact written_eq_none hi.1 fun hend => absurd hend (not_le.mpr h.short)
        · rw [written_eq_none hi.1 fun _ => hi.2 hlt]
          have hrest : FailsUnwritten F T (i + 1) n j :=
            { load := ⟨hlt, by have := h.load.lt; omega, h.load.type_eq⟩
              short := h.short
              unwritten := fun k hk => h.unwritten k hk.of_succ }
          rw [ih hrest]
          split_ifs <;> rfl
      · rw [if_neg hty]
        refine ih
          { load := ?_, short := h.short, unwritten := fun k hk => h.unwritten k hk.of_succ }
        exact (loadIn_succ_iff.mp h.load).resolve_left fun hi => hty hi.2

/-- A table that fails is not written from only if it fails so. -/
lemma exists_failsUnwritten {n : ℕ} {i : ℕ}
    (hfails : ∃ j, LoadIn T i n j ∧ F.length < (T j).offset.toNat + (T j).fileSize.toNat)
    (hnone : ∀ j, LoadIn T i n j → ∀ x ∈ (T j).extent, tableWritten F T x n i = none) :
    ∃ j, FailsUnwritten F T i n j := by
  induction n generalizing i with
  | zero =>
      obtain ⟨j, hj, -⟩ := hfails
      exact absurd hj.lt (not_lt.mpr hj.le)
  | succ n ih =>
      obtain ⟨j₀, hj₀, hshort⟩ := hfails
      simp only [tableWritten] at hnone
      by_cases hty : (T i).type = ELF_PROGRAM_TYPE_LOAD
      · have hload : LoadIn T i (n + 1) i := ⟨le_rfl, by omega, hty⟩
        simp only [if_pos hty] at hnone
        by_cases hend : (T i).offset.toNat + (T i).fileSize.toNat ≤ F.length
        · simp only [if_pos hend, Option.or_eq_none_iff] at hnone
          have hi := (written_eq_none_iff hend).mp fun x hx => (hnone i hload x hx).2
          have hlater : LoadIn T (i + 1) n j₀ := by
            refine (loadIn_succ_iff.mp hj₀).resolve_left ?_
            rintro ⟨rfl, -⟩
            exact absurd hend (not_le.mpr hshort)
          obtain ⟨j, hj⟩ := ih ⟨j₀, hlater, hshort⟩
            fun k hk x hx => (hnone k hk.of_succ x hx).1
          refine ⟨j, hj.load.of_succ, hj.short, fun k hk hkj => ?_⟩
          rcases loadIn_succ_iff.mp hk with ⟨rfl, -⟩ | hk'
          · exact ⟨hi.1, fun _ => hi.2⟩
          · exact hj.unwritten k hk' hkj
        · simp only [if_neg hend] at hnone
          refine ⟨i, hload, not_le.mp hend, fun k hk hki => ?_⟩
          obtain rfl : k = i := le_antisymm hki hk.le
          exact ⟨written_eq_none_iff_of_lt (not_le.mp hend) |>.mp (hnone k hload),
            fun h => absurd h (lt_irrefl k)⟩
      · simp only [if_neg hty] at hnone
        have hload : ∀ j, LoadIn T i (n + 1) j → LoadIn T (i + 1) n j := fun j hj =>
          (loadIn_succ_iff.mp hj).resolve_left fun h => hty h.2
        obtain ⟨j, hj⟩ := ih ⟨j₀, hload j₀ hj₀, hshort⟩ fun k hk => hnone k hk.of_succ
        exact ⟨j, hj.load.of_succ, hj.short, fun k hk => hj.unwritten k (hload k hk)⟩

end

/-! ### The file -/

instance (F : List Byte) : Decidable (HasTable F) :=
  inferInstanceAs (Decidable (_ ∨ _))

/-- The byte that `ELF_Read` leaves at `x`, if it writes there. -/
def elfWritten (F : List Byte) (x : Addr) : Option Byte :=
  if HasTable F then (tableWritten F (fileEntry F) x (entryCount F) 0).or (headerWritten F x)
  else headerWritten F x

/-- The files whose table is not there, or has no entry, or is one that `ELF_Read` has room for. -/
structure TableLoadable (F : List Byte) : Prop where
  length_le : F.length ≤ 0xFFFD0000
  loadable : HasTable F → entryCount F = 0 ∨ Loadable F

lemma TableLoadable.of_isLoad {F : List Byte} (hF : TableLoadable F) (ht : HasTable F) {j : ℕ}
    (hj : IsLoad F j) : Loadable F :=
  (hF.loadable ht).resolve_left fun h => absurd hj.1 (by rw [h]; exact Nat.not_lt_zero j)

/-- The header that the checks of `ELF_Read` describe. -/
structure HeaderValid (F : List Byte) : Prop where
  length_ge : 52 ≤ F.length
  magic : (fileHeader F).magic = 0x464C457F#32
  bitness : (fileHeader F).bitness = 1#8
  endianness : (fileHeader F).endianness = 1#8
  elfHeaderVersion : (fileHeader F).elfHeaderVersion = 1#8
  elfVersion : (fileHeader F).elfVersion = 1#32
  type : (fileHeader F).type = 2#16
  instructionSet : (fileHeader F).instructionSet = 3#16

/-- The flag is false on every such header: `memcmp` is compared with `!= 0`. -/
lemma HeaderValid.ok {F : List Byte} (h : HeaderValid F) : (fileHeader F).ok = false := by
  rw [ELFHeader.ok, h.magic]
  rfl

/-- What the checks are for: on a file with another header `ELF_Read` returns false, and the
memory of every segment, as far as it is not the loader's own, is as it was. -/
def HeaderChecked {σ Partition Path : Type*} (D : FatDriver σ Partition Path) (part : Partition)
    (path : Path) (F : List Byte) (fuel : ℕ) (e : Word) (s : BootState σ) : Prop :=
  ¬ HeaderValid F → ∃ e' s', elfRead D part path fuel e s = some (false, e', s') ∧
    ∀ j, IsLoad F j → Set.EqOn s'.mem s.mem ((fileEntry F j).extent \ loaderArea)

/-- `ELF_Read` fails before it writes to a segment: the seek to the table and the read of the table
do not reach the segments, and the table is not there or fails unwritten. -/
structure FailsBeforeWrite (F : List Byte) : Prop where
  header : ∀ j, IsLoad F j → span MEMORY_ELF_ADDR (max (seekLength F) (tableLength F))
    ∩ (fileEntry F j).extent ⊆ loaderArea
  fails : HasTable F → ∃ j, FailsUnwritten F (fileEntry F) 0 (entryCount F) j

lemma headerWritten_eq_none_iff {F : List Byte} {x : Addr} : headerWritten F x = none ↔
    x ∉ span MEMORY_ELF_ADDR (max (seekLength F) (tableLength F)) := by
  rw [headerWritten, Option.or_eq_none_iff, fromFile_eq_none_iff, fromFile_eq_none_iff, mem_span,
    mem_span, mem_span]
  omega

section

variable {σ Partition Path : Type*} {D : FatDriver σ Partition Path} {part : Partition}
  {path : Path} {F : List Byte} {Ready : BootState σ → Prop} {At : Addr → ℕ → BootState σ → Prop}

/-- **`ELF_Read`** returns, and changes `elfWritten` outside its own memory. -/
theorem elfRead_written (hD : D.Delivers part path F Ready At) (hF : TableLoadable F)
    (hheader : 52 ≤ F.length) {fuel : ℕ} (hfuel : 65537 ≤ fuel) (e : Word) {s : BootState σ}
    (hready : Ready s) :
    ∃ ok e' s', elfRead D part path fuel e s = some (ok, e', s') ∧
      (ok = true ↔ HasTable F ∧ ∀ j, IsLoad F j →
        (fileEntry F j).offset.toNat + (fileEntry F j).fileSize.toNat ≤ F.length) ∧
      ∀ x ∉ loaderArea, s'.mem x = (elfWritten F x).getD (s.mem x) := by
  obtain ⟨s₁, hmem, hnone, htable⟩ := elfRead_table hD hF.length_le hheader fuel e hready
  simp only [elfWritten]
  by_cases ht : HasTable F
  swap
  · refine ⟨false, _, s₁, hnone ht, iff_of_false Bool.false_ne_true fun h => ht h.1, ?_⟩
    simp only [if_neg ht]
    exact hmem
  obtain ⟨hready₁, hT, hrun₁⟩ := htable ht
  simp only [if_pos ht, getD_or]
  rcases hF.loadable ht with hzero | hF'
  · -- a table without entries: nothing is left to do
    have hno : ∀ j, ¬ IsLoad F j := fun j hj =>
      absurd hj.1 (by rw [hzero]; exact Nat.not_lt_zero j)
    rw [hzero] at hrun₁ ⊢
    exact ⟨true, _, s₁, hrun₁, iff_of_true rfl ⟨ht, fun j hj => absurd hj (hno j)⟩, hmem⟩
  · have hes : ((fileHeader F).programHeaderTableEntrySize.setWidth 32).toNat = entrySize F :=
      BitVec.toNat_setWidth_of_le (by omega)
    obtain ⟨ok, e', s', hrun, hok, -⟩ := elfRead_spec hD hF' hfuel e hready
    refine ⟨ok, e', s', hrun, hok.trans (and_iff_right hheader), fun x hx => ?_⟩
    rw [hrun₁, Option.map_eq_some_iff] at hrun
    obtain ⟨⟨ok₁, s₂⟩, hloop, heq⟩ := hrun
    obtain ⟨-, -, rfl⟩ := heq
    rw [← hmem x hx]
    exact entryLoop_written hD hfuel (by rw [hes]; exact hF'.entrySize_ge) (entryCount F)
      (by rw [hes, Nat.zero_add]; exact hF'.table_le) hready₁
      (fun j _ hj => hT hF'.entrySize_ge hF'.table_le j (by omega))
      (fun j hj => hF'.apart j (loadIn_fileEntry_iff.mp hj)) hloop hx

/-- What is not written whatever was there before is not written at all. -/
lemma elfWritten_eq_none (hD : D.Delivers part path F Ready At) (hF : TableLoadable F)
    (hheader : 52 ≤ F.length) (hvalid : ¬ HeaderValid F) {fuel : ℕ} (hfuel : 65537 ≤ fuel)
    {e : Word} {s : BootState σ} (hready : Ready s)
    (hall : ∀ m, Set.EqOn m s.mem driverArea →
      HeaderChecked D part path F fuel e { s with mem := m })
    {j : ℕ} (hj : IsLoad F j) {x : Addr} (hx : x ∈ (fileEntry F j).extent)
    (hxo : x ∉ loaderArea) : elfWritten F x = none := by
  -- a byte that is written shows in front of a memory that held another one there
  have hget : ∀ b, (elfWritten F x).getD b = b := fun b => by
    have hm : Set.EqOn (Function.update s.mem x b) s.mem driverArea := fun y hy => by
      have hne : y ≠ x := fun h => hxo (driverArea_subset (by rwa [h] at hy))
      exact Function.update_of_ne hne b s.mem
    obtain ⟨e', s', hrun, hframe⟩ := hall _ hm hvalid
    obtain ⟨ok, e'', s'', hrun', -, hwritten⟩ :=
      elfRead_written hD hF hheader hfuel e (hD.ready_congr hready hm)
    obtain ⟨-, -, rfl⟩ := Option.some.inj (hrun.symm.trans hrun')
    have hbyte := hwritten x hxo
    rw [hframe j hj ⟨hx, hxo⟩] at hbyte
    simpa using hbyte.symm
  cases hw : elfWritten F x with
  | none => rfl
  | some c =>
      rw [hw] at hget
      exact absurd ((hget 0#8).symm.trans (hget 1#8)) (by decide)

/-- **The header checks**: nothing reads what they compute.  A file with another header is
rejected without a write to a segment, whatever is in memory, exactly when it is too short for a
header or `ELF_Read` fails for another reason before its first write. -/
theorem elfRead_header_iff (hD : D.Delivers part path F Ready At)
    (hroom : HeaderValid F ∨ F.length < 52 ∨ TableLoadable F) {fuel : ℕ} (hfuel : 65537 ≤ fuel)
    (e : Word) {s : BootState σ} (hready : Ready s) :
    (∀ m, Set.EqOn m s.mem driverArea →
        HeaderChecked D part path F fuel e { s with mem := m })
      ↔ HeaderValid F ∨ F.length < 52 ∨ FailsBeforeWrite F := by
  by_cases hvalid : HeaderValid F
  · exact iff_of_true (fun m _ h => absurd hvalid h) (.inl hvalid)
  by_cases hshort : F.length < 52
  · refine iff_of_true (fun m hm _ => ?_) (.inr (.inl hshort))
    obtain ⟨s', hrun, hframe⟩ := elfRead_short hD hshort fuel e (hD.ready_congr hready hm)
    exact ⟨e, s', hrun, fun j _ x hx => hframe hx.2⟩
  have hF : TableLoadable F := (hroom.resolve_left hvalid).resolve_left hshort
  have hheader : 52 ≤ F.length := not_lt.mp hshort
  rw [or_iff_right hvalid, or_iff_right hshort]
  constructor
  · intro hall
    have hnone : ∀ j, IsLoad F j → ∀ x ∈ (fileEntry F j).extent, x ∉ loaderArea →
        elfWritten F x = none := fun j hj x hx hxo =>
      elfWritten_eq_none hD hF hheader hvalid hfuel hready hall hj hx hxo
    refine ⟨fun j hj x hx => ?_, fun ht => ?_⟩
    · by_contra hxo
      have h := hnone j hj x hx.2 hxo
      refine headerWritten_eq_none_iff.mp ?_ hx.1
      rw [elfWritten] at h
      split_ifs at h with ht
      · exact (Option.or_eq_none_iff.mp h).2
      · exact h
    · obtain ⟨e', s', hrun, -⟩ := hall s.mem (fun _ _ => rfl) hvalid
      obtain ⟨ok, e'', s'', hrun', hok, -⟩ := elfRead_written hD hF hheader hfuel e hready
      have hfalse : ok = false := (congrArg Prod.fst (Option.some.inj (hrun.symm.trans hrun'))).symm
      rw [hfalse] at hok
      obtain ⟨j, hj, hend⟩ : ∃ j, IsLoad F j ∧
          F.length < (fileEntry F j).offset.toNat + (fileEntry F j).fileSize.toNat := by
        by_contra hno
        refine Bool.false_ne_true (hok.mpr ⟨ht, fun j hj => not_lt.mp fun hlt => hno ⟨j, hj, hlt⟩⟩)
      have hapart := (hF.of_isLoad ht hj).apart
      refine exists_failsUnwritten ⟨j, loadIn_fileEntry_iff.mpr hj, hend⟩ fun i hi x hx => ?_
      have hi' := loadIn_fileEntry_iff.mp hi
      have h := hnone i hi' x hx (Set.disjoint_left.mp (hapart i hi') hx)
      rw [elfWritten, if_pos ht] at h
      exact (Option.or_eq_none_iff.mp h).1
  · intro hfails m hm _
    obtain ⟨ok, e', s', hrun, hok, hwritten⟩ :=
      elfRead_written hD hF hheader hfuel e (hD.ready_congr hready hm)
    have hfalse : ok = false := by
      rw [← Bool.not_eq_true, hok]
      rintro ⟨ht, hends⟩
      obtain ⟨j, hj⟩ := hfails.fails ht
      exact absurd (hends j (loadIn_fileEntry_iff.mp hj.load)) (not_le.mpr hj.short)
    rw [hfalse] at hrun
    refine ⟨e', s', hrun, fun j hj x hx => ?_⟩
    have hnone : elfWritten F x = none := by
      have hheaders : headerWritten F x = none :=
        headerWritten_eq_none_iff.mpr fun h => hx.2 (hfails.header j hj ⟨h, hx.1⟩)
      rw [elfWritten, hheaders, Option.or_none]
      split_ifs with ht
      · obtain ⟨k, hk⟩ := hfails.fails ht
        exact hk.tableWritten x
      · rfl
    rw [hwritten x hx.2, hnone]
    rfl

end

/-- The small file without its table and with another magic. -/
def headerOnly : List Byte := (smallElf.take 52).set 0 0#8

lemma isLoad_headerOnly (j : ℕ) : ¬ IsLoad headerOnly j := by
  rintro ⟨hj, htype⟩
  have hcount : entryCount headerOnly = 1 := by decide +kernel
  obtain rfl : j = 0 := by omega
  exact absurd htype (by decide +kernel)

/-- The table is not there. -/
theorem elfRead_header_iff_headerOnly :
    ¬ HeaderValid headerOnly ∧
      HeaderChecked (flatDriver headerOnly) () () headerOnly 65537 0#32 zeroState := by
  have htable : ¬ HasTable headerOnly := by decide +kernel
  have hF : TableLoadable headerOnly :=
    { length_le := by decide +kernel
      loadable := fun ht => absurd ht htable }
  have hfails : FailsBeforeWrite headerOnly :=
    { header := fun j hj => absurd hj (isLoad_headerOnly j)
      fails := fun ht => absurd ht htable }
  refine ⟨fun h => absurd h.magic (by decide +kernel), ?_⟩
  exact (elfRead_header_iff (flatDriver_delivers headerOnly) (.inr (.inr hF)) le_rfl 0#32
    (s := zeroState) trivial).mpr (.inr (.inr hfails)) zeroState.mem fun _ _ => rfl

/-- The small file with another magic. -/
def otherMagic : List Byte := smallElf.set 0 0#8

/-- A file with another magic is accepted. -/
theorem elfRead_accepts_magic :
    (flatDriver otherMagic).Delivers () () otherMagic (fun _ => True) (fun _ p s => s.fat = p) ∧
      ¬ HeaderValid otherMagic ∧
      ∃ e' s', elfRead (flatDriver otherMagic) () () 65537 0#32 zeroState = some (true, e', s') ∧
        s'.mem 0x100000#32 = 1#8 := by
  refine ⟨flatDriver_delivers otherMagic, fun h => absurd h.magic (by decide +kernel), ?_⟩
  have hrun : (elfRead (flatDriver otherMagic) () () 65537 0#32 zeroState).map
      (fun r => (r.1, r.2.2.mem 0x100000#32)) = some (true, 1#8) := by decide +kernel
  obtain ⟨⟨ok, e', s'⟩, hrun', heq⟩ := Option.map_eq_some_iff.mp hrun
  obtain ⟨hok, hbyte⟩ := Prod.mk.inj heq
  exact ⟨e', s', by rw [hrun', ← hok], hbyte⟩

end MiqOSoft
