import MiqOSoft.Boot.ElfLoad

/-!
The segments `ELF_Read` loads, by induction over the program header table.

* `loadedByte`: the byte that an entry leaves at each offset of its range.
* `loadSegment_spec`: one entry.  It succeeds exactly when the segment lies in the file, and
  then leaves `loadedByte` all over its range.
* `entryLoop_spec`: the table.  The entries that are left stay what the file says, since no
  segment meets the loader's own memory, and a loaded segment stays as it is as long as no
  later one meets it.
-/

namespace MiqOSoft

open Machine

/-! ### One segment -/

/-- The range of an entry that may be written: its range in memory, and what it has in the
file. -/
def ELFProgramHeader.extent (h : ELFProgramHeader) : Set Addr :=
  span h.virtualAddress (max h.fileSize.toNat h.memorySize.toNat)

/-- The byte that loading an entry leaves at offset `k` of its range.  A full chunk of
`MEMORY_LOAD_SIZE` bytes is a copy of no byte, since the length of `memcpy` is 16 bits wide. -/
def loadedByte (F : List Byte) (h : ELFProgramHeader) (k : ℕ) : Byte :=
  if k < h.fileSize.toNat / 65536 * 65536 then 0#8
  else if k < h.fileSize.toNat then F.getD (h.offset.toNat + k) 0#8 else 0#8

section

variable {σ Partition Path : Type*} {D : FatDriver σ Partition Path} {part : Partition}
  {path : Path} {F : List Byte} {Ready : BootState σ → Prop} {At : Addr → ℕ → BootState σ → Prop}

/-- The segment's memory is zeroed, and the file opened. -/
lemma FatDriver.Delivers.openSegment (hD : D.Delivers part path F Ready At) {ph : Addr}
    {s : BootState σ} {h : ELFProgramHeader} (hph : span ph 32 ⊆ elfArea) (hready : Ready s)
    (hh : progHeader s.mem ph = h) (hext : Disjoint h.extent loaderArea) :
    ∃ fd s₁, D.fatOpen part path
        { s with mem := memset h.virtualAddress 0#32 h.memorySize s.mem } = (fd, s₁) ∧
      At fd 0 s₁ ∧ Set.EqOn s₁.mem s.mem (driverArea ∪ h.extent)ᶜ ∧
      progHeader s₁.mem ph = h ∧
      ∀ k < h.memorySize.toNat, s₁.mem (h.virtualAddress + BitVec.ofNat 32 k) = 0#8 := by
  have hlt := h.memorySize.isLt
  have hsub : span h.virtualAddress h.memorySize.toNat ⊆ h.extent :=
    span_mono (Nat.le_max_right _ _)
  have hzero : Set.EqOn (memset h.virtualAddress 0#32 h.memorySize s.mem) s.mem h.extentᶜ :=
    fun x hx => fillBytes_of_notMem (by omega) fun hx' => hx (hsub hx')
  have hready₁ : Ready { s with mem := memset h.virtualAddress 0#32 h.memorySize s.mem } :=
    hD.ready_congr hready (hzero.mono fun x hx hx' =>
      Set.disjoint_left.mp hext hx' (driverArea_subset hx))
  obtain ⟨hat, hopen⟩ := hD.fatOpen hready₁
  have hframe : Set.EqOn (D.fatOpen part path
      { s with mem := memset h.virtualAddress 0#32 h.memorySize s.mem }).2.mem s.mem
      (driverArea ∪ h.extent)ᶜ := fun x hx => by
    rw [Set.compl_union] at hx
    exact (hopen hx.1).trans (hzero hx.2)
  refine ⟨_, _, rfl, hat, hframe, ?_, fun k hk => ?_⟩
  · refine (progHeader_congr (hframe.mono ?_)).trans hh
    rintro x hx (hx' | hx')
    · exact Set.disjoint_left.mp disjoint_elfArea_driverArea (hph hx) hx'
    · exact Set.disjoint_left.mp hext hx' (elfArea_subset (hph hx))
  · refine (hopen fun hx => ?_).trans (fillBytes_of_lt (by omega) k hk)
    exact Set.disjoint_left.mp hext (hsub (add_ofNat_mem_span hk (by omega)))
      (driverArea_subset hx)

/-- **One entry**: the segment is loaded exactly when it lies in the file. -/
theorem loadSegment_spec (hD : D.Delivers part path F Ready At) {ph : Addr} {fuel : ℕ}
    {s : BootState σ} {h : ELFProgramHeader} (hph : span ph 32 ⊆ elfArea) (hfuel : 65537 ≤ fuel)
    (hready : Ready s) (hh : progHeader s.mem ph = h) (hext : Disjoint h.extent loaderArea) :
    ∃ ok s', loadSegment D part path fuel ph s = some (ok, s') ∧
      Set.EqOn s'.mem s.mem (loopArea ph ∪ h.extent)ᶜ ∧
      (ok = true ↔ h.offset.toNat + h.fileSize.toNat ≤ F.length) ∧
      (ok = true → Ready s' ∧ (h.fileSize.toNat ≤ h.memorySize.toNat →
        ∀ k < h.memorySize.toNat,
          s'.mem (h.virtualAddress + BitVec.ofNat 32 k) = loadedByte F h k)) := by
  have hfile : span h.virtualAddress h.fileSize.toNat ⊆ h.extent :=
    span_mono (Nat.le_max_left _ _)
  have hlt := h.memorySize.isLt
  have hlt' := h.fileSize.isLt
  have hlt'' := h.offset.isLt
  obtain ⟨fd, s₁, hopen, hat₁, hframe₁, hh₁, hzero⟩ := hD.openSegment hph hready hh hext
  obtain ⟨ok₂, s₂, hseek, hframe₂, hfile₂, hok₂, hat₂⟩ :=
    seekLoop_spec hD hph fuel hat₁ (Nat.zero_le _) (by omega)
  rw [hh₁] at hfile₂ hok₂ hat₂
  rw [Nat.zero_add] at hok₂ hat₂
  have hframe : Set.EqOn s₂.mem s.mem (loopArea ph ∪ h.extent)ᶜ := fun x hx => by
    rw [Set.compl_union] at hx
    exact (hframe₂ hx.1).trans (hframe₁ fun h => h.elim (fun h => hx.1 (.inl (.inl h))) hx.2)
  simp only [loadSegment, hh, hopen, hseek, Option.bind_some]
  cases ok₂ with
  | false =>
      have hend : ¬ h.offset.toNat ≤ F.length := fun h => Bool.false_ne_true (hok₂.mpr h)
      refine ⟨false, s₂, rfl, hframe, ?_, fun h => absurd h Bool.false_ne_true⟩
      simp only [Bool.false_eq_true, false_iff, not_le]
      omega
  | true =>
      obtain ⟨ok₃, s₃, hload, hframe₃, hok₃, hdone⟩ :=
        loadLoop_spec hD hph fuel (hat₂ rfl) (hok₂.mp rfl) (by omega)
          (by rw [hfile₂]; exact hext.mono_left hfile)
      rw [hfile₂] at hframe₃ hok₃ hdone
      have hframe' : Set.EqOn s₃.mem s.mem (loopArea ph ∪ h.extent)ᶜ := fun x hx =>
        (hframe₃ fun h => hx (h.imp_right fun h => hfile h)).trans (hframe hx)
      simp only [if_true, hload, Option.map_some]
      cases ok₃ with
      | false => exact ⟨false, s₃, rfl, hframe', hok₃, fun h => absurd h Bool.false_ne_true⟩
      | true =>
          obtain ⟨hat₃, hbytes⟩ := hdone rfl
          obtain ⟨hready', hclose⟩ := hD.fatClose hat₃
          refine ⟨true, _, rfl, ?_, hok₃, fun _ => ⟨hready', fun hle k hk => ?_⟩⟩
          · intro x hx
            exact (hclose fun h => hx (.inl (.inl (.inl h)))).trans (hframe' hx)
          have hmem : h.virtualAddress + BitVec.ofNat 32 k ∈ h.extent :=
            add_ofNat_mem_span (by omega) (by omega)
          have hout : h.virtualAddress + BitVec.ofNat 32 k ∉ loaderArea :=
            Set.disjoint_left.mp hext hmem
          have hseek₀ : s₂.mem (h.virtualAddress + BitVec.ofNat 32 k) = 0#8 :=
            (hframe₂ fun h => hout (loopArea_subset hph h)).trans (hzero k hk)
          refine (hclose fun h => hout (driverArea_subset h)).trans ?_
          rw [loadedByte]
          by_cases hk' : k < h.fileSize.toNat
          · rw [hbytes k hk', hseek₀, if_pos hk']
          · have hrest : h.virtualAddress + BitVec.ofNat 32 k
                ∉ span h.virtualAddress h.fileSize.toNat := by
              rw [mem_span, toNat_add_ofNat_sub _ (by omega)]
              exact hk'
            rw [if_neg (by omega), if_neg hk']
            refine (hframe₃ ?_).trans hseek₀
            rintro (h | h)
            · exact hout (loopArea_subset hph h)
            · exact hrest h

/-! ### The table -/

/-- Where entry `j` of the table lies in the header buffer. -/
def entryAddr (entrySize : Word) (j : ℕ) : Addr :=
  MEMORY_ELF_ADDR + BitVec.ofNat 32 j * entrySize

lemma toNat_entryAddr (entrySize : Word) {j : ℕ} (hj : j * entrySize.toNat ≤ 0x10000) :
    (entryAddr entrySize j).toNat = 0x30000 + j * entrySize.toNat := by
  have hbase : MEMORY_ELF_ADDR.toNat = 0x30000 := rfl
  have hmul : (BitVec.ofNat 32 j * entrySize).toNat = j * entrySize.toNat := by
    rw [BitVec.toNat_mul, BitVec.toNat_ofNat, Nat.mod_mul_mod, Nat.mod_eq_of_lt (by omega)]
  rw [entryAddr, BitVec.toNat_add, hmul, hbase, Nat.mod_eq_of_lt (by omega)]

section

variable {entrySize : Word} {n : ℕ}

/-- The entries of a table that fits the header buffer lie in it. -/
lemma span_entryAddr_subset (hes : 32 ≤ entrySize.toNat) (hn : n * entrySize.toNat ≤ 0x10000)
    {j : ℕ} (hj : j < n) : span (entryAddr entrySize j) 32 ⊆ elfArea := by
  have hend : (j + 1) * entrySize.toNat ≤ n * entrySize.toNat := Nat.mul_le_mul_right _ hj
  rw [Nat.add_mul, Nat.one_mul] at hend
  have haddr := toNat_entryAddr entrySize (j := j) (by omega)
  intro x hx
  rw [mem_span_iff (by omega)] at hx
  rw [mem_elfArea]
  omega

/-- Different entries do not meet. -/
lemma disjoint_entryAddr (hes : 32 ≤ entrySize.toNat) (hn : n * entrySize.toNat ≤ 0x10000)
    {i j : ℕ} (hij : i < j) (hj : j < n) :
    Disjoint (span (entryAddr entrySize i) 32) (span (entryAddr entrySize j) 32) := by
  have hend : (j + 1) * entrySize.toNat ≤ n * entrySize.toNat := Nat.mul_le_mul_right _ hj
  have hnext : (i + 1) * entrySize.toNat ≤ j * entrySize.toNat := Nat.mul_le_mul_right _ hij
  rw [Nat.add_mul, Nat.one_mul] at hend hnext
  have hi := toNat_entryAddr entrySize (j := i) (by omega)
  have hj := toNat_entryAddr entrySize (j := j) (by omega)
  exact disjoint_span (by omega) (by omega) (by omega)

end

/-- Entry `j` is one of the `n` entries from `i` on, and has type `PT_LOAD`. -/
structure LoadIn (T : ℕ → ELFProgramHeader) (i n j : ℕ) : Prop where
  le : i ≤ j
  lt : j < i + n
  type_eq : (T j).type = ELF_PROGRAM_TYPE_LOAD

lemma LoadIn.of_succ {T : ℕ → ELFProgramHeader} {i n j : ℕ} (h : LoadIn T (i + 1) n j) :
    LoadIn T i (n + 1) j :=
  ⟨by have := h.le; omega, by have := h.lt; omega, h.type_eq⟩

lemma loadIn_succ_iff {T : ℕ → ELFProgramHeader} {i n j : ℕ} :
    LoadIn T i (n + 1) j
      ↔ (j = i ∧ (T i).type = ELF_PROGRAM_TYPE_LOAD) ∨ LoadIn T (i + 1) n j := by
  constructor
  · rintro ⟨hle, hlt, hty⟩
    rcases Nat.eq_or_lt_of_le hle with rfl | hlt'
    · exact .inl ⟨rfl, hty⟩
    · exact .inr ⟨hlt', by omega, hty⟩
  · rintro (⟨rfl, hty⟩ | h)
    · exact ⟨le_rfl, by omega, hty⟩
    · exact h.of_succ

/-- Loading an entry leaves the later ones as they are. -/
lemma progHeader_of_later {entrySize : Word} {n : ℕ} {m m' : Memory} {h : ELFProgramHeader}
    (hes : 32 ≤ entrySize.toNat) (hn : n * entrySize.toNat ≤ 0x10000) {i j : ℕ} (hij : i < j)
    (hj : j < n) (hext : Disjoint h.extent loaderArea)
    (hframe : Set.EqOn m' m (loopArea (entryAddr entrySize i) ∪ h.extent)ᶜ) :
    progHeader m' (entryAddr entrySize j) = progHeader m (entryAddr entrySize j) := by
  have hphj := span_entryAddr_subset hes hn hj
  refine progHeader_congr (hframe.mono ?_)
  rintro x hx (((h | h) | h) | h)
  · exact Set.disjoint_left.mp disjoint_elfArea_driverArea (hphj hx) h
  · exact Set.disjoint_left.mp disjoint_elfArea_loadArea (hphj hx) h
  · exact Set.disjoint_left.mp (disjoint_entryAddr hes hn hij hj) h hx
  · exact Set.disjoint_left.mp hext h (elfArea_subset (hphj hx))

/-- The byte loaded at each offset of the range of an entry that no other one meets. -/
def Loaded (F : List Byte) (T : ℕ → ELFProgramHeader) (i n : ℕ) (m : Memory) : Prop :=
  ∀ j, LoadIn T i n j → (T j).fileSize.toNat ≤ (T j).memorySize.toNat →
    (∀ j', LoadIn T i n j' → j' ≠ j → Disjoint (T j).extent (T j').extent) →
    ∀ k < (T j).memorySize.toNat,
      m ((T j).virtualAddress + BitVec.ofNat 32 k) = loadedByte F (T j) k

/-- **The table**: from entry `i` on, every segment that lies in the file is loaded, as long as
the entries that are left are those of the table `T`. -/
theorem entryLoop_spec (hD : D.Delivers part path F Ready At) {T : ℕ → ELFProgramHeader}
    {entrySize : Word} {fuel : ℕ} (hfuel : 65537 ≤ fuel) (hes : 32 ≤ entrySize.toNat) (n : ℕ)
    {i : ℕ} {s : BootState σ} (htable : (i + n) * entrySize.toNat ≤ 0x10000) (hready : Ready s)
    (hT : ∀ j, i ≤ j → j < i + n → progHeader s.mem (entryAddr entrySize j) = T j)
    (hext : ∀ j, LoadIn T i n j → Disjoint (T j).extent loaderArea) :
    ∃ ok s', entryLoop D part path fuel entrySize n (BitVec.ofNat 32 i) s = some (ok, s') ∧
      (∀ x, x ∉ loaderArea → (∀ j, LoadIn T i n j → x ∉ (T j).extent) → s'.mem x = s.mem x) ∧
      (ok = true ↔ ∀ j, LoadIn T i n j →
        (T j).offset.toNat + (T j).fileSize.toNat ≤ F.length) ∧
      (ok = true → Loaded F T i n s'.mem) := by
  induction n generalizing i s with
  | zero =>
      have hnone : ∀ j, ¬ LoadIn T i 0 j := fun j h => absurd h.lt (not_lt.mpr h.le)
      exact ⟨true, s, rfl, fun _ _ _ => rfl,
        iff_of_true rfl fun j h => absurd h (hnone j), fun _ j h => absurd h (hnone j)⟩
  | succ n ih =>
      have hnext : BitVec.ofNat 32 i + 1#32 = BitVec.ofNat 32 (i + 1) := by
        rw [BitVec.ofNat_add]
      have htable' : (i + 1 + n) * entrySize.toNat ≤ 0x10000 := by
        rwa [show i + 1 + n = i + (n + 1) by omega]
      have hi := hT i le_rfl (by omega)
      simp only [entryLoop, hnext]
      rw [← entryAddr, hi]
      by_cases hty : (T i).type = ELF_PROGRAM_TYPE_LOAD
      · rw [if_pos hty]
        have hload : LoadIn T i (n + 1) i := ⟨le_rfl, by omega, hty⟩
        have hph := span_entryAddr_subset hes htable (show i < i + (n + 1) by omega)
        obtain ⟨ok₁, s₁, hrun₁, hframe₁, hok₁, hdone₁⟩ :=
          loadSegment_spec hD hph hfuel hready hi (hext i hload)
        have hframe₁' : ∀ x, x ∉ loaderArea → x ∉ (T i).extent → s₁.mem x = s.mem x :=
          fun x hx hx' => hframe₁ fun h => h.elim (fun h => hx (loopArea_subset hph h)) hx'
        simp only [hrun₁, Option.bind_some]
        cases ok₁ with
        | false =>
            refine ⟨false, s₁, rfl, fun x hx hx' => hframe₁' x hx (hx' i hload), ?_,
              fun h => absurd h Bool.false_ne_true⟩
            exact iff_of_false Bool.false_ne_true fun h => Bool.false_ne_true (hok₁.mpr (h i hload))
        | true =>
            obtain ⟨hready₁, hbytes₁⟩ := hdone₁ rfl
            have hT₁ : ∀ j, i + 1 ≤ j → j < i + 1 + n →
                progHeader s₁.mem (entryAddr entrySize j) = T j := by
              intro j hij hj
              rw [← hT j (by omega) (by omega)]
              exact progHeader_of_later hes htable (by omega) (by omega) (hext i hload) hframe₁
            obtain ⟨ok, s', hrun, hframe, hok, hdone⟩ :=
              ih htable' hready₁ hT₁ fun j hj => hext j hj.of_succ
            simp only [if_true, hrun]
            refine ⟨ok, s', rfl, fun x hx hx' => ?_, ?_, fun h j hj hle hapart k hk => ?_⟩
            · exact (hframe x hx fun j hj => hx' j hj.of_succ).trans
                (hframe₁' x hx (hx' i hload))
            · rw [hok]
              refine ⟨fun h j hj => ?_, fun h j hj => h j hj.of_succ⟩
              rcases loadIn_succ_iff.mp hj with ⟨rfl, -⟩ | hj'
              · exact hok₁.mp rfl
              · exact h j hj'
            · rcases loadIn_succ_iff.mp hj with ⟨rfl, -⟩ | hj'
              · -- the entry just loaded: the later ones do not meet it
                have hlt := (T j).memorySize.isLt
                have hmem : (T j).virtualAddress + BitVec.ofNat 32 k ∈ (T j).extent :=
                  add_ofNat_mem_span (by omega) (by have := (T j).fileSize.isLt; omega)
                rw [hframe _ (Set.disjoint_left.mp (hext j hj) hmem) fun j' hj' h => ?_]
                · exact hbytes₁ hle k hk
                · refine Set.disjoint_left.mp (hapart j' hj'.of_succ ?_) hmem h
                  have := hj'.le
                  omega
              · exact hdone h j hj' hle (fun j' h => hapart j' h.of_succ) k hk
      · rw [if_neg hty]
        have hload : ∀ j, LoadIn T i (n + 1) j ↔ LoadIn T (i + 1) n j := fun j => by
          rw [loadIn_succ_iff]
          exact or_iff_right fun h => hty h.2
        obtain ⟨ok, s', hrun, hframe, hok, hdone⟩ :=
          ih htable' hready (fun j hj hj' => hT j (by omega) (by omega))
            fun j hj => hext j hj.of_succ
        simp only [Loaded, hload]
        exact ⟨ok, s', hrun, hframe, hok, hdone⟩

end

end MiqOSoft
