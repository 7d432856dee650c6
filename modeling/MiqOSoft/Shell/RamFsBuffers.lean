import MiqOSoft.Shell.RamFsSteps

/-!
The buffers of the RAM file system.

* `CapsOk`: in the states that commands reach, the capacity of every regular file is a positive
  multiple of 256 and bounds its size.
* `ramfsWriteFile_inBounds_iff`: the stores of a write lie inside the buffers they are made
  through, exactly when the write does not fill a buffer to its last byte (`Shell.Fills`): the
  NUL behind the data has no room then.
* `LiveBlock`: the blocks that were obtained and not released since, read off the trace.
* `BlocksOk`: these blocks are the buffers of the regular files, one for each
  (`Shell.run_blocks`), as long as `sys_malloc` returns no block that is live.
-/

namespace MiqOSoft

open Machine Transition

variable {σ : Type*}

/-! ### Stores inside the buffers -/

/-- The event stores inside its buffer. -/
def RamFsEvent.InBounds : RamFsEvent → Prop
  | .store _ capacity off len => off + len ≤ capacity.toNat
  | _ => True

instance (e : RamFsEvent) : Decidable e.InBounds := by
  cases e <;> simp only [RamFsEvent.InBounds] <;> infer_instance

/-- A regular file. -/
def RamFs.Regular (fs : RamFs) (i : Fin 64) : Prop :=
  (fs.files i).inUse = true ∧ (fs.files i).isDirectory = 0#32

/-- Capacities are positive multiples of 256 and bound the sizes. -/
def CapsOk (fs : RamFs) : Prop := ∀ i, fs.Regular i →
  (fs.files i).capacity.toNat % 256 = 0 ∧ 256 ≤ (fs.files i).capacity.toNat ∧
    (fs.files i).size.toNat ≤ (fs.files i).capacity.toNat

lemma CapsOk.file {s : Shell σ} (h : CapsOk s.ramfs) {i : Fin 64} (hi : s.ramfs.Regular i) :
    (s.file i).capacity.toNat % 256 = 0 ∧ 256 ≤ (s.file i).capacity.toNat ∧
      (s.file i).size.toNat ≤ (s.file i).capacity.toNat :=
  h i hi

/-- What a command writes at most. -/
def RamFsCall.Bounded (c : RamFsCall) : Prop :=
  ∀ size, c.writes = some size → size.toNat ≤ MAX_FILE_SIZE

/-- The scope of the writes of commands. -/
def Scope.bounded : Scope :=
  ⟨fun _ => True, fun _ => True, fun size => size.toNat ≤ MAX_FILE_SIZE⟩

section InBounds

variable {S : SysCalls σ} {G : Scope} {s s' : Shell σ} {i : Fin 64} {name : CString} {size : Word}

/-- A size a command may have is rounded up without wrapping. -/
lemma le_grownCapacity (h : size.toNat ≤ MAX_FILE_SIZE) :
    size.toNat ≤ (grownCapacity size).toNat ∧ (grownCapacity size).toNat % 256 = 0 := by
  obtain ⟨hmod, hcase⟩ := grownCapacity_cases size
  rw [MAX_FILE_SIZE] at h
  rcases hcase with ⟨-, hbig⟩ | hle
  · omega
  · exact ⟨BitVec.le_def.mp hle, hmod⟩

/-- A multiple of 256 is not rounded, any other size is. -/
lemma grownCapacity_eq_iff (h : size.toNat ≤ MAX_FILE_SIZE) :
    grownCapacity size = size ↔ size.toNat % 256 = 0 := by
  have hval : (grownCapacity size).toNat = (size.toNat + 255) / 256 * 256 := by
    rw [grownCapacity, BitVec.toNat_mul, BitVec.toNat_udiv, BitVec.toNat_add]
    simp only [BitVec.reduceToNat]
    rw [MAX_FILE_SIZE] at h
    omega
  rw [← BitVec.toNat_inj, hval]
  omega

/-- An update of a slot by a file whose capacity is in order. -/
lemma CapsOk.update {fs fs' : RamFs} (h : CapsOk fs) {f : RamFile}
    (hfiles : fs'.files = Function.update fs.files i f)
    (hf : f.inUse = true → f.isDirectory = 0#32 → f.capacity.toNat % 256 = 0 ∧
      256 ≤ f.capacity.toNat ∧ f.size.toNat ≤ f.capacity.toNat) : CapsOk fs' := by
  intro j hj
  rw [RamFs.Regular, hfiles] at hj
  rw [hfiles]
  by_cases hji : j = i
  · subst hji
    rw [Function.update_self] at hj ⊢
    exact hf hj.1 hj.2
  · rw [Function.update_of_ne hji] at hj ⊢
    exact h j hj

/-- Every action keeps the capacities in order. -/
lemma Action.capsOk (hG : ∀ size, G.sized size → size.toNat ≤ MAX_FILE_SIZE)
    (h : Action S G s s') (hs : CapsOk s.ramfs) : CapsOk s'.ramfs := by
  cases h with
  | noMemory size hnull => exact hs
  | scratch slot f hfree hf hdata =>
      exact hs.update rfl fun huse => absurd (hf.symm.trans huse) Bool.false_ne_true
  | createFile name slot hname hfind hfree hmem =>
      exact hs.update rfl fun _ _ => by simp [newFile]
  | createDirectory name slot isDirectory hname hfind hfree hdir =>
      exact hs.update rfl fun _ hreg => absurd hreg hdir
  | delete i hmay huse hparent hempty =>
      refine hs.update (i := i) (f := RamFile.zero) ?_ fun huse => absurd huse (by decide)
      rw [Shell.unlink, Shell.release_ramfs]
  | grow i size hmay hsized huse hreg hcap hmem =>
      refine hs.update (Shell.grown_files size) fun _ _ => ?_
      obtain ⟨hmod, hpos, hle⟩ := hs.file ⟨huse, hreg⟩
      obtain ⟨hge, hmod'⟩ := le_grownCapacity (hG size hsized)
      have := BitVec.lt_def.mp hcap
      exact ⟨hmod', by dsimp only; omega, by dsimp only; omega⟩
  | fill i data size hmay hsized huse hreg hsize =>
      refine hs.update (fillFile_files data size) fun _ _ => ?_
      obtain ⟨hmod, hpos, -⟩ := hs i ⟨huse, hreg⟩
      refine ⟨hmod, hpos, ?_⟩
      rcases hsize with hzero | hle
      · rw [hzero] at hpos
        exact absurd hpos (by decide)
      · exact BitVec.le_def.mp hle
  | chdir dir hdir => exact hs

/-- The capacities are in order in the states that commands reach. -/
lemma Shell.run_capsOk {cs : List RamFsCall} (hs : s.Started)
    (hrun : Run (Shell.step S) (fun _ c => c.Bounded) s cs s') :
    CapsOk s'.ramfs ∧ s'.ramfs.initialized = true := by
  refine Shell.run_invariant (G := .bounded) (P := fun u => CapsOk u.ramfs)
    (fun u c _ hok => ⟨fun _ _ => trivial, fun _ _ => trivial, fun _ _ => trivial, hok⟩)
    (fun u u' hu h => h.capsOk (fun _ => id) hu) hrun hs.initialized ?_
  rintro i ⟨huse, hreg⟩
  rw [hs.ramfs_eq] at huse hreg
  by_cases hi : i = 0
  · subst hi
    exact absurd hreg (by decide)
  · simp [RamFs.initial, hi, RamFile.zero] at huse

/-- What is stored when a file is filled: the data, and a NUL behind it unless it is empty. -/
lemma fillFile_events (s : Shell σ) (i : Fin 64) (data : ℕ → Byte) (size : Word) :
    ∃ es, (fillFile i data size s).trace = es ++ s.trace ∧
    ((∀ e ∈ es, e.InBounds) ↔ size.toNat ≤ (s.file i).capacity.toNat ∧
      (0 < size.toNat → size.toNat < (s.file i).capacity.toNat)) := by
  by_cases hpos : 0#32 < size
  · refine ⟨[.store (s.file i).data (s.file i).capacity size.toNat 1,
      .store (s.file i).data (s.file i).capacity 0 size.toNat], ?_, ?_⟩
    · simp only [fillFile, if_pos hpos]
      rfl
    · have : 0 < size.toNat := BitVec.lt_def.mp hpos
      simp only [List.forall_mem_cons, RamFsEvent.InBounds]
      simp
      omega
  · refine ⟨[.store (s.file i).data (s.file i).capacity 0 size.toNat], ?_, ?_⟩
    · simp only [fillFile, if_neg hpos]
      rfl
    · have : size.toNat = 0 := by
        by_contra hne
        exact hpos (BitVec.lt_def.mpr (Nat.pos_of_ne_zero hne))
      simp only [List.forall_mem_cons, RamFsEvent.InBounds]
      simp
      omega

/-- What is stored when a buffer grows stays inside the new buffer. -/
lemma grown_events (S : SysCalls σ) (size : Word)
    (hsize : (s.file i).size.toNat ≤ (grownCapacity size).toNat) :
    ∃ es, (s.grown S i size).trace = es ++ s.trace ∧ ∀ e ∈ es, e.InBounds := by
  by_cases hnull : (s.file i).data = NULL
  · refine ⟨[.malloc (grownCapacity size) (s.malloc S (grownCapacity size)).1], ?_, ?_⟩
    · simp only [Shell.grown, if_pos hnull]
      rfl
    · simp [RamFsEvent.InBounds]
  · refine ⟨[.free (s.file i).data,
      .store (s.malloc S (grownCapacity size)).1 (grownCapacity size) 0 (s.file i).size.toNat,
      .malloc (grownCapacity size) (s.malloc S (grownCapacity size)).1], ?_, ?_⟩
    · simp only [Shell.grown, if_neg hnull]
      rfl
    · simpa [RamFsEvent.InBounds] using hsize

/-- A write of `size` bytes leaves a buffer of the given capacity full: the size is a positive
multiple of 256 the capacity does not exceed, and the buffer is large enough or can grow. -/
def FillsBuffer (S : SysCalls σ) (heap : σ) (mem : Memory) (capacity size : Word) : Prop :=
  0 < size.toNat ∧ size.toNat % 256 = 0 ∧ capacity ≤ size ∧
    (capacity < size → (S.sysMalloc size heap mem).1 ≠ NULL)

/-- A write fills the buffer of its file to the last byte.  A new file has a buffer of 256
bytes, obtained in front of the one it grows to. -/
def Shell.Fills (S : SysCalls σ) (s : Shell σ) (name : CString) (size : Word) : Prop :=
  match ramfsFindFile name s.ramfs.currentDir s.ramfs with
  | some i => (s.file i).isDirectory = 0#32 ∧
      FillsBuffer S s.heap s.mem (s.file i).capacity size
  | none =>
      let r := S.sysMalloc 256#32 s.heap s.mem
      s.Creates S name 0#32 ∧
        FillsBuffer S r.2.1 (Function.update r.2.2 (r.1 + 0#32) 0#8) 256#32 size

/-- A size that is 0 or no multiple of 256 fills no buffer. -/
lemma Shell.not_fills {size : Word} (hsize : 0 < size.toNat → size.toNat % 256 ≠ 0)
    (s : Shell σ) (name : CString) : ¬s.Fills S name size := by
  rw [Fills]
  split
  · rintro ⟨-, hpos, hmod, -⟩
    exact hsize hpos hmod
  · rintro ⟨-, hpos, hmod, -⟩
    exact hsize hpos hmod

/-- The stores behind the search: growth and filling stay in bounds unless the buffer is left
full. -/
lemma ramfsWriteFile_events {s₀ : Shell σ} (hfoc : findOrCreate S name s₀ = (.ok i, s))
    (hcaps : CapsOk s.ramfs) (hreg : s.ramfs.Regular i) (hsize : size.toNat ≤ MAX_FILE_SIZE)
    (data : ℕ → Byte) : ∃ es, (ramfsWriteFile S name data size s₀).2.trace = es ++ s.trace ∧
      ((∀ e ∈ es, e.InBounds) ↔ ¬FillsBuffer S s.heap s.mem (s.file i).capacity size) := by
  obtain ⟨hmod, hpos, hle⟩ := hcaps.file hreg
  obtain ⟨hge, -⟩ := le_grownCapacity hsize
  by_cases hcap : (s.file i).capacity < size
  · have hcap' := BitVec.lt_def.mp hcap
    have hfills : FillsBuffer S s.heap s.mem (s.file i).capacity size ↔
        size.toNat % 256 = 0 ∧ (s.malloc S (grownCapacity size)).1 ≠ NULL := by
      constructor
      · rintro ⟨-, hmod, -, hmem⟩
        rw [(grownCapacity_eq_iff hsize).mpr hmod]
        exact ⟨hmod, hmem hcap⟩
      · rintro ⟨hmod, hmem⟩
        rw [(grownCapacity_eq_iff hsize).mpr hmod] at hmem
        exact ⟨by omega, hmod, BitVec.le_of_lt hcap, fun _ => hmem⟩
    rw [hfills]
    by_cases hnull : (s.malloc S (grownCapacity size)).1 = NULL
    · rw [ramfsWriteFile_noMemory hfoc hreg.2 (expandBuffer_noMemory hcap hnull)]
      refine ⟨[.malloc (grownCapacity size) (s.malloc S (grownCapacity size)).1], rfl, ?_⟩
      simp [RamFsEvent.InBounds, hnull]
    · rw [ramfsWriteFile_file hfoc hreg.2 (expandBuffer_grown hcap hnull)]
      obtain ⟨es, hes, hin⟩ := fillFile_events (s.grown S i size) i data size
      obtain ⟨es', hes', hin'⟩ := grown_events (s := s) (i := i) S size (by omega)
      have hgrown : ((s.grown S i size).file i).capacity = grownCapacity size := by
        rw [Shell.file, Shell.grown_files, Function.update_self]
      refine ⟨es ++ es', by rw [hes, hes', List.append_assoc], ?_⟩
      rw [List.forall_mem_append, and_iff_left hin', hin, hgrown]
      have hne := (grownCapacity_eq_iff hsize).not
      rw [← BitVec.toNat_inj] at hne
      simp only [ne_eq, hnull, not_false_eq_true, and_true]
      omega
  · rw [ramfsWriteFile_file hfoc hreg.2 (expandBuffer_enough hcap)]
    obtain ⟨es, hes, hin⟩ := fillFile_events s i data size
    refine ⟨es, hes, ?_⟩
    rw [hin]
    have hcap' := mt BitVec.lt_def.mpr hcap
    constructor
    · rintro ⟨hle, hlt⟩ ⟨hpos, -, hge, -⟩
      have := BitVec.le_def.mp hge
      have := hlt hpos
      omega
    · intro hnot
      refine ⟨by omega, fun hpos => ?_⟩
      by_contra hge
      exact hnot ⟨hpos, by rw [show size.toNat = (s.file i).capacity.toNat by omega]; exact hmod,
        BitVec.le_def.mpr (by omega), fun h => absurd h hcap⟩

/-- **The stores of a write** in a state that commands reach lie inside the buffers they are made
through, exactly when the write does not fill the buffer of its file to the last byte. -/
theorem Shell.write_inBounds_iff {cs : List RamFsCall} (hs : s.Started)
    (hrun : Run (Shell.step S) (fun _ c => c.Bounded) s cs s') (name : CString)
    (data : ℕ → Byte) (hsize : size.toNat ≤ MAX_FILE_SIZE) :
    ∃ es, (ramfsWriteFile S name data size s').2.trace = es ++ s'.trace ∧
      ((∀ e ∈ es, e.InBounds) ↔ ¬s'.Fills S name size) := by
  obtain ⟨hcaps, hinit⟩ := Shell.run_capsOk hs hrun
  rw [Shell.Fills]
  cases hfind : ramfsFindFile name s'.ramfs.currentDir s'.ramfs with
  | some i =>
      have huse := (entry_of_find hfind).1
      have hfoc : findOrCreate S name s' = (.ok i, s') := by rw [findOrCreate, hfind]
      by_cases hreg : (s'.file i).isDirectory = 0#32
      · obtain ⟨es, hes, hin⟩ := ramfsWriteFile_events hfoc hcaps ⟨huse, hreg⟩ hsize data
        refine ⟨es, hes, ?_⟩
        rw [hin]
        simp only [hreg, true_and]
      · rw [ramfsWriteFile_directory hfoc hreg]
        exact ⟨[], rfl, by simp [hreg]⟩
  | none =>
      have hfoc : findOrCreate S name s' = ramfsCreate S name 0#32 s' := by
        rw [findOrCreate, hfind]
      cases hslot : ramfsFindFreeSlot s'.ramfs with
      | none =>
          rw [ramfsCreate_full hinit hfind hslot] at hfoc
          rw [ramfsWriteFile_error hfoc]
          exact ⟨[], rfl, by simp [Shell.Creates, hslot]⟩
      | some slot =>
          by_cases hnull : (s'.malloc S 256#32).1 = NULL
          · rw [ramfsCreate_noMemory hinit hfind hslot hnull] at hfoc
            rw [ramfsWriteFile_error hfoc]
            have hnull' : (S.sysMalloc 256#32 s'.heap s'.mem).1 = NULL := hnull
            exact ⟨[.malloc 256#32 (s'.malloc S 256#32).1], rfl,
              by simp [Shell.Creates, hnull', RamFsEvent.InBounds]⟩
          · have hcreates : s'.Creates S name 0#32 := ⟨hfind, ⟨slot, hslot⟩, fun _ => hnull⟩
            rw [ramfsCreate_file hinit hfind hslot hnull] at hfoc
            have hact := Action.createFile (G := .bounded) name slot trivial hfind
              (free_of_findFreeSlot hslot) hnull
            have hcaps' := hact.capsOk (fun _ => id) hcaps
            obtain ⟨es, hes, hin⟩ := ramfsWriteFile_events hfoc hcaps'
              (by simp [RamFs.Regular, Shell.link, newFile]) hsize data
            refine ⟨es ++ [.created slot name s'.ramfs.currentDir,
              .store (s'.malloc S 256#32).1 256#32 0 1,
              .malloc 256#32 (s'.malloc S 256#32).1], ?_, ?_⟩
            · rw [hes, List.append_assoc]
              rfl
            · rw [List.forall_mem_append, hin]
              simp only [hcreates, true_and]
              simp [RamFsEvent.InBounds, Shell.file, Shell.link, newFile, Shell.storeNul,
                Shell.malloc]

/-- A write of 3 bytes to a new file. -/
theorem Shell.write_inBounds_three :
    ∃ es, (ramfsWriteFile bumpCalls dotDot (fun _ => 65#8) 3#32 bumpShell).2.trace
        = es ++ bumpShell.trace ∧
      ((∀ e ∈ es, e.InBounds) ↔ ¬bumpShell.Fills bumpCalls dotDot 3#32) :=
  Shell.write_inBounds_iff bumpShell_started (.nil _) dotDot _ (by decide)

/-- The system calls over the kernel's heap, whose statics are `heap_start` and
`heap_initialized`. -/
def kernelCalls : SysCalls (Addr × Bool) where
  sysMalloc size h m :=
    match sysHandlerMalloc size ⟨m, h.1, h.2⟩ with
    | some (p, k) => (p, (k.heapStart, k.heapInitialized), k.mem)
    | none => (NULL, h, m)
  sysFree ptr h m :=
    match sysHandlerFree ptr ⟨m, h.1, h.2⟩ with
    | some (_, k) => ((k.heapStart, k.heapInitialized), k.mem)
    | none => (h, m)

/-- The file system set up over the kernel's heap. -/
def kernelShell : Shell (Addr × Bool) := ⟨RamFs.initial, (NULL, false), fun _ => 0#8, []⟩

/-- The free block behind the first buffer has 0xFFEE8 bytes.  Writing 256 bytes to a new file
stores the NUL over the low byte of its header's size. -/
theorem write_fills_buffer :
    kernelShell.Started ∧
      let s := (kernelShell.malloc kernelCalls 256#32).2
      let s' := (ramfsWriteFile kernelCalls dotDot (fun _ => 65#8) 256#32 kernelShell).2
      (∃ e ∈ s'.trace, ¬e.InBounds) ∧
        blockSize s.mem 0x40010C#32 = 0xFFEE8#32 ∧ blockSize s'.mem 0x40010C#32 = 0xFFE00#32 := by
  refine ⟨⟨⟨{ RamFs.initial with initialized := false }, (NULL, false), fun _ => 0#8, []⟩, rfl,
    rfl, rfl⟩, ?_⟩
  decide +kernel

end InBounds

/-! ### The blocks held -/

/-- The block of the given size was returned by a request of the trace, and has not been
released since. -/
def LiveBlock : List RamFsEvent → Addr → Word → Prop
  | [], _, _ => False
  | .malloc n q :: t, p, m => q ≠ NULL ∧ q = p ∧ n = m ∨ LiveBlock t p m
  | .free q :: t, p, m => q ≠ p ∧ LiveBlock t p m
  | .store _ _ _ _ :: t, p, m => LiveBlock t p m
  | .created _ _ _ :: t, p, m => LiveBlock t p m
  | .deleted _ :: t, p, m => LiveBlock t p m

/-- A block at the address is live. -/
def LiveAt (t : List RamFsEvent) (p : Addr) : Prop := ∃ m, LiveBlock t p m

/-- Every request returned NULL or a block that was not live. -/
def FreshMallocs : List RamFsEvent → Prop
  | [] => True
  | .malloc _ p :: t => ¬LiveAt t p ∧ FreshMallocs t
  | .free _ :: t => FreshMallocs t
  | .store _ _ _ _ :: t => FreshMallocs t
  | .created _ _ _ :: t => FreshMallocs t
  | .deleted _ :: t => FreshMallocs t

/-- Every release was of a live block. -/
def FreesLiveBlocks : List RamFsEvent → Prop
  | [] => True
  | .free p :: t => LiveAt t p ∧ FreesLiveBlocks t
  | .malloc _ _ :: t => FreesLiveBlocks t
  | .store _ _ _ _ :: t => FreesLiveBlocks t
  | .created _ _ _ :: t => FreesLiveBlocks t
  | .deleted _ :: t => FreesLiveBlocks t

instance decidableLiveAt (t : List RamFsEvent) (p : Addr) : Decidable (LiveAt t p) := by
  induction t with
  | nil => exact isFalse fun ⟨_, h⟩ => h
  | cons e t ih =>
      cases e with
      | malloc n q =>
          refine decidable_of_iff (q ≠ NULL ∧ q = p ∨ LiveAt t p) ⟨?_, ?_⟩
          · rintro (⟨hq, hp⟩ | ⟨m, h⟩)
            · exact ⟨n, Or.inl ⟨hq, hp, rfl⟩⟩
            · exact ⟨m, Or.inr h⟩
          · rintro ⟨m, ⟨hq, hp, -⟩ | h⟩
            · exact Or.inl ⟨hq, hp⟩
            · exact Or.inr ⟨m, h⟩
      | free q => exact decidable_of_iff (q ≠ p ∧ LiveAt t p) exists_and_left.symm
      | store => exact ih
      | created => exact ih
      | deleted => exact ih

instance decidableFreshMallocs (t : List RamFsEvent) : Decidable (FreshMallocs t) := by
  induction t with
  | nil => exact isTrue trivial
  | cons e t ih =>
      cases e with
      | malloc n p => exact inferInstanceAs (Decidable (¬LiveAt t p ∧ FreshMallocs t))
      | free => exact ih
      | store => exact ih
      | created => exact ih
      | deleted => exact ih

/-- The live blocks are the buffers of the regular files, one for each. -/
structure BlocksOk (s : Shell σ) : Prop where
  regular : ∀ i, s.ramfs.Regular i → LiveBlock s.trace (s.file i).data (s.file i).capacity
  others : ∀ i, ¬s.ramfs.Regular i → (s.file i).data = NULL
  inj : ∀ i j, s.ramfs.Regular i → s.ramfs.Regular j → (s.file i).data = (s.file j).data → i = j
  live : ∀ p m, LiveBlock s.trace p m → ∃ i, s.ramfs.Regular i ∧ (s.file i).data = p
  frees : FreesLiveBlocks s.trace

section Blocks

variable {S : SysCalls σ} {G : Scope} {s s' : Shell σ} {i : Fin 64}

/-- The null pointer is no block. -/
lemma LiveBlock.ne_null {t : List RamFsEvent} {p : Addr} {m : Word} (h : LiveBlock t p m) :
    p ≠ NULL := by
  induction t with
  | nil => exact absurd h id
  | cons e t ih =>
      cases e with
      | malloc n q =>
          rcases h with ⟨hq, rfl, -⟩ | h
          · exact hq
          · exact ih h
      | free q => exact ih h.2
      | store => exact ih h
      | created => exact ih h
      | deleted => exact ih h

lemma BlocksOk.data_ne_null (h : BlocksOk s) (hi : s.ramfs.Regular i) : (s.file i).data ≠ NULL :=
  (h.regular i hi).ne_null

/-- Blocks rest on the kinds and buffers of the files. -/
lemma BlocksOk.congr (h : BlocksOk s) (hlive : LiveBlock s'.trace = LiveBlock s.trace)
    (hfrees : FreesLiveBlocks s'.trace) (hreg : ∀ j, s'.ramfs.Regular j ↔ s.ramfs.Regular j)
    (hdata : ∀ j, (s'.file j).data = (s.file j).data ∧
      (s.ramfs.Regular j → (s'.file j).capacity = (s.file j).capacity)) : BlocksOk s' where
  regular j hj := by
    have hj := (hreg j).mp hj
    rw [hlive, (hdata j).1, (hdata j).2 hj]
    exact h.regular j hj
  others j hj := by
    rw [(hdata j).1]
    exact h.others j fun hr => hj ((hreg j).mpr hr)
  inj j k hj hk heq := by
    rw [(hdata j).1, (hdata k).1] at heq
    exact h.inj j k ((hreg j).mp hj) ((hreg k).mp hk) heq
  live p m hp := by
    rw [hlive] at hp
    obtain ⟨j, hj, hd⟩ := h.live p m hp
    exact ⟨j, (hreg j).mpr hj, (hdata j).1.trans hd⟩
  frees := hfrees

/-- A slot that held no regular file gets the file `f`. -/
lemma BlocksOk.place (h : BlocksOk s) {f : RamFile} (hi : ¬s.ramfs.Regular i)
    (hfiles : s'.ramfs.files = Function.update s.ramfs.files i f)
    (hfrees : FreesLiveBlocks s'.trace)
    (hf : (f.inUse = true ∧ f.isDirectory = 0#32 ∧ ¬LiveAt s.trace f.data ∧
        ∀ p m, LiveBlock s'.trace p m ↔ f.data = p ∧ f.capacity = m ∨ LiveBlock s.trace p m) ∨
      ¬(f.inUse = true ∧ f.isDirectory = 0#32) ∧ f.data = NULL ∧
        LiveBlock s'.trace = LiveBlock s.trace) : BlocksOk s' := by
  have hnew : s'.file i = f := by rw [Shell.file, hfiles, Function.update_self]
  have hold : ∀ j, j ≠ i → s'.file j = s.file j := fun j hj => by
    rw [Shell.file, hfiles, Function.update_of_ne hj]
  have hregi : s'.ramfs.Regular i ↔ f.inUse = true ∧ f.isDirectory = 0#32 := by
    rw [← hnew]
    rfl
  have hreg : ∀ j, j ≠ i → (s'.ramfs.Regular j ↔ s.ramfs.Regular j) := by
    intro j hj
    change (s'.file j).inUse = true ∧ (s'.file j).isDirectory = 0#32 ↔ _
    rw [hold j hj]
    rfl
  have hne : ∀ j, s.ramfs.Regular j → j ≠ i := fun j hj hji => hi (hji ▸ hj)
  rcases hf with ⟨huse, hdir, hfresh, hlive⟩ | ⟨hnot, hnull, hlive⟩
  · refine ⟨fun j hj => ?_, fun j hj => ?_, fun j k hj hk heq => ?_, fun p m hp => ?_, hfrees⟩
    · rw [hlive]
      by_cases hji : j = i
      · rw [hji, hnew]
        exact Or.inl ⟨rfl, rfl⟩
      · rw [hold j hji]
        exact Or.inr (h.regular j ((hreg j hji).mp hj))
    · by_cases hji : j = i
      · rw [hji] at hj
        exact absurd (hregi.mpr ⟨huse, hdir⟩) hj
      · rw [hold j hji]
        exact h.others j fun hr => hj ((hreg j hji).mpr hr)
    · by_cases hji : j = i <;> by_cases hki : k = i
      · rw [hji, hki]
      · rw [hji, hnew, hold k hki] at heq
        have hlk := h.regular k ((hreg k hki).mp hk)
        rw [← heq] at hlk
        exact absurd ⟨_, hlk⟩ hfresh
      · rw [hki, hnew, hold j hji] at heq
        have hlj := h.regular j ((hreg j hji).mp hj)
        rw [heq] at hlj
        exact absurd ⟨_, hlj⟩ hfresh
      · rw [hold j hji, hold k hki] at heq
        exact h.inj j k ((hreg j hji).mp hj) ((hreg k hki).mp hk) heq
    · rcases (hlive p m).mp hp with ⟨hd, -⟩ | hp
      · exact ⟨i, hregi.mpr ⟨huse, hdir⟩, by rw [hnew, hd]⟩
      · obtain ⟨j, hj, hd⟩ := h.live p m hp
        exact ⟨j, (hreg j (hne j hj)).mpr hj, by rw [hold j (hne j hj), hd]⟩
  · have hnotreg : ¬s'.ramfs.Regular i := fun hr => hnot (hregi.mp hr)
    refine h.congr hlive hfrees (fun j => ?_) fun j => ?_ <;> by_cases hji : j = i
    · rw [hji]
      exact ⟨fun hr => absurd hr hnotreg, fun hr => absurd hr hi⟩
    · exact hreg j hji
    · rw [hji, hnew, hnull, h.others i hi]
      exact ⟨rfl, fun hr => absurd hr hi⟩
    · rw [hold j hji]
      exact ⟨rfl, fun _ => rfl⟩

/-- A slot that held a regular file holds none, and its block is released. -/
lemma BlocksOk.remove (h : BlocksOk s) {f : RamFile} (hi : s.ramfs.Regular i)
    (hfiles : s'.ramfs.files = Function.update s.ramfs.files i f) (hf : f.inUse = false)
    (hnull : f.data = NULL)
    (hlive : ∀ p m, LiveBlock s'.trace p m ↔ (s.file i).data ≠ p ∧ LiveBlock s.trace p m)
    (hfrees : FreesLiveBlocks s'.trace) : BlocksOk s' := by
  have hnew : s'.file i = f := by rw [Shell.file, hfiles, Function.update_self]
  have hold : ∀ j, j ≠ i → s'.file j = s.file j := fun j hj => by
    rw [Shell.file, hfiles, Function.update_of_ne hj]
  have hreg : ∀ j, s'.ramfs.Regular j ↔ j ≠ i ∧ s.ramfs.Regular j := by
    intro j
    change (s'.file j).inUse = true ∧ (s'.file j).isDirectory = 0#32 ↔ _
    by_cases hj : j = i
    · rw [hj, hnew, hf]
      simp
    · rw [hold j hj]
      exact (and_iff_right hj).symm
  refine ⟨fun j hj => ?_, fun j hj => ?_, fun j k hj hk heq => ?_, fun p m hp => ?_, hfrees⟩
  · obtain ⟨hji, hj⟩ := (hreg j).mp hj
    rw [hold j hji, hlive]
    exact ⟨fun heq => hji (h.inj i j hi hj heq).symm, h.regular j hj⟩
  · by_cases hji : j = i
    · rw [hji, hnew, hnull]
    · rw [hold j hji]
      exact h.others j fun hr => hj ((hreg j).mpr ⟨hji, hr⟩)
  · obtain ⟨hji, hj⟩ := (hreg j).mp hj
    obtain ⟨hki, hk⟩ := (hreg k).mp hk
    rw [hold j hji, hold k hki] at heq
    exact h.inj j k hj hk heq
  · obtain ⟨hne, hp⟩ := (hlive p m).mp hp
    obtain ⟨j, hj, hd⟩ := h.live p m hp
    have hji : j ≠ i := fun hji => hne (hji ▸ hd)
    exact ⟨j, (hreg j).mpr ⟨hji, hj⟩, by rw [hold j hji, hd]⟩

lemma liveBlock_fillFile (data : ℕ → Byte) (size : Word) :
    LiveBlock (fillFile i data size s).trace = LiveBlock s.trace := by
  rw [fillFile]
  split <;> rfl

lemma freesLiveBlocks_fillFile (data : ℕ → Byte) (size : Word) :
    FreesLiveBlocks (fillFile i data size s).trace = FreesLiveBlocks s.trace := by
  rw [fillFile]
  split <;> rfl

/-- A trace that grows has had fresh blocks before. -/
lemma Action.freshMallocs (h : Action S G s s') (hf : FreshMallocs s'.trace) :
    FreshMallocs s.trace := by
  cases h with
  | noMemory size hnull => exact hf.2
  | createFile => exact hf.2
  | delete i hmay huse hparent hempty =>
      have hrelease : FreshMallocs (s.release S i).trace = FreshMallocs s.trace := by
        rw [Shell.release]
        split <;> rfl
      exact hrelease ▸ hf
  | grow i size hmay hsized huse hreg hcap hmem =>
      rw [Shell.grown] at hf
      split at hf <;> exact hf.2
  | fill i data size hmay hsized huse hreg hsize =>
      rw [fillFile] at hf
      split at hf <;> exact hf
  | scratch => exact hf
  | createDirectory => exact hf
  | chdir => exact hf

/-- The block of a file moves to its new buffer. -/
lemma BlocksOk.grown (hs : BlocksOk s) {size : Word} (hreg : s.ramfs.Regular i)
    (hmem : (s.malloc S (grownCapacity size)).1 ≠ NULL)
    (hfresh : FreshMallocs (s.grown S i size).trace) : BlocksOk (s.grown S i size) := by
  have hlive := hs.regular i hreg
  have hne := hs.data_ne_null hreg
  -- the state between the release of the old buffer and the arrival of the new one
  let t : Shell σ := { s with
    ramfs := { s.ramfs with files := Function.update s.ramfs.files i RamFile.zero }
    trace := .free (s.file i).data :: s.trace }
  have ht : BlocksOk t :=
    hs.remove hreg rfl rfl rfl (fun _ _ => Iff.rfl) ⟨⟨_, hlive⟩, hs.frees⟩
  have hnot : ¬t.ramfs.Regular i := fun hr => by
    have := hr.1
    simp [t, RamFile.zero] at this
  have htrace : (s.grown S i size).trace = .free (s.file i).data ::
      .store (s.malloc S (grownCapacity size)).1 (grownCapacity size) 0 (s.file i).size.toNat ::
      .malloc (grownCapacity size) (s.malloc S (grownCapacity size)).1 :: s.trace := by
    simp only [Shell.grown, if_neg hne]
    rfl
  rw [htrace] at hfresh
  have hfresh := hfresh.1
  have hold : (s.file i).data ≠ (s.malloc S (grownCapacity size)).1 := fun heq =>
    hfresh ⟨_, heq ▸ hlive⟩
  have hfiles : (s.grown S i size).ramfs.files = Function.update t.ramfs.files i
      { s.file i with
        data := (s.malloc S (grownCapacity size)).1, capacity := grownCapacity size } := by
    rw [Shell.grown_files]
    simp [t]
  refine ht.place hnot hfiles ?_
    (Or.inl ⟨hreg.1, hreg.2, fun hold => hfresh (hold.imp fun _ hm => hm.2), fun p m => ?_⟩)
  · rw [htrace]
    exact ⟨⟨_, Or.inr hlive⟩, hs.frees⟩
  · rw [htrace]
    change (s.file i).data ≠ p ∧ (_ ∧ _ ∧ _ ∨ LiveBlock s.trace p m) ↔
      _ ∨ (s.file i).data ≠ p ∧ LiveBlock s.trace p m
    constructor
    · rintro ⟨hp, ⟨-, hd⟩ | hm⟩
      · exact Or.inl hd
      · exact Or.inr ⟨hp, hm⟩
    · rintro (hd | ⟨hp, hm⟩)
      · exact ⟨fun hp => hold (hp.trans hd.1.symm), Or.inl ⟨hmem, hd⟩⟩
      · exact ⟨hp, Or.inr hm⟩

/-- Bytes stored in a file do not move its block. -/
lemma BlocksOk.filled (hs : BlocksOk s) (data : ℕ → Byte) (size : Word) :
    BlocksOk (fillFile i data size s) := by
  have hfile : ∀ j, (fillFile i data size s).file j =
      if j = i then { s.file i with size := size } else s.file j := by
    intro j
    rw [Shell.file, fillFile_files, Function.update_apply]
  refine hs.congr (liveBlock_fillFile data size) ?_ (fun j => ?_) fun j => ?_
  · rw [freesLiveBlocks_fillFile]
    exact hs.frees
  · change ((fillFile i data size s).file j).inUse = true ∧
      ((fillFile i data size s).file j).isDirectory = 0#32 ↔ _
    rw [hfile]
    split_ifs with hj
    · rw [hj]
      rfl
    · rfl
  · rw [hfile]
    split_ifs with hj
    · rw [hj]
      exact ⟨rfl, fun _ => rfl⟩
    · exact ⟨rfl, fun _ => rfl⟩

/-- **Ownership moves with every action**: if requests return no live block, the buffers of the
regular files stay the live blocks. -/
lemma Action.blocksOk (h : Action S G s s') (hs : BlocksOk s) (hfresh : FreshMallocs s'.trace) :
    BlocksOk s' := by
  cases h with
  | noMemory size hnull =>
      refine hs.congr (funext₂ fun p m => propext ?_) hs.frees (fun _ => Iff.rfl)
        fun _ => ⟨rfl, fun _ => rfl⟩
      exact or_iff_right fun hp => hp.1 hnull
  | scratch slot f hfree hf hdata =>
      have hi : ¬s.ramfs.Regular slot := fun hr => Bool.false_ne_true (hfree.symm.trans hr.1)
      refine hs.place hi rfl hs.frees (Or.inr ⟨fun hr => ?_, hdata, rfl⟩)
      exact Bool.false_ne_true (hf.symm.trans hr.1)
  | createFile name slot hname hfind hfree hmem =>
      have hi : ¬s.ramfs.Regular slot := fun hr => Bool.false_ne_true (hfree.symm.trans hr.1)
      refine hs.place hi rfl hs.frees (Or.inl ⟨rfl, rfl, hfresh.1, fun p m => ?_⟩)
      exact or_congr_left (and_iff_right hmem)
  | createDirectory name slot isDirectory hname hfind hfree hdir =>
      have hi : ¬s.ramfs.Regular slot := fun hr => Bool.false_ne_true (hfree.symm.trans hr.1)
      exact hs.place hi rfl hs.frees (Or.inr ⟨fun hr => hdir hr.2, rfl, rfl⟩)
  | delete i hmay huse hparent hempty =>
      have hfiles : ((s.release S i).unlink i).ramfs.files
          = Function.update s.ramfs.files i RamFile.zero := by
        rw [Shell.unlink, Shell.release_ramfs]
      by_cases hreg : s.ramfs.Regular i
      · -- the file's block is live, and it is released
        have hfree : s.release S i = s.free S (s.file i).data := if_neg (hs.data_ne_null hreg)
        rw [hfree] at hfiles ⊢
        exact hs.remove hreg hfiles rfl rfl (fun _ _ => Iff.rfl) ⟨⟨_, hs.regular i hreg⟩, hs.frees⟩
      · have hkeep : s.release S i = s := if_pos (hs.others i hreg)
        rw [hkeep] at hfiles ⊢
        exact hs.place hreg hfiles hs.frees (Or.inr ⟨by decide, rfl, rfl⟩)
  | grow i size hmay hsized huse hreg hcap hmem => exact hs.grown ⟨huse, hreg⟩ hmem hfresh
  | fill i data size hmay hsized huse hreg hsize => exact hs.filled data size
  | chdir dir hdir =>
      exact hs.congr rfl hs.frees (fun _ => Iff.rfl) fun _ => ⟨rfl, fun _ => rfl⟩

/-- `ramfs_init` holds no block. -/
lemma Shell.Started.blocksOk (h : s.Started) : BlocksOk s := by
  have hnone : ∀ i, ¬s.ramfs.Regular i := by
    rintro i ⟨huse, hreg⟩
    rw [h.ramfs_eq] at huse hreg
    by_cases hi : i = 0
    · subst hi
      exact absurd hreg (by decide)
    · simp [RamFs.initial, hi, RamFile.zero] at huse
  refine ⟨fun i hi => absurd hi (hnone i), fun i _ => ?_, fun i _ hi => absurd hi (hnone i), ?_, ?_⟩
  · rw [Shell.file, h.ramfs_eq]
    by_cases hi : i = 0
    · subst hi
      rfl
    · simp [RamFs.initial, hi, RamFile.zero]
  · intro p m hp
    rw [h.trace_eq] at hp
    exact absurd hp id
  · rw [h.trace_eq]
    trivial

/-- **The blocks held** after every run in which requests return no live block: they are the
buffers of the regular files, one for each and of its capacity; nothing else holds one, and
every release was of a live block. -/
theorem Shell.run_blocks {ok : Shell σ → RamFsCall → Prop} {cs : List RamFsCall}
    (hs : s.Started) (hrun : Run (Shell.step S) ok s cs s') (hfresh : FreshMallocs s'.trace) :
    Set.BijOn (fun i => (s'.file i).data) {i | s'.ramfs.Regular i}
        {p | LiveAt s'.trace p} ∧
      (∀ i, s'.ramfs.Regular i → ∃ m, LiveBlock s'.trace (s'.file i).data m ∧
        (s'.file i).capacity ≤ m) ∧
      (∀ i, ¬s'.ramfs.Regular i → (s'.file i).data = NULL) ∧
      FreesLiveBlocks s'.trace := by
  have h : BlocksOk s' := by
    refine (Shell.run_invariant (G := .all) (P := fun u => FreshMallocs u.trace → BlocksOk u)
      (fun u c _ _ => u.permits_all c) (fun u u' hu h hf => ?_) hrun hs.initialized ?_).1 hfresh
    · exact h.blocksOk (hu (h.freshMallocs hf)) hf
    · exact fun _ => hs.blocksOk
  refine ⟨⟨fun i hi => ⟨_, h.regular i hi⟩, fun i hi j hj heq => h.inj i j hi hj heq, ?_⟩,
    fun i hi => ⟨_, h.regular i hi, BitVec.le_refl _⟩, h.others, h.frees⟩
  rintro p ⟨m, hp⟩
  obtain ⟨i, hi, hd⟩ := h.live p m hp
  exact ⟨i, hi, hd⟩

/-- A run that writes a file, lets it grow and deletes it. -/
theorem Shell.run_blocks_bump :
    ∃ s', Run (Shell.step bumpCalls) (fun _ _ => True) bumpShell
        [.write dotDot (fun _ => 65#8) 300#32, .delete dotDot] s' ∧
      FreesLiveBlocks s'.trace := by
  have hrun : Run (Shell.step bumpCalls) (fun _ _ => True) bumpShell
      [.write dotDot (fun _ => 65#8) 300#32, .delete dotDot] _ :=
    .cons trivial rfl (.cons trivial rfl (.nil _))
  exact ⟨_, hrun, (Shell.run_blocks bumpShell_started hrun (by decide +kernel)).2.2.2⟩

end Blocks

end MiqOSoft
