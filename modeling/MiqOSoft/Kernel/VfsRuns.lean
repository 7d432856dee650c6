import MiqOSoft.Kernel.VfsHandlers
import MiqOSoft.Transition.Run

/-!
Runs of the file system: any interleaving of open, read, write and close with requests,
releases and stores of other clients of the heap.

* `FsWorld`: the kernel together with the pointers that the other clients own.
* `FsWorld.Tame`: what a call must respect so that memory is not corrupted: paths are shorter
  than the name field, reads deliver to memory of the caller, the store of a write stays in
  the buffer, the other clients use their own memory only.
* `FsRun.inv`: the invariant holds in every state of such a run.
* `vfs_tables`: the tables are in order, and a file created or grown lies in a block of its own.
* `frees_live_iff`: every pointer that is released is live, exactly as long as no file grows
  off its literal.
-/

namespace MiqOSoft

open Machine Tiling Transition

/-! ### The system -/

/-- A call of a client, or a store to its memory. -/
inductive Call
  | sysOpen (path : Option CString) (flags : Word)
  | sysRead (fd : Word) (buffer : Addr) (count : Word)
  | sysWrite (fd : Word) (buffer : Addr) (count : Word)
  | sysClose (fd : Word)
  | sysMalloc (size : Word)
  | sysFree (ptr : Addr)
  | store (a : Addr) (b : Byte)

/-- The result of a call and the kernel after it; `none` if it does not return or runs off the
file table. -/
def Kernel.exec (L : Rodata) (k : Kernel) : Call → Option (Word × Kernel)
  | .sysOpen path flags => sysHandlerOpen L path flags k
  | .sysRead fd buffer count => some (sysHandlerRead fd buffer count k)
  | .sysWrite fd buffer count => sysHandlerWrite fd buffer count k
  | .sysClose fd => some (sysHandlerClose fd k)
  | .sysMalloc size => k.malloc size
  | .sysFree ptr => k.free ptr
  | .store a b =>
      some (SYSCALL_OK, { k with heap := { k.heap with mem := Function.update k.mem a b } })

/-- The kernel, and the pointers that clients other than the file system own. -/
structure FsWorld where
  kernel : Kernel
  owned : List Addr

namespace FsWorld

/-- The state after `syscall_initialize`. -/
def boot (L : Rodata) (k : Kernel) : FsWorld := ⟨syscallInitialize L k, []⟩

/-- One call. -/
def step (L : Rodata) (w : FsWorld) (c : Call) : Option FsWorld :=
  (w.kernel.exec L c).map fun r =>
    ⟨r.2, match c with
      | .sysMalloc _ => if r.1 = NULL then w.owned else r.1 :: w.owned
      | .sysFree ptr => w.owned.erase ptr
      | _ => w.owned⟩

end FsWorld

/-- The address belongs to a caller: it lies outside the heap and the two literals, or in a used
block that holds no file.  The kernel's tables are no memory of the model. -/
def CallerOwned (L : Rodata) (k : Kernel) (a : Addr) : Prop :=
  (a ∉ span HEAP_START 0x100000 ∧ a ∉ span L.welcome 53 ∧ a ∉ span L.info 62) ∨
    ∃ bs, k.heap.blocks = some bs ∧ ∃ b ∈ bs, b.isFree = 0#32 ∧ a ∈ span b.payload b.size.toNat
      ∧ ∀ i, (k.virtualFiles i).inUse ≠ 0#32 → (k.virtualFiles i).data ≠ b.payload

/-- The calls that corrupt no memory.  A write is allowed to wrap around as long as the bytes
it stores fit the file's buffer. -/
def FsWorld.Tame (L : Rodata) (w : FsWorld) : Call → Prop
  | .sysOpen path _ => ∀ s, path = some s → s.chars.length < 64
  | .sysRead fd buffer count => ∀ d i, FdOn w.kernel fd d i → ∀ a ∈ span buffer
      ((toRead (w.kernel.virtualFiles i) (w.kernel.fileDescriptors d).position count).toNat
        % 65536), CallerOwned L w.kernel a
  | .sysWrite fd _ count => ∀ d i, FdOn w.kernel fd d i →
      hasFlag (w.kernel.fileDescriptors d).flags OPEN_WRITE = true →
        (w.kernel.fileDescriptors d).position.toNat + count.toNat < 2 ^ 32
          ∨ (w.kernel.fileDescriptors d).position.toNat + count.toNat % 65536
            ≤ (w.kernel.virtualFiles i).capacity.toNat
  | .sysFree ptr => ptr ∈ w.owned
  | .store a _ => CallerOwned L w.kernel a
  | .sysClose _ => True
  | .sysMalloc _ => True

/-- A kernel before `syscall_initialize`. -/
structure Kernel.Cold (k : Kernel) : Prop where
  heap : k.heap.heapInitialized = false
  fs : k.fsInitialized = false
  trace : k.trace = []

/-- The calls `cs`, after `syscall_initialize`, lead to `w`. -/
abbrev FsRun (L : Rodata) (k : Kernel) (cs : List Call) (w : FsWorld) : Prop :=
  Run (FsWorld.step L) (FsWorld.Tame L) (FsWorld.boot L k) cs w

/-! ### The invariant along runs -/

section Steps

variable {L : Rodata} {k : Kernel} {owned : List Addr} {l : List Seg} {a : Addr} {i : Fin 32}

/-- What a caller owns in terms of the used blocks. -/
lemma CallerOwned.cases (hk : Inv L k owned l) (ha : CallerOwned L k a) :
    (a ∉ span HEAP_START 0x100000 ∧ a ∉ span L.welcome 53 ∧ a ∉ span L.info 62) ∨
      ∃ p n, UsedBlock l p n ∧ a ∈ span p n
        ∧ ∀ i, (k.virtualFiles i).inUse ≠ 0#32 → (k.virtualFiles i).data ≠ p := by
  refine ha.imp_right ?_
  rintro ⟨bs, hbs, b, hb, hfree, hmem, hdata⟩
  exact ⟨b.payload, b.size.toNat,
    (usedBlock_iff hk.models).mpr ⟨bs, hbs, b, hb, hfree, rfl, rfl⟩, hmem, hdata⟩

lemma CallerOwned.clientByte (hk : Inv L k owned l) (ha : CallerOwned L k a) : ClientByte l a := by
  rcases ha.cases hk with ⟨hout, -, -⟩ | ⟨p, n, hp, hmem, -⟩
  · exact Or.inl hout
  · exact Or.inr ⟨p, n, hp, hmem⟩

/-- A caller's memory is apart from every file. -/
lemma CallerOwned.notMem_file (hk : Inv L k owned l) (ha : CallerOwned L k a)
    (hi : (k.virtualFiles i).inUse ≠ 0#32) :
    a ∉ span (k.virtualFiles i).data (k.virtualFiles i).capacity.toNat := by
  intro hmem
  have hbi := (hk.tables.backed i hi).bounds hk.models
  rcases ha.cases hk with ⟨hout, hw, hin⟩ | ⟨p, n, hp, hpa, hdata⟩
  · rcases hk.tables.backed i hi with ⟨-, hdata, hcap⟩ | ⟨-, hdata, hcap⟩ | ⟨m, hdata, hcap⟩
    · rw [hdata, hcap] at hmem
      exact hw (span_mono (by decide) hmem)
    · rw [hdata, hcap] at hmem
      exact hin (span_mono (by decide) hmem)
    · have hb := hdata.bounds hk.models
      rw [mem_span_iff (by omega)] at hmem
      rw [mem_span_iff (by decide)] at hout
      simp only [HEAP_START, BitVec.reduceToNat] at hout
      omega
  · have hpb := hp.bounds hk.models
    rcases hk.tables.backed i hi with ⟨-, heq, hcap⟩ | ⟨-, heq, hcap⟩ | ⟨m, hm, hcap⟩
    · have hL := L.welcome_bounds
      rw [mem_span_iff (by omega)] at hmem hpa
      rw [heq, hcap, welcomeText_strlen] at hmem
      simp only [BitVec.reduceToNat] at hmem
      omega
    · have hL := L.info_bounds
      rw [mem_span_iff (by omega)] at hmem hpa
      rw [heq, hcap, infoText_strlen] at hmem
      simp only [BitVec.reduceToNat] at hmem
      omega
    · exact Set.disjoint_left.mp (hm.disjoint hk.models hp (hdata i hi)) (span_mono hcap hmem) hpa

end Steps

namespace FsWorld

variable {L : Rodata} {w w' : FsWorld} {c : Call}

/-- The invariant of a state of the system. -/
def Sound (L : Rodata) (w : FsWorld) : Prop := ∃ l, Inv L w.kernel w.owned l

lemma boot_sound {k : Kernel} (hk : k.Cold) : (boot L k).Sound L :=
  ⟨_, inv_syscallInitialize hk.heap hk.fs hk.trace⟩

/-- **One step**: a tame call returns, and leaves a sound state. -/
theorem step_sound (hw : w.Sound L) (hc : w.Tame L c) :
    ∃ w', step L w c = some w' ∧ w'.Sound L := by
  obtain ⟨l, hk⟩ := hw
  cases c with
  | sysOpen path flags =>
      cases path with
      | none => exact ⟨w, rfl, l, hk⟩
      | some s =>
          obtain ⟨r, k', l', hr, hinv⟩ := sysHandlerOpen_inv hk (hc s rfl)
          exact ⟨⟨k', w.owned⟩, by rw [step, Kernel.exec, hr]; rfl, l', hinv⟩
  | sysRead fd buffer count =>
      exact ⟨_, rfl, l, sysHandlerRead_inv hk fun d i hon y hy => (hc d i hon y hy).clientByte hk⟩
  | sysWrite fd buffer count =>
      obtain ⟨r, k', l', hr, hinv⟩ := sysHandlerWrite_inv hk hc
      exact ⟨⟨k', w.owned⟩, by rw [step, Kernel.exec, hr]; rfl, l', hinv⟩
  | sysClose fd => exact ⟨_, rfl, l, sysHandlerClose_inv hk⟩
  | sysMalloc n =>
      obtain ⟨p, h, l', hm, -, hout⟩ := hk.malloc n
      refine ⟨_, by rw [step, Kernel.exec, hm]; rfl, l', ?_⟩
      dsimp only
      rcases hout with ⟨hp, -, -, -, hinv⟩ | ⟨hp, -, -, -, -, -, hinv⟩
      · rw [if_pos hp]
        exact hinv
      · rw [if_neg hp]
        exact hinv
  | sysFree p =>
      obtain ⟨h, l', hf, -, -, hinv⟩ := hk.free hc
      exact ⟨_, by rw [step, Kernel.exec, hf]; rfl, l', hinv⟩
  | store a b => exact ⟨_, rfl, l, hk.store (hc.clientByte hk) b⟩

lemma sound_of_step (hw : w.Sound L) (hc : w.Tame L c) (hs : step L w c = some w') :
    w'.Sound L := by
  obtain ⟨u, hu, hsound⟩ := step_sound hw hc
  rw [hs] at hu
  exact Option.some.inj hu ▸ hsound

end FsWorld

/-- Every state of a run satisfies the invariant. -/
theorem FsRun.inv {L : Rodata} {k : Kernel} {cs : List Call} {w : FsWorld} (hk : k.Cold)
    (hrun : FsRun L k cs w) : ∃ l, Inv L w.kernel w.owned l :=
  Run.invariant (P := FsWorld.Sound L) (fun _ _ _ hw hc hs => FsWorld.sound_of_step hw hc hs) hrun
    (FsWorld.boot_sound hk)

/-! ### Short runs -/

/-- A kernel before its initialisation, over a memory of zeros. -/
def blankKernel : Kernel :=
  ⟨blankHeap, fun _ => VFile.zero, fun _ => FileDescriptor.zero, false, []⟩

lemma blankKernel_cold : blankKernel.Cold := ⟨rfl, rfl, rfl⟩

/-- Two literals in the kernel image. -/
def sampleRodata : Rodata := ⟨0x200000#32, 0x200100#32, by decide, by decide, by decide⟩

/-- The name of a file that is not installed. -/
def sampleName : CString := ⟨ascii "log.txt", by decide⟩

section Sample

variable {L : Rodata} {k : Kernel} {w : FsWorld} {c : Call} {cs : List Call}

/-- A tame call carries a run on. -/
lemma FsRun.next (hk : k.Cold) (hrun : FsRun L k cs w) (hc : w.Tame L c) :
    ∃ w', FsWorld.step L w c = some w' ∧ FsRun L k (cs ++ [c]) w' := by
  obtain ⟨w', hs, -⟩ := FsWorld.step_sound (hrun.inv hk) hc
  exact ⟨w', hs, hrun.snoc hc hs⟩

lemma FsRun.extend (hk : k.Cold) (hrun : FsRun L k cs w) (hc : w.Tame L c) :
    ∃ w', FsRun L k (cs ++ [c]) w' := by
  obtain ⟨w', -, hrun'⟩ := hrun.next hk hc
  exact ⟨w', hrun'⟩

/-- The state at the end of a run is found by evaluating the calls. -/
lemma FsRun.eval {β : Type*} (hrun : FsRun L k cs w) (f : FsWorld → β) {b : β}
    (h : (cs.foldlM (FsWorld.step L) (FsWorld.boot L k)).map f = some b) : f w = b := by
  rw [hrun.foldlM_eq] at h
  exact Option.some.inj h

/-- A descriptor at the end of a run, by evaluating the calls. -/
lemma FsRun.fdOn (hrun : FsRun L k cs w) {fd : Word} {d i : Fin 32} (hd : (d : ℕ) = fd.toNat)
    (h : (cs.foldlM (FsWorld.step L) (FsWorld.boot L k)).map (fun w =>
      ((w.kernel.fileDescriptors d).inUse, (w.kernel.fileDescriptors d).file))
      = some (1#32, some i)) : FdOn w.kernel fd d i := by
  have hdesc : ((w.kernel.fileDescriptors d).inUse, (w.kernel.fileDescriptors d).file)
      = (1#32, some i) := hrun.eval _ h
  obtain ⟨hin, hfile⟩ := Prod.mk.inj hdesc
  refine ⟨hd, ?_, hfile⟩
  rw [hin]
  decide

/-- Opening a file whose name fits the name field is tame. -/
lemma tame_open {path : CString} (flags : Word) (hlen : path.chars.length < 64) :
    w.Tame L (.sysOpen (some path) flags) := by
  rintro s ⟨⟩
  exact hlen

/-- The 64 KiB from `0x300000` on belong to the callers. -/
lemma callerOwned_sample {a : Addr} (ha : a ∈ span 0x300000#32 65536) :
    CallerOwned sampleRodata k a := by
  rw [mem_span_iff (by decide)] at ha
  refine Or.inl ⟨?_, ?_, ?_⟩ <;> rw [mem_span_iff (by decide)]
  · simp only [HEAP_START, BitVec.reduceToNat] at ha ⊢
    omega
  · simp only [sampleRodata, BitVec.reduceToNat] at ha ⊢
    omega
  · simp only [sampleRodata, BitVec.reduceToNat] at ha ⊢
    omega

/-- Reads to that memory are tame. -/
lemma tame_read_sample (fd count : Word) :
    w.Tame sampleRodata (.sysRead fd 0x300000#32 count) := by
  intro d i _ a ha
  exact callerOwned_sample (span_mono (Nat.le_of_lt (Nat.mod_lt _ (by decide))) ha)

/-- Writes of less than two gigabytes are tame. -/
lemma FsRun.tame_write (hrun : FsRun L k cs w) (fd count : Word) (buffer : Addr) (hk : k.Cold)
    (hc : count.toNat < 2 ^ 31) : w.Tame L (.sysWrite fd buffer count) := by
  obtain ⟨l, hinv⟩ := hrun.inv hk
  intro d i hon _
  obtain ⟨-, hi, hpos⟩ := hinv.fdOn hon
  have hb := (hinv.tables.backed i hi).bounds hinv.models
  exact Or.inl (by omega)

/-- A run that opens a file. -/
lemma exists_run_open {path : CString} (flags : Word) (hlen : path.chars.length < 64) :
    ∃ w, FsRun sampleRodata blankKernel [.sysOpen (some path) flags] w :=
  FsRun.extend blankKernel_cold (Run.nil _) (tame_open flags hlen)

/-- A run that creates a file, writes five bytes to it and closes it. -/
lemma exists_run_create : ∃ w, FsRun sampleRodata blankKernel
    [.sysOpen (some sampleName) 6#32, .sysWrite 3#32 0x300000#32 5#32, .sysClose 3#32] w := by
  obtain ⟨w₁, h₁⟩ := exists_run_open 6#32 (show sampleName.chars.length < 64 by decide)
  obtain ⟨w₂, h₂⟩ := h₁.extend blankKernel_cold
    (h₁.tame_write 3#32 5#32 0x300000#32 blankKernel_cold (by decide))
  exact h₂.extend (c := .sysClose 3#32) blankKernel_cold trivial

end Sample

/-! ### The tables are in order -/

/-- The file of entry `i` still lies where `vfs_init` installed it: it was neither created at run
time nor grown. -/
def AsInstalled (L : Rodata) (i : Fin 32) (f : VFile) : Prop :=
  (installedFiles L i).inUse ≠ 0#32 ∧ f.data = (installedFiles L i).data
    ∧ f.capacity = (installedFiles L i).capacity

/-- **The tables are in order in every state**: descriptors in use are none of the console's and
point to files in use, files have names of their own and fit their capacity, and a file that
was created or grown has a used block of at least its capacity to itself. -/
theorem vfs_tables {L : Rodata} {k : Kernel} (hk : k.Cold) {cs : List Call} {w : FsWorld}
    (hrun : FsRun L k cs w) :
    (∀ d, (w.kernel.fileDescriptors d).inUse ≠ 0#32 →
      3 ≤ d ∧ ∃ i, (w.kernel.fileDescriptors d).file = some i
        ∧ (w.kernel.virtualFiles i).inUse ≠ 0#32)
    ∧ (∀ i j, (w.kernel.virtualFiles i).inUse ≠ 0#32 → (w.kernel.virtualFiles j).inUse ≠ 0#32 →
        i ≠ j → (w.kernel.virtualFiles i).nameString ≠ (w.kernel.virtualFiles j).nameString)
    ∧ (∀ i, (w.kernel.virtualFiles i).inUse ≠ 0#32 →
        (w.kernel.virtualFiles i).size ≤ (w.kernel.virtualFiles i).capacity)
    ∧ ∀ i, (w.kernel.virtualFiles i).inUse ≠ 0#32 →
        ¬AsInstalled L i (w.kernel.virtualFiles i) →
        (∃ bs, w.kernel.heap.blocks = some bs ∧ ∃ b ∈ bs, b.isFree = 0#32
          ∧ b.payload = (w.kernel.virtualFiles i).data
          ∧ (w.kernel.virtualFiles i).capacity ≤ b.size)
        ∧ ∀ j ≠ i, (w.kernel.virtualFiles j).inUse ≠ 0#32 →
          (w.kernel.virtualFiles j).data ≠ (w.kernel.virtualFiles i).data := by
  obtain ⟨l, hinv⟩ := hrun.inv hk
  refine ⟨fun d hd => ?_, fun i j hi hj hij => ?_, hinv.tables.size_le, fun i hi hnew => ⟨?_, ?_⟩⟩
  · obtain ⟨h3, i, hfile, hi, -⟩ := hinv.tables.fd d hd
    exact ⟨h3, i, hfile, hi⟩
  · exact fun heq => hij (hinv.tables.names i j hi hj heq)
  · rcases hinv.tables.backed i hi with ⟨rfl, hdata, hcap⟩ | ⟨rfl, hdata, hcap⟩ | ⟨n, hdata, hcap⟩
    · exact absurd ⟨by simp [installedFiles, literalFile], hdata, hcap⟩ hnew
    · exact absurd ⟨by simp [installedFiles, literalFile], hdata, hcap⟩ hnew
    · obtain ⟨bs, hbs, b, hb, hfree, hpay, rfl⟩ := (usedBlock_iff hinv.models).mp hdata
      exact ⟨bs, hbs, b, hb, hfree, hpay, hcap⟩
  · exact fun j hji hj heq => hji (hinv.tables.data_inj j i hj hi heq)

/-- The tables after a file has been created, written and closed. -/
theorem vfs_tables_create : ∃ w, FsRun sampleRodata blankKernel
    [.sysOpen (some sampleName) 6#32, .sysWrite 3#32 0x300000#32 5#32, .sysClose 3#32] w
    ∧ ∀ i j, (w.kernel.virtualFiles i).inUse ≠ 0#32 → (w.kernel.virtualFiles j).inUse ≠ 0#32 →
        i ≠ j → (w.kernel.virtualFiles i).nameString ≠ (w.kernel.virtualFiles j).nameString := by
  obtain ⟨w, hw⟩ := exists_run_create
  exact ⟨w, hw, (vfs_tables blankKernel_cold hw).2.1⟩

/-! ### What is released -/

/-- Every release of the trace is that of a pointer live at that time. -/
def FreesLive : List Event → Prop
  | [] => True
  | .free p :: t => Live t p ∧ FreesLive t
  | .malloc _ _ :: t => FreesLive t
  | .copy _ _ :: t => FreesLive t

/-- The growth of the file `i` to `needed` bytes finds a new buffer. -/
def CanGrow (k : Kernel) (i : Fin 32) (needed : Word) : Prop :=
  (k.virtualFiles i).capacity < needed ∧ newCapacity needed ≠ 0#32
    ∧ k.heap.HasRoom (newCapacity needed).toNat

/-- A file that moves has found a new buffer. -/
lemma canGrow_of_moved {k : Kernel} {i : Fin 32} {needed : Word}
    (hlt : (k.virtualFiles i).capacity < needed) (hle : needed.toNat ≤ (newCapacity needed).toNat)
    (hroom : k.heap.HasRoom (newCapacity needed).toNat) : CanGrow k i needed := by
  refine ⟨hlt, fun h0 => ?_, hroom⟩
  rw [BitVec.lt_def] at hlt
  rw [h0, BitVec.toNat_zero] at hle
  omega

/-- A file that can take a write needs no new buffer, or has found one. -/
lemma Grow.canGrow {k k₁ : Kernel} {l l₁ : List Seg} {i : Fin 32} {needed : Word}
    (hout : Grow k l i needed true k₁ l₁) :
    needed ≤ (k.virtualFiles i).capacity ∧ k₁ = k ∨ CanGrow k i needed := by
  cases hout with
  | fits hle => exact Or.inl ⟨hle, rfl⟩
  | moved hlt hle hroom => exact Or.inr (canGrow_of_moved hlt hle hroom)

/-- The call makes no file grow off the literal that `vfs_init` installed. -/
def FsWorld.KeepsLiterals (L : Rodata) (w : FsWorld) : Call → Prop
  | .sysWrite fd buffer count => ∀ d i, FdOn w.kernel fd d i →
      hasFlag (w.kernel.fileDescriptors d).flags OPEN_WRITE = true → buffer ≠ NULL →
        CanGrow w.kernel i ((w.kernel.fileDescriptors d).position + count) →
          (w.kernel.virtualFiles i).data ≠ L.welcome ∧ (w.kernel.virtualFiles i).data ≠ L.info
  | _ => True

section Frees

variable {L : Rodata} {w w' : FsWorld} {c : Call}

/-- Off the literals, what a file releases when it moves is live. -/
lemma Inv.live_data {k : Kernel} {owned : List Addr} {l : List Seg} {i : Fin 32}
    (hk : Inv L k owned l) (hi : (k.virtualFiles i).inUse ≠ 0#32) :
    Live k.trace (k.virtualFiles i).data ↔
      (k.virtualFiles i).data ≠ L.welcome ∧ (k.virtualFiles i).data ≠ L.info := by
  have hb := (hk.tables.backed i hi).bounds hk.models
  have hne : (k.virtualFiles i).data ≠ NULL := by
    rw [NULL]
    bv_omega
  have hLw := L.welcome_bounds
  have hLi := L.info_bounds
  rw [hk.live _ hne]
  constructor
  · rintro ⟨n, hn⟩
    have hbn := hn.bounds hk.models
    constructor <;> intro heq <;> rw [heq] at hbn <;> omega
  · rintro ⟨hw, hin⟩
    rcases hk.tables.backed i hi with ⟨-, hdata, -⟩ | ⟨-, hdata, -⟩ | ⟨n, hdata, -⟩
    · exact absurd hdata hw
    · exact absurd hdata hin
    · exact ⟨n, hdata⟩

/-- A call that keeps the literals keeps the releases sound. -/
lemma FsWorld.step_freesLive (hw : w.Sound L) (hfree : FreesLive w.kernel.trace)
    (hc : w.Tame L c) (hkeep : w.KeepsLiterals L c) (hs : FsWorld.step L w c = some w') :
    FreesLive w'.kernel.trace := by
  obtain ⟨l, hk⟩ := hw
  obtain ⟨⟨r, k'⟩, hexec, rfl⟩ := Option.map_eq_some_iff.mp hs
  dsimp only
  cases c with
  | sysOpen path flags =>
      have hinit : vfsInit L w.kernel = w.kernel := by rw [vfsInit, if_pos hk.initialized]
      rcases sysHandlerOpen_trace hinit hexec with ht | ⟨n, p, ht⟩ <;> rw [ht] <;> exact hfree
  | sysRead fd buffer count =>
      have hk' : (sysHandlerRead fd buffer count w.kernel).2 = k' :=
        congrArg Prod.snd (Option.some.inj hexec)
      rw [← hk']
      by_cases hno : buffer = NULL ∨ ∀ d i, ¬FdOn w.kernel fd d i
      · rw [sysHandlerRead_of_not hno]
        exact hfree
      · push Not at hno
        obtain ⟨hb, d, i, hon⟩ := hno
        rw [sysHandlerRead_of_fdOn hon hb]
        exact hfree
  | sysWrite fd buffer count =>
      have hwrite : sysHandlerWrite fd buffer count w.kernel = some (r, k') := hexec
      by_cases hno : buffer = NULL ∨ count = 0#32 ∨
        ∀ d i, FdOn w.kernel fd d i → hasFlag (w.kernel.fileDescriptors d).flags OPEN_WRITE = false
      · obtain ⟨r', hr'⟩ := sysHandlerWrite_of_not hno
        obtain ⟨-, rfl⟩ := Prod.mk.inj (Option.some.inj (hr'.symm.trans hwrite))
        exact hfree
      push Not at hno
      obtain ⟨hb, hc0, d, i, hon, hflag⟩ := hno
      rw [ne_eq, Bool.not_eq_false] at hflag
      obtain ⟨-, hi, -⟩ := hk.fdOn hon
      obtain ⟨ok, k₁, l₁, hcase, hout, -⟩ := sysHandlerWrite_cases hk hon hb hc0 hflag
      have heq := Option.some.inj (hcase.symm.trans hwrite)
      cases hout with
      | fits hle =>
          obtain ⟨-, rfl⟩ := Prod.mk.inj heq
          rw [overlay_eq]
          exact hfree
      | refused hlt hno =>
          obtain ⟨-, rfl⟩ := Prod.mk.inj heq
          exact hfree
      | @moved p h l' n hlt hle hroom hfresh hp hn hused hcopy hframe =>
          obtain ⟨-, rfl⟩ := Prod.mk.inj heq
          rw [overlay_eq]
          have hlive := (hk.live_data hi).mpr
            (hkeep d i hon hflag hb (canGrow_of_moved hlt hle hroom))
          exact ⟨Or.inr hlive, hfree⟩
  | sysClose fd =>
      have hk' : (sysHandlerClose fd w.kernel).2 = k' :=
        congrArg Prod.snd (Option.some.inj hexec)
      rw [← hk', sysHandlerClose]
      split_ifs <;> exact hfree
  | sysMalloc n =>
      obtain ⟨q, -, heq⟩ := Option.map_eq_some_iff.mp hexec
      obtain ⟨-, rfl⟩ := Prod.mk.inj heq
      exact hfree
  | sysFree p =>
      obtain ⟨q, -, heq⟩ := Option.map_eq_some_iff.mp hexec
      obtain ⟨-, rfl⟩ := Prod.mk.inj heq
      obtain ⟨n, hn⟩ := hk.tables.owned_used p hc
      exact ⟨(hk.live p (hn.ne_null hk.models)).mpr ⟨n, hn⟩, hfree⟩
  | store a b =>
      obtain ⟨-, rfl⟩ := Prod.mk.inj (Option.some.inj hexec)
      exact hfree

/-- A call that makes a file grow off its literal releases the literal. -/
lemma FsWorld.step_not_freesLive (hw : w.Sound L) (hkeep : ¬w.KeepsLiterals L c)
    (hs : FsWorld.step L w c = some w') : ¬FreesLive w'.kernel.trace := by
  obtain ⟨l, hk⟩ := hw
  obtain ⟨⟨r, k'⟩, hexec, rfl⟩ := Option.map_eq_some_iff.mp hs
  cases c with
  | sysWrite fd buffer count =>
      have hwrite : sysHandlerWrite fd buffer count w.kernel = some (r, k') := hexec
      rw [FsWorld.KeepsLiterals] at hkeep
      push Not at hkeep
      obtain ⟨d, i, hon, hflag, hb, ⟨hlt, hc0, hroom⟩, hlit⟩ := hkeep
      obtain ⟨-, hi, hpos⟩ := hk.fdOn hon
      have hcount : count ≠ 0#32 := by
        rintro rfl
        rw [BitVec.add_zero] at hlt
        exact absurd (BitVec.lt_def.mp hlt) (by omega)
      obtain ⟨ok, k₁, l₁, hcase, hout, hinv⟩ := sysHandlerWrite_cases hk hon hb hcount hflag
      have heq := Option.some.inj (hcase.symm.trans hwrite)
      cases hout with
      | fits hle => exact absurd hle (BitVec.not_le.mpr hlt)
      | refused hlt' hno => exact absurd hroom (hno.resolve_left hc0)
      | @moved p h l' n hlt' hle hroom' hfresh hp hn hused hcopy hframe =>
          obtain ⟨-, rfl⟩ := Prod.mk.inj heq
          have hnot : ¬Live w.kernel.trace (w.kernel.virtualFiles i).data := by
            rw [hk.live_data hi]
            rintro ⟨h1, h2⟩
            exact h2 (hlit h1)
          rw [overlay_eq]
          rintro ⟨hlive, -⟩
          rcases hlive with heq | hlive
          · -- the new buffer is in the heap, and the literals are not
            have hbp := hp.bounds hinv.models
            have hLw := L.welcome_bounds
            have hLi := L.info_bounds
            by_cases hwel : (w.kernel.virtualFiles i).data = L.welcome
            · rw [heq, hwel] at hbp
              omega
            · rw [heq, hlit hwel] at hbp
              omega
          · exact hnot hlive
  | _ => exact absurd trivial hkeep

end Frees

/-- **What is released is live exactly while files on literals do not grow**: along a run, every
pointer released was returned by a request and not released since, if and only if no write
makes a file grow off the literal that `vfs_init` installed. -/
theorem frees_live_iff {L : Rodata} {k : Kernel} (hk : k.Cold) {cs : List Call} {w : FsWorld}
    (hrun : FsRun L k cs w) :
    (∀ pre c post u, cs = pre ++ c :: post → FsRun L k pre u → u.KeepsLiterals L c) ↔
      ∀ pre post u, cs = pre ++ post → FsRun L k pre u → FreesLive u.kernel.trace := by
  refine Run.forall_prefix_iff (P := fun u : FsWorld => u.Sound L ∧ FreesLive u.kernel.trace)
    (fun _ hu => hu.2) (fun u c u' hu hc hkeep hs => ?_) (fun u c u' hu _ hkeep hs => ?_) ?_ hrun
  · exact ⟨FsWorld.sound_of_step hu.1 hc hs, FsWorld.step_freesLive hu.1 hu.2 hc hkeep hs⟩
  · exact FsWorld.step_not_freesLive hu.1 hkeep hs
  · refine ⟨FsWorld.boot_sound hk, ?_⟩
    have htrace : (FsWorld.boot L k).kernel.trace = [] := by
      simp [FsWorld.boot, syscallInitialize, vfsInit, hk.fs, hk.trace]
    rw [htrace]
    trivial

/-- Opening `welcome.txt` at its end and writing a byte releases the literal. -/
theorem frees_literal : ∃ w, FsRun sampleRodata blankKernel
    [.sysOpen (some welcomeName) 0x12#32, .sysWrite 3#32 0x300000#32 1#32] w
    ∧ .free sampleRodata.welcome ∈ w.kernel.trace ∧ ¬FreesLive w.kernel.trace := by
  obtain ⟨w₁, h₁⟩ := exists_run_open 0x12#32 (show welcomeName.chars.length < 64 by decide)
  obtain ⟨w₂, h₂⟩ := h₁.extend blankKernel_cold
    (h₁.tame_write 3#32 1#32 0x300000#32 blankKernel_cold (by decide))
  have hrun : FsRun sampleRodata blankKernel
    [.sysOpen (some welcomeName) 0x12#32, .sysWrite 3#32 0x300000#32 1#32] w₂ := h₂
  have htrace : w₂.kernel.trace = [.copy 0x400040#32 1, .free 0x200000#32, .copy 0x40000C#32 52,
      .malloc 256#32 0x40000C#32] :=
    hrun.eval (fun w => w.kernel.trace) (by decide +kernel)
  refine ⟨w₂, hrun, ?_, ?_⟩
  · rw [htrace]
    decide
  · rw [htrace]
    simp [FreesLive, Live]

/-- The equivalence on a run that creates a file. -/
theorem frees_live_iff_create : ∃ w, FsRun sampleRodata blankKernel
    [.sysOpen (some sampleName) 6#32, .sysWrite 3#32 0x300000#32 5#32, .sysClose 3#32] w
    ∧ ((∀ pre c post u, [Call.sysOpen (some sampleName) 6#32, .sysWrite 3#32 0x300000#32 5#32,
          .sysClose 3#32] = pre ++ c :: post → FsRun sampleRodata blankKernel pre u →
          u.KeepsLiterals sampleRodata c) ↔
        ∀ pre post u, [Call.sysOpen (some sampleName) 6#32, .sysWrite 3#32 0x300000#32 5#32,
          .sysClose 3#32] = pre ++ post → FsRun sampleRodata blankKernel pre u →
          FreesLive u.kernel.trace) := by
  obtain ⟨w, hw⟩ := exists_run_create
  exact ⟨w, hw, frees_live_iff blankKernel_cold hw⟩

end MiqOSoft
