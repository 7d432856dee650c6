import MiqOSoft.Kernel.VfsRead
import MiqOSoft.Kernel.VfsWrite

/-!
Calls that fail.

* `Unchanged`: the files in use with their names, sizes and contents, the descriptors and the
  allocated blocks are the same.
* `FailsClean`: what a call must avoid for its failure to leave everything unchanged.
* `clean_failure_iff`: in the states of a run, open, read, write and close return, and a negative
  result leaves everything unchanged, exactly when the call is `FailsClean`.
* `create_without_descriptor`: a file is created though no descriptor is free.
-/

namespace MiqOSoft

open Machine Tiling Transition

/-- The allocated blocks, by payload address and size. -/
def Heap.allocated (h : Heap) : Set (Addr × Word) :=
  {q | ∃ bs, h.blocks = some bs ∧ ∃ b ∈ bs, b.isFree = 0#32 ∧ q = (b.payload, b.size)}

/-- Nothing of what the file system holds has changed. -/
structure Unchanged (k k' : Kernel) : Prop where
  inUse : ∀ i, (k'.virtualFiles i).inUse ≠ 0#32 ↔ (k.virtualFiles i).inUse ≠ 0#32
  files : ∀ i, (k.virtualFiles i).inUse ≠ 0#32 →
    (k'.virtualFiles i).nameString = (k.virtualFiles i).nameString
    ∧ (k'.virtualFiles i).size = (k.virtualFiles i).size
    ∧ ∀ n < (k.virtualFiles i).size.toNat,
      k'.mem ((k'.virtualFiles i).data + BitVec.ofNat 32 n)
        = k.mem ((k.virtualFiles i).data + BitVec.ofNat 32 n)
  descriptors : k'.fileDescriptors = k.fileDescriptors
  allocated : k'.heap.allocated = k.heap.allocated

/-- The call returns, and a negative result leaves everything unchanged. -/
def CleanFailure (L : Rodata) (k : Kernel) (c : Call) : Prop :=
  ∃ r k', k.exec L c = some (r, k') ∧ (r.toInt < 0 → Unchanged k k')

/-- The calls of the file system. -/
def Call.IsFileCall : Call → Prop
  | .sysOpen _ _ => True
  | .sysRead _ _ _ => True
  | .sysWrite _ _ _ => True
  | .sysClose _ => True
  | _ => False

/-- A call fails cleanly: where open would create a file, the path stays in the file table, there
is a descriptor for the file if there is a buffer, and without a buffer the path has at most
80 characters; a read is at a position within the file and does not wrap; a write does not
wrap. -/
def FailsClean (k : Kernel) : Call → Prop
  | .sysOpen path flags => ∀ s i, path = some s → findFile s k = none →
      hasFlag flags OPEN_CREATE = true → freeSlot k = some i →
        84 * (i : ℕ) + s.chars.length < 2688 ∧ (k.heap.HasRoom 256 → freeFd k ≠ none)
          ∧ (¬k.heap.HasRoom 256 → s.chars.length ≤ 80)
  | .sysRead fd buffer count => ∀ d i, FdOn k fd d i → buffer ≠ NULL →
      (k.fileDescriptors d).position ≤ (k.virtualFiles i).size
        ∧ (k.fileDescriptors d).position.toNat + count.toNat < 2 ^ 32
  | .sysWrite fd buffer count => ∀ d i, FdOn k fd d i →
      hasFlag (k.fileDescriptors d).flags OPEN_WRITE = true → buffer ≠ NULL →
        (k.fileDescriptors d).position.toNat + count.toNat < 2 ^ 32
  | _ => True

lemma Unchanged.refl (k : Kernel) : Unchanged k k :=
  ⟨fun _ => Iff.rfl, fun _ _ => ⟨rfl, rfl, fun _ _ => rfl⟩, rfl, rfl⟩

/-- The heap and the descriptors are the same, the files in use too, and no other entry is put in
use. -/
lemma Unchanged.of_eq {k k' : Kernel} (hheap : k'.heap = k.heap)
    (hfds : k'.fileDescriptors = k.fileDescriptors)
    (hfiles : ∀ i, (k.virtualFiles i).inUse ≠ 0#32 → k'.virtualFiles i = k.virtualFiles i)
    (hfree : ∀ i, (k.virtualFiles i).inUse = 0#32 → (k'.virtualFiles i).inUse = 0#32) :
    Unchanged k k' := by
  refine ⟨fun i => ⟨fun h hi => h (hfree i hi), fun h => ?_⟩, fun i hi => ?_, hfds, by rw [hheap]⟩
  · rw [hfiles i h]
    exact h
  · rw [hfiles i hi, Kernel.mem, hheap]
    exact ⟨rfl, rfl, fun _ _ => rfl⟩

/-- The outcome of a call that returns. -/
lemma cleanFailure_of_exec {L : Rodata} {k : Kernel} {c : Call} {p : Word × Kernel}
    (h : k.exec L c = some p) : CleanFailure L k c ↔ (p.1.toInt < 0 → Unchanged k p.2) := by
  constructor
  · rintro ⟨r, k', hexec, hneg⟩
    obtain rfl := Option.some.inj (h.symm.trans hexec)
    exact hneg
  · exact fun hneg => ⟨p.1, p.2, h, hneg⟩

/-- Results below two gigabytes are not negative. -/
lemma toInt_neg_iff {r : Word} : r.toInt < 0 ↔ 2 ^ 31 ≤ r.toNat := by
  have := r.isLt
  rw [BitVec.toInt_eq_toNat_cond]
  split_ifs <;> omega

section Handlers

variable {L : Rodata} {k : Kernel} {owned : List Addr} {l : List Seg} {fd count flags : Word}
  {buffer : Addr} {path : CString} {d i : Fin 32}

/-! ### Close, read and write -/

lemma cleanFailure_close : CleanFailure L k (.sysClose fd) := by
  rw [cleanFailure_of_exec (p := sysHandlerClose fd k) rfl, sysHandlerClose]
  split_ifs
  · exact fun _ => .refl k
  · exact fun h : SYSCALL_OK.toInt < 0 => absurd h (by decide)
  · exact fun _ => .refl k

/-- A read that does not return what is due returns a negative number. -/
lemma le_toRead (hk : Inv L k owned l) (hon : FdOn k fd d i)
    (h : ¬((k.fileDescriptors d).position ≤ (k.virtualFiles i).size
      ∧ (k.fileDescriptors d).position.toNat + count.toNat < 2 ^ 32)) :
    2 ^ 31 ≤ (toRead (k.virtualFiles i) (k.fileDescriptors d).position count).toNat := by
  obtain ⟨-, hi, hpos⟩ := hk.fdOn hon
  have hb := (hk.tables.backed i hi).bounds hk.models
  have hsum : ((k.fileDescriptors d).position + count).toNat
      = ((k.fileDescriptors d).position.toNat + count.toNat) % 2 ^ 32 := BitVec.toNat_add _ _
  have hdiff : ((k.virtualFiles i).size - (k.fileDescriptors d).position).toNat
      = (2 ^ 32 - (k.fileDescriptors d).position.toNat + (k.virtualFiles i).size.toNat) % 2 ^ 32 :=
    BitVec.toNat_sub _ _
  rw [BitVec.le_def] at h
  rcases toRead_cases (k.virtualFiles i) (k.fileDescriptors d).position count with
    ⟨hlt, heq⟩ | ⟨hle, heq⟩ <;> rw [heq]
  · rw [BitVec.lt_def] at hlt
    omega
  · rw [BitVec.le_def] at hle
    omega

lemma cleanFailure_read_iff (hk : Inv L k owned l) :
    CleanFailure L k (.sysRead fd buffer count) ↔ FailsClean k (.sysRead fd buffer count) := by
  rw [cleanFailure_of_exec (p := sysHandlerRead fd buffer count k) rfl]
  by_cases hno : buffer = NULL ∨ ∀ d i, ¬FdOn k fd d i
  · rw [sysHandlerRead_of_not hno]
    refine ⟨fun _ d i hon hb => ?_, fun _ _ => .refl k⟩
    rcases hno with h | h
    · exact absurd h hb
    · exact absurd hon (h d i)
  push Not at hno
  obtain ⟨hb, d, i, hon⟩ := hno
  obtain ⟨-, hi, hpos⟩ := hk.fdOn hon
  have hbound := (hk.tables.backed i hi).bounds hk.models
  have hsize := hk.tables.size_le i hi
  rw [sysHandlerRead_of_fdOn hon hb]
  constructor
  · rintro hneg d' i' hon' -
    obtain ⟨rfl, rfl⟩ := hon.unique hon'
    by_contra hbad
    have hlarge := le_toRead hk hon hbad
    -- the position moves by a number that is not zero
    have hfds := congrFun (hneg (toInt_neg_iff.mpr hlarge)).descriptors d
    simp only [Kernel.setFd, Function.update_self] at hfds
    have hmove := congrArg FileDescriptor.position hfds
    dsimp only at hmove
    bv_omega
  · intro hfits hneg
    obtain ⟨hle, hwrap⟩ := hfits d i hon hb
    rw [toInt_neg_iff, toRead_eq_readLength_iff.mpr ⟨hle, hwrap⟩] at hneg
    have := readLength_le k d i count
    omega

lemma cleanFailure_write_iff (hk : Inv L k owned l) :
    CleanFailure L k (.sysWrite fd buffer count) ↔ FailsClean k (.sysWrite fd buffer count) := by
  by_cases hno : buffer = NULL ∨ count = 0#32 ∨
    ∀ d i, FdOn k fd d i → hasFlag (k.fileDescriptors d).flags OPEN_WRITE = false
  · obtain ⟨r, hr⟩ := sysHandlerWrite_of_not hno
    refine ⟨fun _ d i hon hw hb => ?_, fun _ => ⟨r, k, hr, fun _ => .refl k⟩⟩
    rcases hno with h | rfl | h
    · exact absurd h hb
    · have := (k.fileDescriptors d).position.isLt
      simpa using this
    · rw [h d i hon] at hw
      exact absurd hw (by decide)
  push Not at hno
  obtain ⟨hb, hc, d, i, hon, hw⟩ := hno
  rw [ne_eq, Bool.not_eq_false] at hw
  obtain ⟨-, hi, hpos⟩ := hk.fdOn hon
  have hbound := (hk.tables.backed i hi).bounds hk.models
  have hsum : ((k.fileDescriptors d).position + count).toNat
      = ((k.fileDescriptors d).position.toNat + count.toNat) % 2 ^ 32 := BitVec.toNat_add _ _
  obtain ⟨ok, k₁, l₁, hcase, hout, hinv₁⟩ := sysHandlerWrite_cases hk hon hb hc hw
  rw [cleanFailure_of_exec (c := .sysWrite fd buffer count) hcase]
  constructor
  · rintro hneg d' i' hon' - -
    obtain ⟨rfl, rfl⟩ := hon.unique hon'
    by_contra hwrap
    cases hout with
    | fits hle =>
        have hlarge : 2 ^ 31 ≤ count.toNat := by omega
        rw [if_pos rfl] at hneg
        have hfds := congrFun (hneg (toInt_neg_iff.mpr hlarge)).descriptors d
        have hmove := congrArg FileDescriptor.position hfds
        rw [overlay_position] at hmove
        bv_omega
    | refused hlt hroom =>
        rw [BitVec.lt_def] at hlt
        omega
    | moved hlt =>
        rw [BitVec.lt_def] at hlt
        omega
  · intro hfits
    have hwrap := hfits d i hon hw hb
    intro hneg
    cases hout with
    | fits hle =>
        rw [BitVec.le_def] at hle
        rw [if_pos rfl, toInt_neg_iff] at hneg
        dsimp only at hneg
        omega
    | refused hlt hroom => exact .of_eq rfl rfl (fun _ _ => rfl) fun _ h => h
    | @moved p h l' n hlt hle hroom hfresh hp hn hused hcopy hframe =>
        have hbp := hp.bounds hinv₁.models
        rw [if_pos rfl, toInt_neg_iff] at hneg
        dsimp only at hneg
        omega

/-! ### Open -/

/-- A descriptor that is opened is not negative; without one nothing changes. -/
lemma openFd_neg : (openFd i flags k).1.toInt < 0 ↔ freeFd k = none := by
  rw [openFd]
  cases freeFd k with
  | none => simp only [iff_true]; decide
  | some d =>
      simp only [reduceCtorEq, iff_false, toInt_neg_iff, BitVec.toNat_ofNat]
      omega

lemma openFd_of_none (h : freeFd k = none) : openFd i flags k = (SYSCALL_OUT_OF_MEMORY, k) := by
  rw [openFd, h]

/-- The file table after a descriptor was opened. -/
lemma openFd_virtualFiles : (openFd i flags k).2.virtualFiles =
    if hasFlag flags OPEN_TRUNCATE = true ∧ freeFd k ≠ none then
      Function.update k.virtualFiles i { k.virtualFiles i with size := 0#32 }
    else k.virtualFiles := by
  rw [openFd]
  cases hfd : freeFd k with
  | none => simp
  | some d =>
      by_cases htrunc : hasFlag flags OPEN_TRUNCATE = true
      · simp [htrunc, Kernel.setFile, Kernel.setFd]
      · simp [htrunc, Kernel.setFd]

/-- The kernel in which entry `i` of the table `t` has become a file over the buffer `p`. -/
def Kernel.created (k : Kernel) (t : FileTable) (i : Fin 32) (p : Addr) (h : Heap) : Kernel :=
  { k with
    heap := h
    virtualFiles := Function.update t i { t i with
      data := p, size := 0#32, capacity := 256#32, isDirectory := 0#32, inUse := 1#32 }
    trace := .malloc 256#32 p :: k.trace }

/-- Open, when it creates a file: whatever the state, once the request for a buffer returns. -/
lemma sysHandlerOpen_create {t : FileTable} {p : Addr} {h : Heap}
    (hfind : findFile path (vfsInit L k) = none) (hcreate : hasFlag flags OPEN_CREATE = true)
    (hslot : freeSlot (vfsInit L k) = some i)
    (hcpy : (vfsInit L k).virtualFiles.strcpyName i path = some t)
    (hm : sysHandlerMalloc 256#32 (vfsInit L k).heap = some (p, h)) :
    sysHandlerOpen L (some path) flags k = some (
      if p = NULL then
        (SYSCALL_OUT_OF_MEMORY, { vfsInit L k with
          heap := h
          virtualFiles := Function.update t i { t i with data := NULL }
          trace := .malloc 256#32 NULL :: (vfsInit L k).trace })
      else openFd i flags ((vfsInit L k).created t i p h)) := by
  simp only [sysHandlerOpen, hfind, hcreate, hslot, createFile, hcpy, Option.bind_some,
    initialBuffer, Kernel.malloc, hm, Option.map_some, ↓reduceIte]
  split_ifs with hp
  · simp only [hp, Kernel.setFile]
  · simp only [Kernel.setFile, Function.update_self, Function.update_idem, Kernel.created]

/-- Open, when it creates a file and there is no buffer for it. -/
lemma sysHandlerOpen_refused (hk : Inv L k owned l) (hfind : findFile path k = none)
    (hcreate : hasFlag flags OPEN_CREATE = true) (hslot : freeSlot k = some i) {t : FileTable}
    (hcpy : k.virtualFiles.strcpyName i path = some t) (hroom : ¬k.heap.HasRoom 256) :
    sysHandlerOpen L (some path) flags k = some (SYSCALL_OUT_OF_MEMORY,
      { k with
        virtualFiles := Function.update t i { t i with data := NULL }
        trace := .malloc 256#32 NULL :: k.trace }) := by
  have hinit : vfsInit L k = k := by rw [vfsInit, if_pos hk.initialized]
  obtain ⟨p, h, l', hm, -, -, hout⟩ := hk.models.malloc 256#32
  have h256 : request 256#32 = 256 := by decide
  rw [h256] at hout
  rcases hout with ⟨rfl, rfl, -, -⟩ | ⟨-, hyes, -⟩
  · have hopen := sysHandlerOpen_create (L := L) (k := k) (by rwa [hinit]) hcreate
      (by rwa [hinit]) (by rwa [hinit]) (by rwa [hinit])
    rwa [hinit, if_pos rfl] at hopen
  · exact absurd hyes hroom

/-- Open, when it creates a file and there is a buffer for it. -/
lemma sysHandlerOpen_created (hk : Inv L k owned l) (hfind : findFile path k = none)
    (hcreate : hasFlag flags OPEN_CREATE = true) (hslot : freeSlot k = some i) {t : FileTable}
    (hcpy : k.virtualFiles.strcpyName i path = some t) (hroom : k.heap.HasRoom 256) :
    ∃ p h, sysHandlerOpen L (some path) flags k
      = some (openFd i flags (k.created t i p h)) := by
  have hinit : vfsInit L k = k := by rw [vfsInit, if_pos hk.initialized]
  obtain ⟨p, h, l', hm, hk', -, hout⟩ := hk.models.malloc 256#32
  have h256 : request 256#32 = 256 := by decide
  rw [h256] at hout
  rcases hout with ⟨-, -, -, hno⟩ | ⟨-, -, -, j, -, hiff⟩
  · exact absurd hroom (hno.resolve_left (by decide))
  · have hp : p ≠ NULL := UsedBlock.ne_null hk' ((hiff p j).mpr (Or.inl ⟨rfl, rfl⟩))
    have hopen := sysHandlerOpen_create (L := L) (k := k) (by rwa [hinit]) hcreate
      (by rwa [hinit]) (by rwa [hinit]) (by rwa [hinit])
    rw [hinit, if_neg hp] at hopen
    exact ⟨p, h, hopen⟩

/-- Open, when it creates a file whose name runs off the table. -/
lemma sysHandlerOpen_overrun (hk : Inv L k owned l) (hfind : findFile path k = none)
    (hcreate : hasFlag flags OPEN_CREATE = true) (hslot : freeSlot k = some i)
    (hcpy : k.virtualFiles.strcpyName i path = none) :
    sysHandlerOpen L (some path) flags k = none := by
  have hinit : vfsInit L k = k := by rw [vfsInit, if_pos hk.initialized]
  simp only [sysHandlerOpen, hinit, hfind, hcreate, hslot, createFile, hcpy, Option.bind_none,
    Option.map_none, ↓reduceIte]

/-- Open, when it creates no file. -/
lemma sysHandlerOpen_of_not (hk : Inv L k owned l)
    (hno : ∀ i, findFile path k = none → hasFlag flags OPEN_CREATE = true → freeSlot k ≠ some i) :
    sysHandlerOpen L (some path) flags k = some (SYSCALL_NOT_FOUND, k)
      ∨ ∃ i, findFile path k = some i
        ∧ sysHandlerOpen L (some path) flags k = some (openFd i flags k) := by
  have hinit : vfsInit L k = k := by rw [vfsInit, if_pos hk.initialized]
  cases hfind : findFile path k with
  | some i => exact Or.inr ⟨i, rfl, by simp only [sysHandlerOpen, hinit, hfind]⟩
  | none =>
      left
      by_cases hcreate : hasFlag flags OPEN_CREATE = true
      · have hslot : freeSlot k = none := by
          cases h : freeSlot k with
          | none => rfl
          | some i => exact absurd h (hno i hfind hcreate)
        simp only [sysHandlerOpen, hinit, hfind, hcreate, hslot, ↓reduceIte]
      · simp only [sysHandlerOpen, hinit, hfind, hcreate, Bool.false_eq_true, ↓reduceIte]

/-- With room for its contents a file is created: the failure is clean unless no descriptor is
free. -/
lemma cleanFailure_created_iff (hk : Inv L k owned l) {path : CString} {i : Fin 32}
    {t : FileTable} (hfind : findFile path k = none) (hcreate : hasFlag flags OPEN_CREATE = true)
    (hslot : freeSlot k = some i) (hcpy : k.virtualFiles.strcpyName i path = some t)
    (hroom : k.heap.HasRoom 256) :
    CleanFailure L k (.sysOpen (some path) flags) ↔ freeFd k ≠ none := by
  have hi := freeSlot_eq_some hslot
  obtain ⟨p, h, hopen⟩ := sysHandlerOpen_created hk hfind hcreate hslot hcpy hroom
  have hfd : freeFd (k.created t i p h) = freeFd k := rfl
  rw [cleanFailure_of_exec (c := .sysOpen (some path) flags) hopen, openFd_neg, hfd]
  constructor
  · intro hneg hnone
    -- the file has been created although the call failed
    have huse := (hneg hnone).inUse i
    rw [openFd_of_none (hfd.trans hnone)] at huse
    simp [Kernel.created, hi] at huse
  · intro hsome hnone
    exact absurd hnone hsome

/-- Without room for its contents a file is refused: the failure is clean unless its name has run
over what follows. -/
lemma cleanFailure_refused_iff (hk : Inv L k owned l) {path : CString} {i : Fin 32}
    {t : FileTable} (hfind : findFile path k = none) (hcreate : hasFlag flags OPEN_CREATE = true)
    (hslot : freeSlot k = some i) (hcpy : k.virtualFiles.strcpyName i path = some t)
    (hroom : ¬k.heap.HasRoom 256) :
    CleanFailure L k (.sysOpen (some path) flags) ↔ path.chars.length ≤ 80 := by
  have hi := freeSlot_eq_some hslot
  have hopen := sysHandlerOpen_refused hk hfind hcreate hslot hcpy hroom
  rw [cleanFailure_of_exec (c := .sysOpen (some path) flags) hopen]
  constructor
  · intro hneg
    by_contra hlong
    have hoom : SYSCALL_OUT_OF_MEMORY.toInt < 0 := by decide
    have huse := (hneg hoom).inUse i
    have hover := FileTable.strcpyName_overrun hcpy (not_le.mp hlong)
    simp only [Function.update_self] at huse
    exact huse.mp hover hi
  · intro hshort
    obtain ⟨t', hcpy', hfree, hsame⟩ := FileTable.strcpyName_of_le hshort hi
    obtain rfl := Option.some.inj (hcpy.symm.trans hcpy')
    refine fun _ => .of_eq rfl rfl (fun j hj => ?_) fun j hj => ?_
    · have hji : j ≠ i := by
        rintro rfl
        exact hj hi
      exact (Function.update_of_ne hji _ _).trans (hsame j hji)
    · by_cases hji : j = i
      · subst hji
        simpa using hfree
      · simpa [hji, hsame j hji] using hj

lemma cleanFailure_open_iff (hk : Inv L k owned l) {path : Option CString} :
    CleanFailure L k (.sysOpen path flags) ↔ FailsClean k (.sysOpen path flags) := by
  cases path with
  | none =>
      exact ⟨fun _ s i h => absurd h (by simp), fun _ => ⟨_, _, rfl, fun _ => .refl k⟩⟩
  | some path =>
  by_cases hno : ∀ i, findFile path k = none → hasFlag flags OPEN_CREATE = true →
      freeSlot k ≠ some i
  · constructor
    · rintro - s i ⟨⟩ hfind hcreate hslot
      exact absurd hslot (hno i hfind hcreate)
    · intro _
      rcases sysHandlerOpen_of_not hk hno with h | ⟨i, -, h⟩
      · exact ⟨_, _, h, fun _ => .refl k⟩
      · rw [cleanFailure_of_exec (c := .sysOpen (some path) flags) h, openFd_neg]
        intro hnone
        rw [openFd_of_none hnone]
        exact .refl k
  push Not at hno
  obtain ⟨i, hfind, hcreate, hslot⟩ := hno
  have hiff : FailsClean k (.sysOpen (some path) flags) ↔
      84 * (i : ℕ) + path.chars.length < 2688 ∧ (k.heap.HasRoom 256 → freeFd k ≠ none)
        ∧ (¬k.heap.HasRoom 256 → path.chars.length ≤ 80) := by
    constructor
    · exact fun h => h path i rfl hfind hcreate hslot
    · rintro h s j ⟨⟩ - - hj
      obtain rfl := Option.some.inj (hslot.symm.trans hj)
      exact h
  rw [hiff]
  by_cases hfit : 84 * (i : ℕ) + path.chars.length < 2688
  swap
  · -- the copy of the name runs off the table
    have hcpy : k.virtualFiles.strcpyName i path = none := by rw [FileTable.strcpyName, if_neg hfit]
    refine ⟨?_, fun h => absurd h.1 hfit⟩
    rintro ⟨r, k', hexec, -⟩
    rw [Kernel.exec, sysHandlerOpen_overrun hk hfind hcreate hslot hcpy] at hexec
    exact absurd hexec (by simp)
  obtain ⟨t, hcpy⟩ : ∃ t, k.virtualFiles.strcpyName i path = some t := by
    rw [FileTable.strcpyName, if_pos hfit]
    exact ⟨_, rfl⟩
  rw [and_iff_right hfit]
  by_cases hroom : k.heap.HasRoom 256
  · rw [cleanFailure_created_iff hk hfind hcreate hslot hcpy hroom, forall_prop_of_true hroom]
    exact (and_iff_left fun h => absurd hroom h).symm
  · rw [cleanFailure_refused_iff hk hfind hcreate hslot hcpy hroom, forall_prop_of_true hroom]
    exact (and_iff_right fun h => absurd h hroom).symm

end Handlers

/-- **When a failure is clean**: in a state of a run, a call of the file system returns and leaves
everything unchanged on a negative result if and only if it is `FailsClean`. -/
theorem clean_failure_iff {L : Rodata} {k : Kernel} (hk : k.Cold) {cs : List Call} {w : FsWorld}
    (hrun : FsRun L k cs w) {c : Call} (hc : c.IsFileCall) :
    CleanFailure L w.kernel c ↔ FailsClean w.kernel c := by
  obtain ⟨l, hinv⟩ := hrun.inv hk
  cases c with
  | sysOpen path flags => exact cleanFailure_open_iff hinv
  | sysRead fd buffer count => exact cleanFailure_read_iff hinv
  | sysWrite fd buffer count => exact cleanFailure_write_iff hinv
  | sysClose fd => exact ⟨fun _ => trivial, fun _ => cleanFailure_close⟩
  | sysMalloc size => exact absurd hc id
  | sysFree ptr => exact absurd hc id
  | store a b => exact absurd hc id

/-- The equivalence for a read at the start. -/
theorem clean_failure_iff_read :
    CleanFailure sampleRodata (FsWorld.boot sampleRodata blankKernel).kernel
        (.sysRead 3#32 0x300000#32 1#32) ↔
      FailsClean (FsWorld.boot sampleRodata blankKernel).kernel (.sysRead 3#32 0x300000#32 1#32) :=
  clean_failure_iff blankKernel_cold (Run.nil _) trivial

/-- A run that opens `welcome.txt` any number of times. -/
lemma exists_run_opens (n : ℕ) : ∃ w, FsRun sampleRodata blankKernel
    (List.replicate n (.sysOpen (some welcomeName) 1#32)) w := by
  induction n with
  | zero => exact ⟨_, Run.nil _⟩
  | succ n ih =>
      obtain ⟨w, hw⟩ := ih
      rw [List.replicate_succ']
      exact hw.extend blankKernel_cold (tame_open 1#32 (by decide))

/-- With all descriptors in use, opening a new file fails for want of one and leaves the file. -/
theorem create_without_descriptor : ∃ w, FsRun sampleRodata blankKernel
    (List.replicate 29 (.sysOpen (some welcomeName) 1#32)) w
    ∧ (w.kernel.exec sampleRodata (.sysOpen (some sampleName) 4#32)).map
        (fun r => (r.1, (r.2.virtualFiles 2).inUse)) = some (SYSCALL_OUT_OF_MEMORY, 1#32)
    ∧ ¬CleanFailure sampleRodata w.kernel (.sysOpen (some sampleName) 4#32) := by
  obtain ⟨w, hrun⟩ := exists_run_opens 29
  have hres : (w.kernel.exec sampleRodata (.sysOpen (some sampleName) 4#32)).map
      (fun r => (r.1, (r.2.virtualFiles 2).inUse)) = some (SYSCALL_OUT_OF_MEMORY, 1#32) :=
    hrun.eval (fun w => (w.kernel.exec sampleRodata (.sysOpen (some sampleName) 4#32)).map
      (fun r => (r.1, (r.2.virtualFiles 2).inUse))) (by decide +kernel)
  have hfree : (w.kernel.virtualFiles 2).inUse = 0#32 :=
    hrun.eval (fun w => (w.kernel.virtualFiles 2).inUse) (by decide +kernel)
  refine ⟨w, hrun, hres, ?_⟩
  rintro ⟨r, k', hexec, hneg⟩
  rw [hexec] at hres
  obtain ⟨hr, huse⟩ := Prod.mk.inj (Option.some.inj hres)
  have hoom : r.toInt < 0 := by
    rw [show r = SYSCALL_OUT_OF_MEMORY from hr]
    decide
  have hiff := (hneg hoom).inUse 2
  rw [hfree, show (k'.virtualFiles 2).inUse = 1#32 from huse] at hiff
  exact absurd (hiff.mp (by decide)) (by decide)

end MiqOSoft
