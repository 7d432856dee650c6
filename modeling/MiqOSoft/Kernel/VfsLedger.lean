import MiqOSoft.Kernel.VfsErrors

/-!
Where the bytes of a file come from.

* `FileKept`: a file keeps its entry and its bytes.  `FsWorld.step_fileKept`: this is what every
  call does to every file, unless it writes or `Empties` the file.
* `Ledger`: what was last stored at every offset of every file since it was emptied, beside the
  run; `FsLog.Accounts`: the ledger accounts for every readable byte.
* `FsWorld.StoresAll`: a write leaves no gap in its file and no byte behind when the file moves.
  `accounts_of_storesAll`: if every write of a run does so, the ledger accounts for every
  readable byte in every state.
* `gap_after_truncate`: a write behind the end of a truncated file shows old bytes.
-/

namespace MiqOSoft

open Machine Tiling Transition

/-! ### Files that a call leaves alone -/

/-- The entry `i` and, if it is in use, its readable bytes are the same. -/
structure FileKept (k k' : Kernel) (i : Fin 32) : Prop where
  file : k'.virtualFiles i = k.virtualFiles i
  mem : (k.virtualFiles i).inUse ≠ 0#32 → ∀ n < (k.virtualFiles i).size.toNat,
    k'.mem ((k.virtualFiles i).data + BitVec.ofNat 32 n)
      = k.mem ((k.virtualFiles i).data + BitVec.ofNat 32 n)

/-- The call empties the file `i`: it truncates or it creates it. -/
def Empties (k : Kernel) (i : Fin 32) : Call → Prop
  | .sysOpen (some path) flags =>
      findFile path k = some i ∧ hasFlag flags OPEN_TRUNCATE = true ∧ freeFd k ≠ none
        ∨ findFile path k = none ∧ hasFlag flags OPEN_CREATE = true ∧ freeSlot k = some i
  | _ => False

section Same

variable {L : Rodata} {k k' : Kernel} {owned : List Addr} {l : List Seg} {fd count flags : Word}
  {buffer : Addr} {path : CString} {i j : Fin 32}

lemma FileKept.refl (k : Kernel) (i : Fin 32) : FileKept k k i := ⟨rfl, fun _ _ _ => rfl⟩

/-- A readable byte of a file in use belongs to the clients of the heap. -/
lemma Inv.readable (hk : Inv L k owned l) (hi : (k.virtualFiles i).inUse ≠ 0#32) {n : ℕ}
    (hn : n < (k.virtualFiles i).size.toNat) :
    (k.virtualFiles i).data + BitVec.ofNat 32 n
      ∈ span (k.virtualFiles i).data (k.virtualFiles i).capacity.toNat := by
  have hsize := hk.tables.size_le i hi
  have hcap := (k.virtualFiles i).capacity.isLt
  exact add_ofNat_mem_span (by omega) (by omega)

/-- The heap handlers leave the files alone. -/
lemma FileKept.of_frame (hk : Inv L k owned l) (hfile : k'.virtualFiles i = k.virtualFiles i)
    (hframe : ∀ y, ClientByte l y → k'.mem y = k.mem y) : FileKept k k' i :=
  ⟨hfile, fun hi _ hn => hframe _ (hk.clientByte hi (hk.readable hi hn))⟩

/-- So do stores to memory of the callers. -/
lemma FileKept.of_callerOwned (hk : Inv L k owned l)
    (hfile : k'.virtualFiles i = k.virtualFiles i)
    (hmem : ∀ y, ¬CallerOwned L k y → k'.mem y = k.mem y) : FileKept k k' i :=
  ⟨hfile, fun hi _ hn => hmem _ fun howned => howned.notMem_file hk hi (hk.readable hi hn)⟩

/-- Opening a descriptor on the file `j` leaves the file `i` alone, unless it truncates it. -/
lemma openFd_fileKept
    (hno : i = j → ¬(hasFlag flags OPEN_TRUNCATE = true ∧ freeFd k ≠ none)) :
    FileKept k (openFd j flags k).2 i := by
  have hmem : (openFd j flags k).2.mem = k.mem := by
    rw [openFd]
    cases freeFd k with
    | none => rfl
    | some d =>
        dsimp only
        split_ifs <;> rfl
  refine ⟨?_, fun _ n _ => by rw [hmem]⟩
  rw [openFd_virtualFiles]
  split_ifs with hempties
  · exact Function.update_of_ne (fun hij => hno hij hempties) _ _
  · rfl

lemma FileKept.trans {k₁ : Kernel} (h : FileKept k k₁ i) (h' : FileKept k₁ k' i) :
    FileKept k k' i := by
  refine ⟨h'.file.trans h.file, fun hi n hn => ?_⟩
  have hlast := h'.mem (by rwa [h.file]) n (by rwa [h.file])
  rw [h.file] at hlast
  exact hlast.trans (h.mem hi n hn)

/-- Open, when it creates a file of a name that fits. -/
lemma sysHandlerOpen_creates (hk : Inv L k owned l) (hlen : path.chars.length < 64)
    (hfind : findFile path k = none) (hcreate : hasFlag flags OPEN_CREATE = true)
    (hslot : freeSlot k = some j) :
    ∃ t p h, (t j).inUse = 0#32 ∧ (∀ i ≠ j, t i = k.virtualFiles i)
      ∧ (∀ y, ClientByte l y → h.mem y = k.mem y)
      ∧ sysHandlerOpen L (some path) flags k = some (
        if p = NULL then
          (SYSCALL_OUT_OF_MEMORY, { k with
            heap := h
            virtualFiles := Function.update t j { t j with data := NULL }
            trace := .malloc 256#32 NULL :: k.trace })
        else openFd j flags (k.created t j p h)) := by
  have hinit : vfsInit L k = k := by rw [vfsInit, if_pos hk.initialized]
  obtain ⟨t, hcpy, hfree, hsame⟩ :=
    FileTable.strcpyName_of_le (show path.chars.length ≤ 80 by omega) (freeSlot_eq_some hslot)
  obtain ⟨p, h, l', hm, -, hframe, -⟩ := hk.models.malloc 256#32
  have hopen := sysHandlerOpen_create (L := L) (k := k) (by rwa [hinit]) hcreate
    (by rwa [hinit]) (by rwa [hinit]) (by rwa [hinit])
  rw [hinit] at hopen
  exact ⟨t, p, h, hfree, hsame, hframe, hopen⟩

/-- What opening a path can do: nothing, open a file that is there, or create one and open it. -/
lemma sysHandlerOpen_cases {r : Word} (hk : Inv L k owned l) (hlen : path.chars.length < 64)
    (hopen : sysHandlerOpen L (some path) flags k = some (r, k')) :
    k' = k ∨ (∃ j, findFile path k = some j ∧ openFd j flags k = (r, k'))
      ∨ ∃ j t p h, findFile path k = none ∧ hasFlag flags OPEN_CREATE = true
        ∧ freeSlot k = some j ∧ (∀ i ≠ j, t i = k.virtualFiles i)
        ∧ (∀ y, ClientByte l y → h.mem y = k.mem y)
        ∧ (if p = NULL then
            (SYSCALL_OUT_OF_MEMORY, { k with
              heap := h
              virtualFiles := Function.update t j { t j with data := NULL }
              trace := .malloc 256#32 NULL :: k.trace })
          else openFd j flags (k.created t j p h)) = (r, k') := by
  by_cases hnew : ∀ j, findFile path k = none → hasFlag flags OPEN_CREATE = true →
      freeSlot k ≠ some j
  · rcases sysHandlerOpen_of_not hk hnew with h | ⟨j, hfind, h⟩
    · exact Or.inl (Prod.mk.inj (Option.some.inj (hopen.symm.trans h))).2
    · exact Or.inr (Or.inl ⟨j, hfind, Option.some.inj (h.symm.trans hopen)⟩)
  push Not at hnew
  obtain ⟨j, hfind, hcreate, hslot⟩ := hnew
  obtain ⟨t, p, h, -, hsame, hframe, hcase⟩ :=
    sysHandlerOpen_creates hk hlen hfind hcreate hslot
  exact Or.inr (Or.inr ⟨j, t, p, h, hfind, hcreate, hslot, hsame, hframe,
    Option.some.inj (hcase.symm.trans hopen)⟩)

/-- Opening a path leaves a file alone that it does not empty. -/
lemma sysHandlerOpen_fileKept {r : Word} (hk : Inv L k owned l) (hlen : path.chars.length < 64)
    (hopen : sysHandlerOpen L (some path) flags k = some (r, k'))
    (hno : ¬Empties k i (.sysOpen (some path) flags)) : FileKept k k' i := by
  rw [Empties, not_or] at hno
  obtain ⟨hfound, hcreated⟩ := hno
  rcases sysHandlerOpen_cases hk hlen hopen with
    rfl | ⟨j, hfind, h⟩ | ⟨j, t, p, h, hfind, hcreate, hslot, hsame, hframe, heq⟩
  · exact .refl _ i
  · have hk' : (openFd j flags k).2 = k' := by rw [h]
    rw [← hk']
    refine openFd_fileKept ?_
    rintro rfl hempties
    exact hfound ⟨hfind, hempties⟩
  have hij : i ≠ j := by
    rintro rfl
    exact hcreated ⟨hfind, hcreate, hslot⟩
  have ht := hsame i hij
  split_ifs at heq with hp
  · obtain ⟨-, rfl⟩ := Prod.mk.inj heq
    have hfile : Function.update t j { t j with data := NULL } i = k.virtualFiles i :=
      (Function.update_of_ne hij _ _).trans ht
    exact .of_frame hk hfile hframe
  · have hfile : (k.created t j p h).virtualFiles i = k.virtualFiles i :=
      (Function.update_of_ne hij _ _).trans ht
    have hopened : FileKept (k.created t j p h) (openFd j flags (k.created t j p h)).2 i :=
      openFd_fileKept fun h => absurd h hij
    rw [heq] at hopened
    exact .trans (.of_frame hk hfile hframe) hopened

/-- Opening a file truncates it if there is a descriptor. -/
lemma sysHandlerOpen_truncates {r : Word} (hk : Inv L k owned l)
    (hopen : sysHandlerOpen L (some path) flags k = some (r, k')) (hfind : findFile path k = some i)
    (htrunc : hasFlag flags OPEN_TRUNCATE = true) (hfd : freeFd k ≠ none) :
    k'.virtualFiles i = { k.virtualFiles i with size := 0#32 } := by
  have hinit : vfsInit L k = k := by rw [vfsInit, if_pos hk.initialized]
  have hcase : sysHandlerOpen L (some path) flags k = some (openFd i flags k) := by
    simp only [sysHandlerOpen, hinit, hfind]
  have hk' : (openFd i flags k).2 = k' := by rw [Option.some.inj (hcase.symm.trans hopen)]
  rw [← hk', openFd_virtualFiles, if_pos ⟨htrunc, hfd⟩, Function.update_self]

/-- A file that opening a path has emptied is empty. -/
lemma sysHandlerOpen_empties {r : Word} (hk : Inv L k owned l) (hlen : path.chars.length < 64)
    (hopen : sysHandlerOpen L (some path) flags k = some (r, k'))
    (hi' : (k'.virtualFiles i).inUse ≠ 0#32) (hempties : Empties k i (.sysOpen (some path) flags)) :
    (k'.virtualFiles i).size = 0#32 := by
  rcases hempties with ⟨hfind, htrunc, hfd⟩ | ⟨hfind, hcreate, hslot⟩
  · rw [sysHandlerOpen_truncates hk hopen hfind htrunc hfd]
  · obtain ⟨t, p, h, hfree, -, -, hcase⟩ := sysHandlerOpen_creates hk hlen hfind hcreate hslot
    have heq := Option.some.inj (hcase.symm.trans hopen)
    split_ifs at heq with hp
    · obtain ⟨-, rfl⟩ := Prod.mk.inj heq
      simp only [Function.update_self] at hi'
      exact absurd hfree hi'
    · have hnew : ((k.created t i p h).virtualFiles i).size = 0#32 := by simp [Kernel.created]
      have hk' : (openFd i flags (k.created t i p h)).2 = k' := by rw [heq]
      rw [← hk', openFd_virtualFiles]
      split_ifs
      · rw [Function.update_self]
      · exact hnew

/-- A read leaves the files alone. -/
lemma sysHandlerRead_fileKept (hk : Inv L k owned l)
    (hbuf : ∀ d j, FdOn k fd d j → ∀ a ∈ span buffer
      ((toRead (k.virtualFiles j) (k.fileDescriptors d).position count).toNat % 65536),
        CallerOwned L k a) : FileKept k (sysHandlerRead fd buffer count k).2 i := by
  by_cases hno : buffer = NULL ∨ ∀ d j, ¬FdOn k fd d j
  · rw [sysHandlerRead_of_not hno]
    exact .refl k i
  push Not at hno
  obtain ⟨hb, d, j, hon⟩ := hno
  rw [sysHandlerRead_of_fdOn hon hb]
  refine .of_callerOwned hk rfl fun y hy => ?_
  exact copyBytes_of_notMem (by rw [toNat_len16]; omega) fun hin =>
    hy (hbuf d j hon y (by rwa [toNat_len16] at hin))

/-- **What a call that is no write does to a file**: it empties it or leaves it alone. -/
theorem FsWorld.step_fileKept {w w' : FsWorld} {c : Call} (hk : Inv L w.kernel w.owned l)
    (hc : w.Tame L c) (hs : FsWorld.step L w c = some w')
    (hwrite : ∀ fd buffer count, c ≠ .sysWrite fd buffer count)
    (hno : ¬Empties w.kernel i c) : FileKept w.kernel w'.kernel i := by
  obtain ⟨⟨r, k'⟩, hexec, rfl⟩ := Option.map_eq_some_iff.mp hs
  dsimp only
  cases c with
  | sysOpen path flags =>
      cases path with
      | none =>
          obtain ⟨-, rfl⟩ := Prod.mk.inj (Option.some.inj hexec)
          exact .refl _ i
      | some path => exact sysHandlerOpen_fileKept hk (hc path rfl) hexec hno
  | sysRead fd buffer count =>
      have hk' : (sysHandlerRead fd buffer count w.kernel).2 = k' :=
        congrArg Prod.snd (Option.some.inj hexec)
      rw [← hk']
      exact sysHandlerRead_fileKept hk hc
  | sysWrite fd buffer count => exact absurd rfl (hwrite fd buffer count)
  | sysClose fd =>
      have hk' : (sysHandlerClose fd w.kernel).2 = k' :=
        congrArg Prod.snd (Option.some.inj hexec)
      rw [← hk', sysHandlerClose]
      split_ifs <;> exact ⟨rfl, fun _ _ _ => rfl⟩
  | sysMalloc n =>
      obtain ⟨p, h, l', hm, hframe, -⟩ := hk.malloc n
      obtain ⟨-, rfl⟩ := Prod.mk.inj (Option.some.inj (hm.symm.trans hexec))
      exact .of_frame hk rfl hframe
  | sysFree p =>
      obtain ⟨h, l', hf, hframe, -⟩ := hk.free hc
      obtain ⟨-, rfl⟩ := Prod.mk.inj (Option.some.inj (hf.symm.trans hexec))
      exact .of_frame hk rfl hframe
  | store a b =>
      obtain ⟨-, rfl⟩ := Prod.mk.inj (Option.some.inj hexec)
      refine .of_callerOwned hk rfl fun y hy => Function.update_of_ne ?_ _ _
      rintro rfl
      exact hy hc

end Same

/-! ### Files that are written -/

/-- A write that ends at `needed` fits the buffer of the file `i`, or a larger one is there. -/
def HasSpace (k : Kernel) (i : Fin 32) (needed : Word) : Prop :=
  needed ≤ (k.virtualFiles i).capacity ∨ CanGrow k i needed

section Written

variable {L : Rodata} {k k₁ k' : Kernel} {owned : List Addr} {l l₁ : List Seg}
  {fd count needed : Word} {buffer : Addr} {d i j : Fin 32}

/-- A store into the file `j` leaves the other files alone. -/
lemma overlay_fileKept (hk : Inv L k owned l) (hj : (k.virtualFiles j).inUse ≠ 0#32)
    (hij : i ≠ j)
    (hfit : (k.fileDescriptors d).position.toNat + count.toNat % 65536
      ≤ (k.virtualFiles j).capacity.toNat) :
    FileKept k (overlay d j buffer count k) i := by
  refine ⟨overlay_other hij, fun hi n hn => ?_⟩
  rw [overlay_mem]
  refine copyBytes_of_notMem (by omega) fun hin => ?_
  exact Set.disjoint_left.mp (hk.disjoint_files hj hi (Ne.symm hij)) (span_add_subset hfit hin)
    (hk.readable hi hn)

/-- After a store that adds nothing to the file, or starts within the file and is copied as a whole,
every byte of the file was stored or was there before. -/
lemma overlay_sourced (hk : Inv L k owned l) (hi : (k.virtualFiles i).inUse ≠ 0#32)
    (hfit : (k.fileDescriptors d).position.toNat + count.toNat % 65536
      ≤ (k.virtualFiles i).capacity.toNat)
    (hgain : (k.fileDescriptors d).position + count ≤ (k.virtualFiles i).size
      ∨ (k.fileDescriptors d).position ≤ (k.virtualFiles i).size ∧ count.toNat < 65536)
    {n : ℕ} (hn : n < ((overlay d i buffer count k).virtualFiles i).size.toNat) :
    ((k.fileDescriptors d).position.toNat ≤ n
        ∧ n < (k.fileDescriptors d).position.toNat + count.toNat % 65536)
      ∨ n < (k.virtualFiles i).size.toNat
        ∧ (overlay d i buffer count k).mem
            (((overlay d i buffer count k).virtualFiles i).data + BitVec.ofNat 32 n)
          = k.mem ((k.virtualFiles i).data + BitVec.ofNat 32 n) := by
  have hb := (hk.tables.backed i hi).bounds hk.models
  have hsize := hk.tables.size_le i hi
  have hsum : ((k.fileDescriptors d).position + count).toNat
      ≤ (k.fileDescriptors d).position.toNat + count.toNat := by
    rw [BitVec.toNat_add]
    exact Nat.mod_le _ _
  rw [BitVec.le_def, BitVec.le_def] at hgain
  rw [overlay_size] at hn
  by_cases hin : (k.fileDescriptors d).position.toNat ≤ n
      ∧ n < (k.fileDescriptors d).position.toNat + count.toNat % 65536
  · exact Or.inl hin
  · have hlt : n < (k.virtualFiles i).size.toNat := by omega
    refine Or.inr ⟨hlt, ?_⟩
    rw [overlay_mem, overlay_data]
    refine copyBytes_of_notMem (by omega) fun hmem => ?_
    rw [mem_span] at hmem
    bv_omega

/-- A tame write fits the buffer that the growth of its file leads to. -/
lemma Grow.store_fits {d : Fin 32}
    (htame : (k.fileDescriptors d).position.toNat + count.toNat < 2 ^ 32
      ∨ (k.fileDescriptors d).position.toNat + count.toNat % 65536
        ≤ (k.virtualFiles i).capacity.toNat)
    (hout : Grow k l i ((k.fileDescriptors d).position + count) true k₁ l₁) :
    ((k.fileDescriptors d).position + count).toNat ≤ (k₁.virtualFiles i).capacity.toNat
      ∧ (k.fileDescriptors d).position.toNat + count.toNat % 65536
        ≤ (k₁.virtualFiles i).capacity.toNat := by
  have hsum : ((k.fileDescriptors d).position + count).toNat
      = ((k.fileDescriptors d).position.toNat + count.toNat) % 2 ^ 32 := BitVec.toNat_add _ _
  cases hout with
  | fits hle =>
      rw [BitVec.le_def] at hle
      omega
  | moved hlt hle =>
      rw [BitVec.lt_def] at hlt
      simp only [Kernel.moved, Function.update_self]
      omega

/-- What the growth of the file `i` leaves: the descriptors, the size and the other entries. -/
lemma Grow.kept (hout : Grow k l i needed true k₁ l₁) :
    k₁.fileDescriptors = k.fileDescriptors ∧ (k₁.virtualFiles i).size = (k.virtualFiles i).size
      ∧ (k₁.virtualFiles i).inUse = (k.virtualFiles i).inUse
      ∧ ∀ j ≠ i, k₁.virtualFiles j = k.virtualFiles j := by
  cases hout with
  | fits hle => exact ⟨rfl, rfl, rfl, fun _ _ => rfl⟩
  | moved hlt hle =>
      refine ⟨rfl, ?_, ?_, fun j hj => Function.update_of_ne hj _ _⟩
      all_goals simp only [Kernel.moved, Function.update_self]

lemma overlay_inUse :
    ((overlay d i buffer count k).virtualFiles i).inUse = (k.virtualFiles i).inUse := by
  rw [overlay_eq]
  simp [Kernel.setFile, Kernel.setFd, Kernel.memcpy]

/-- A file of less than 64 KiB takes its bytes along when it grows. -/
lemma Grow.carries (hout : Grow k l i needed true k₁ l₁)
    (hshort : CanGrow k i needed → (k.virtualFiles i).size.toNat < 65536) {n : ℕ}
    (hn : n < (k.virtualFiles i).size.toNat) :
    k₁.mem ((k₁.virtualFiles i).data + BitVec.ofNat 32 n)
      = k.mem ((k.virtualFiles i).data + BitVec.ofNat 32 n) := by
  rcases hout.canGrow with ⟨-, rfl⟩ | hgrow
  · rfl
  have hlt := hshort hgrow
  cases hout with
  | fits hle => rfl
  | @moved p h l' m _ hle hroom hfresh hp hm hused hcopy hframe =>
      simp only [Kernel.moved, Function.update_self]
      exact hcopy n (by rwa [Nat.mod_eq_of_lt hlt])

/-- The growth of a file leaves the others alone, if the word that the release writes is in
none of them. -/
lemma Grow.fileKept (hk : Inv L k owned l) (hout : Grow k l i needed true k₁ l₁)
    (hspare : CanGrow k i needed → SparesFiles k i) (hji : j ≠ i) : FileKept k k₁ j := by
  refine ⟨hout.kept.2.2.2 j hji, fun hj n hn => ?_⟩
  rcases hout.canGrow with ⟨-, rfl⟩ | hgrow
  · rfl
  have hspare := hspare hgrow
  cases hout with
  | fits hle => rfl
  | @moved p h l' m _ hle hroom hfresh hp hm hused hcopy hframe =>
      refine hframe _ (hk.clientByte hj (hk.readable hj hn)) fun hin => ?_
      exact hspare _ hin j hji hj (add_ofNat_mem_span (by omega)
        (by have := (k.virtualFiles j).size.isLt; omega))

end Written

/-! ### The ledger -/

instance {k : Kernel} {fd : Word} {d i : Fin 32} : Decidable (FdOn k fd d i) :=
  inferInstanceAs (Decidable (_ ∧ _))

/-- The call stores at offset `n` of the file `i`: it is a write that was carried out, so that the
position has moved on, and the offset is among the bytes copied. -/
def StoresAt (k k' : Kernel) (i : Fin 32) (n : ℕ) : Call → Prop
  | .sysWrite fd _ count => ∃ d, FdOn k fd d i
      ∧ (k'.fileDescriptors d).position ≠ (k.fileDescriptors d).position
      ∧ (k.fileDescriptors d).position.toNat ≤ n
      ∧ n < (k.fileDescriptors d).position.toNat + count.toNat % 65536
  | _ => False

instance {k k' : Kernel} {i : Fin 32} {n : ℕ} (c : Call) : Decidable (StoresAt k k' i n c) := by
  cases c <;> unfold StoresAt <;> infer_instance

instance {k : Kernel} {i : Fin 32} (c : Call) : Decidable (Empties k i c) :=
  match c with
  | .sysOpen (some _) _ => inferInstanceAs (Decidable (_ ∨ _))
  | .sysOpen none _ | .sysRead _ _ _ | .sysWrite _ _ _ | .sysClose _ | .sysMalloc _ | .sysFree _
  | .store _ _ => isFalse id

/-- What was last stored at every offset of every file since the file was emptied, or was there at
the start. -/
abbrev Ledger := Fin 32 → ℕ → Option Byte

/-- The ledger at the start: the readable bytes of the files. -/
def Ledger.start (k : Kernel) : Ledger := fun i n =>
  if (k.virtualFiles i).inUse ≠ 0#32 ∧ n < (k.virtualFiles i).size.toNat then
    some (k.mem ((k.virtualFiles i).data + BitVec.ofNat 32 n))
  else none

/-- The ledger after a call that leads from `k` to `k'`. -/
def Ledger.record (g : Ledger) (k : Kernel) (c : Call) (k' : Kernel) : Ledger := fun i n =>
  if Empties k i c then none
  else if StoresAt k k' i n c then some (k'.mem ((k'.virtualFiles i).data + BitVec.ofNat 32 n))
  else g i n

/-- The system with the ledger beside it. -/
structure FsLog where
  world : FsWorld
  ledger : Ledger

namespace FsLog

/-- The state after `syscall_initialize`. -/
def boot (L : Rodata) (k : Kernel) : FsLog :=
  ⟨FsWorld.boot L k, Ledger.start (FsWorld.boot L k).kernel⟩

/-- One call, which is recorded. -/
def step (L : Rodata) (s : FsLog) (c : Call) : Option FsLog :=
  (FsWorld.step L s.world c).map fun w => ⟨w, s.ledger.record s.world.kernel c w.kernel⟩

/-- Every readable byte of a file was there at the start, or a write stored it at its offset after
the file was last emptied. -/
def Accounts (s : FsLog) : Prop :=
  ∀ i, (s.world.kernel.virtualFiles i).inUse ≠ 0#32 →
    ∀ n < (s.world.kernel.virtualFiles i).size.toNat,
      s.ledger i n = some (s.world.kernel.mem
        ((s.world.kernel.virtualFiles i).data + BitVec.ofNat 32 n))

end FsLog

/-- The write stores all that its file gains: if it has space, it ends within the file, or starts
within the file and is shorter than 64 KiB; and if the file moves for it, the file is shorter
than 64 KiB and its release writes in no other file. -/
def FsWorld.StoresAll (w : FsWorld) : Call → Prop
  | .sysWrite fd buffer count => ∀ d i, FdOn w.kernel fd d i →
      hasFlag (w.kernel.fileDescriptors d).flags OPEN_WRITE = true → buffer ≠ NULL →
        count ≠ 0#32 →
          HasSpace w.kernel i ((w.kernel.fileDescriptors d).position + count) →
            ((w.kernel.fileDescriptors d).position + count ≤ (w.kernel.virtualFiles i).size
              ∨ (w.kernel.fileDescriptors d).position ≤ (w.kernel.virtualFiles i).size
                ∧ count.toNat < 65536)
            ∧ (CanGrow w.kernel i ((w.kernel.fileDescriptors d).position + count) →
                (w.kernel.virtualFiles i).size.toNat < 65536 ∧ SparesFiles w.kernel i)
  | _ => True

section Ledger

variable {L : Rodata} {w w' : FsWorld} {c : Call} {owned : List Addr} {l : List Seg} {i : Fin 32}

/-- **What a write that stores all does to a file**: every readable byte was stored by it, or was
there before. -/
theorem FsWorld.write_sourced {fd count : Word} {buffer : Addr} {k' : Kernel} {r : Word}
    (hk : Inv L w.kernel w.owned l) (hc : w.Tame L (.sysWrite fd buffer count))
    (hall : w.StoresAll (.sysWrite fd buffer count))
    (hwrite : sysHandlerWrite fd buffer count w.kernel = some (r, k'))
    (hi' : (k'.virtualFiles i).inUse ≠ 0#32) :
    (w.kernel.virtualFiles i).inUse ≠ 0#32 ∧ ∀ n < (k'.virtualFiles i).size.toNat,
      StoresAt w.kernel k' i n (.sysWrite fd buffer count)
        ∨ n < (w.kernel.virtualFiles i).size.toNat
          ∧ k'.mem ((k'.virtualFiles i).data + BitVec.ofNat 32 n)
            = w.kernel.mem ((w.kernel.virtualFiles i).data + BitVec.ofNat 32 n) := by
  by_cases hno : buffer = NULL ∨ count = 0#32 ∨
    ∀ d i, FdOn w.kernel fd d i → hasFlag (w.kernel.fileDescriptors d).flags OPEN_WRITE = false
  · obtain ⟨r', hr'⟩ := sysHandlerWrite_of_not hno
    obtain ⟨-, rfl⟩ := Prod.mk.inj (Option.some.inj (hr'.symm.trans hwrite))
    exact ⟨hi', fun n hn => Or.inr ⟨hn, rfl⟩⟩
  push Not at hno
  obtain ⟨hb, hc0, d, j, hon, hflag⟩ := hno
  rw [ne_eq, Bool.not_eq_false] at hflag
  obtain ⟨-, hj, -⟩ := hk.fdOn hon
  obtain ⟨ok, k₁, l₁, hcase, hout, hinv₁⟩ := sysHandlerWrite_cases hk hon hb hc0 hflag
  have heq := Option.some.inj (hcase.symm.trans hwrite)
  cases ok with
  | false =>
      obtain ⟨-, rfl⟩ := Prod.mk.inj heq
      cases hout with
      | refused hlt hroom => exact ⟨hi', fun n hn => Or.inr ⟨hn, rfl⟩⟩
  | true =>
      obtain ⟨-, rfl⟩ := Prod.mk.inj heq
      obtain ⟨hgain, hgrow⟩ := hall d j hon hflag hb hc0 (hout.canGrow.imp_left And.left)
      obtain ⟨hfds, hsize, -, -⟩ := hout.kept
      obtain ⟨-, hfit⟩ := hout.store_fits (hc d j hon hflag)
      have hon₁ : FdOn k₁ fd d j := by rwa [FdOn, hfds]
      obtain ⟨-, hj₁, -⟩ := hinv₁.fdOn hon₁
      rw [← hfds] at hfit hgain
      rw [← hsize] at hgain
      by_cases hij : i = j
      · subst hij
        refine ⟨hj, fun n hn => ?_⟩
        rcases overlay_sourced hinv₁ hj₁ hfit hgain hn with hin | ⟨hlt, hmem⟩
        · have hmoved : ((overlay d i buffer count k₁).fileDescriptors d).position
              ≠ (w.kernel.fileDescriptors d).position := by
            rw [overlay_position, hfds]
            bv_omega
          rw [hfds] at hin
          exact Or.inl ⟨d, hon, hmoved, hin⟩
        · rw [hsize] at hlt
          exact Or.inr ⟨hlt, hmem.trans (hout.carries (fun h => (hgrow h).1) hlt)⟩
      · have hsame : FileKept w.kernel (overlay d j buffer count k₁) i :=
          (hout.fileKept hk (fun h => (hgrow h).2) hij).trans
            (overlay_fileKept hinv₁ hj₁ hij hfit)
        rw [hsame.file] at hi' ⊢
        exact ⟨hi', fun n hn => Or.inr ⟨hn, hsame.mem hi' n hn⟩⟩

/-- A file that a call empties is empty. -/
lemma FsWorld.step_empties (hk : Inv L w.kernel w.owned l) (hc : w.Tame L c)
    (hs : FsWorld.step L w c = some w') (hi' : (w'.kernel.virtualFiles i).inUse ≠ 0#32)
    (hempties : Empties w.kernel i c) : (w'.kernel.virtualFiles i).size.toNat = 0 := by
  obtain ⟨⟨r, k'⟩, hexec, rfl⟩ := Option.map_eq_some_iff.mp hs
  match c, hempties with
  | .sysOpen (some path) flags, hempties =>
      rw [sysHandlerOpen_empties hk (hc path rfl) hexec hi' hempties]
      rfl

/-- A call that stores all keeps the ledger sound. -/
theorem FsLog.step_accounts {s s' : FsLog} (hsound : s.world.Sound L) (hs : s.Accounts)
    (hc : s.world.Tame L c) (hall : s.world.StoresAll c) (hstep : FsLog.step L s c = some s') :
    s'.Accounts := by
  obtain ⟨l, hk⟩ := hsound
  obtain ⟨w', hw', rfl⟩ := Option.map_eq_some_iff.mp hstep
  intro i hi' n hn
  dsimp only at hi' hn ⊢
  rw [Ledger.record]
  by_cases hempties : Empties s.world.kernel i c
  · rw [FsWorld.step_empties hk hc hw' hi' hempties] at hn
    exact absurd hn (Nat.not_lt_zero n)
  rw [if_neg hempties]
  obtain ⟨hi, hsourced⟩ : (s.world.kernel.virtualFiles i).inUse ≠ 0#32 ∧
      (StoresAt s.world.kernel w'.kernel i n c
        ∨ n < (s.world.kernel.virtualFiles i).size.toNat
          ∧ w'.kernel.mem ((w'.kernel.virtualFiles i).data + BitVec.ofNat 32 n)
            = s.world.kernel.mem ((s.world.kernel.virtualFiles i).data + BitVec.ofNat 32 n)) := by
    by_cases hwrite : ∃ fd buffer count, c = .sysWrite fd buffer count
    · obtain ⟨fd, buffer, count, rfl⟩ := hwrite
      obtain ⟨⟨r, k'⟩, hexec, rfl⟩ := Option.map_eq_some_iff.mp hw'
      obtain ⟨hi, hsourced⟩ := FsWorld.write_sourced hk hc hall hexec hi'
      exact ⟨hi, hsourced n hn⟩
    · push Not at hwrite
      have hsame := FsWorld.step_fileKept hk hc hw' hwrite hempties
      rw [hsame.file] at hi' hn ⊢
      exact ⟨hi', Or.inr ⟨hn, hsame.mem hi' n hn⟩⟩
  split_ifs with hstores
  · rfl
  · obtain ⟨hlt, hmem⟩ := hsourced.resolve_left hstores
    rw [hmem]
    exact hs i hi n hlt

/-- At the start the ledger holds what the installed files hold. -/
lemma FsLog.boot_accounts (k : Kernel) : (FsLog.boot L k).Accounts :=
  fun _ hi _ hn => if_pos ⟨hi, hn⟩

end Ledger

/-- A run of the system with its ledger. -/
abbrev LogRun (L : Rodata) (k : Kernel) (ok : FsLog → Call → Prop) (cs : List Call) (s : FsLog) :
    Prop :=
  Run (FsLog.step L) (fun s c => s.world.Tame L c ∧ ok s c) (FsLog.boot L k) cs s

section LogRun

variable {L : Rodata} {k : Kernel} {ok : FsLog → Call → Prop} {cs : List Call} {s : FsLog}
  {c : Call}

/-- The ledger does not disturb the run. -/
lemma LogRun.toRun (hrun : LogRun L k ok cs s) : FsRun L k cs s.world := by
  refine hrun.map FsLog.world fun s c s' hok hstep => ⟨hok.1, ?_⟩
  obtain ⟨w', hw', rfl⟩ := Option.map_eq_some_iff.mp hstep
  exact hw'

/-- A tame call that is permitted carries a run on. -/
lemma LogRun.extend (hk : k.Cold) (hrun : LogRun L k ok cs s) (hc : s.world.Tame L c)
    (hok : ok s c) : ∃ s', LogRun L k ok (cs ++ [c]) s' := by
  obtain ⟨w', hs, -⟩ := hrun.toRun.next hk hc
  exact ⟨_, hrun.snoc ⟨hc, hok⟩ (Option.map_eq_some_iff.mpr ⟨w', hs, rfl⟩)⟩

/-- The state at the end of a run is found by evaluating the calls. -/
lemma LogRun.eval {β : Type*} (hrun : LogRun L k ok cs s) (f : FsLog → β) {b : β}
    (h : (cs.foldlM (FsLog.step L) (FsLog.boot L k)).map f = some b) : f s = b := by
  rw [hrun.foldlM_eq] at h
  exact Option.some.inj h

end LogRun

/-- **Where the bytes of files come from**: in a run whose writes store all that their files gain,
every readable byte of every file was there at the start, or was stored at its offset by a write
after the file was last emptied. -/
theorem accounts_of_storesAll {L : Rodata} {k : Kernel} (hk : k.Cold) {cs : List Call} {s : FsLog}
    (hrun : LogRun L k (fun s c => s.world.StoresAll c) cs s) : s.Accounts := by
  refine (Run.invariant (P := fun s : FsLog => s.world.Sound L ∧ s.Accounts)
    (fun s c s' hs hc hstep => ?_) hrun ⟨FsWorld.boot_sound hk, FsLog.boot_accounts k⟩).2
  refine ⟨?_, FsLog.step_accounts hs.1 hs.2 hc.1 hc.2 hstep⟩
  obtain ⟨w', hw', rfl⟩ := Option.map_eq_some_iff.mp hstep
  exact FsWorld.sound_of_step hs.1 hc.1 hw'

/-- A run that creates a file. -/
lemma exists_logRun_open (ok : FsLog → Call → Prop)
    (hok : ∀ s, ok s (.sysOpen (some sampleName) 6#32)) :
    ∃ s, LogRun sampleRodata blankKernel ok [.sysOpen (some sampleName) 6#32] s :=
  LogRun.extend blankKernel_cold (Run.nil _) (tame_open 6#32 (by decide)) (hok _)

/-- The ledger accounts for five bytes written to a new file. -/
theorem accounts_of_storesAll_create : ∃ s, LogRun sampleRodata blankKernel
    (fun s c => s.world.StoresAll c)
    [.sysOpen (some sampleName) 6#32, .sysWrite 3#32 0x300000#32 5#32] s ∧ s.Accounts := by
  obtain ⟨s₁, h₁⟩ := exists_logRun_open (fun s c => s.world.StoresAll c) fun _ => trivial
  have hon : FdOn s₁.world.kernel 3#32 3 2 := h₁.toRun.fdOn rfl (by decide +kernel)
  have hdata : ((s₁.world.kernel.fileDescriptors 3).position,
      (s₁.world.kernel.virtualFiles 2).capacity) = (0#32, 256#32) :=
    h₁.toRun.eval (fun w => ((w.kernel.fileDescriptors 3).position,
      (w.kernel.virtualFiles 2).capacity)) (by decide +kernel)
  obtain ⟨hpos, hcap⟩ := Prod.mk.inj hdata
  obtain ⟨s, hs⟩ := h₁.extend blankKernel_cold
    (h₁.toRun.tame_write 3#32 5#32 0x300000#32 blankKernel_cold (by decide)) (by
      intro d i hon' _ _ _ _
      obtain ⟨rfl, rfl⟩ := hon.unique hon'
      rw [hpos]
      refine ⟨Or.inr ⟨BitVec.le_def.mpr (Nat.zero_le _), by decide⟩, fun hgrow => ?_⟩
      have hlt := hgrow.1
      rw [hcap] at hlt
      exact absurd hlt (by decide))
  exact ⟨s, hs, accounts_of_storesAll blankKernel_cold hs⟩

/-- A file of five bytes is truncated through a second descriptor, and a byte is written through
the first: the five bytes can be read again, and no write has stored them since. -/
theorem gap_after_truncate : ∃ s, LogRun sampleRodata blankKernel (fun _ _ => True)
    [.sysOpen (some sampleName) 6#32, .sysWrite 3#32 0x300000#32 5#32,
      .sysOpen (some sampleName) 0x0A#32, .sysWrite 3#32 0x300000#32 1#32] s ∧ ¬s.Accounts := by
  obtain ⟨s₁, h₁⟩ := exists_logRun_open (fun _ _ => True) fun _ => trivial
  obtain ⟨s₂, h₂⟩ := h₁.extend blankKernel_cold
    (h₁.toRun.tame_write 3#32 5#32 0x300000#32 blankKernel_cold (by decide)) trivial
  obtain ⟨s₃, h₃⟩ := h₂.extend blankKernel_cold
    (tame_open 0x0A#32 (show sampleName.chars.length < 64 by decide)) trivial
  obtain ⟨s, hs⟩ := h₃.extend blankKernel_cold
    (h₃.toRun.tame_write 3#32 1#32 0x300000#32 blankKernel_cold (by decide)) trivial
  have hrun : LogRun sampleRodata blankKernel (fun _ _ => True)
    [.sysOpen (some sampleName) 6#32, .sysWrite 3#32 0x300000#32 5#32,
      .sysOpen (some sampleName) 0x0A#32, .sysWrite 3#32 0x300000#32 1#32] s := hs
  have hres : ((s.world.kernel.virtualFiles 2).inUse, (s.world.kernel.virtualFiles 2).size,
      s.ledger 2 0) = (1#32, 6#32, none) :=
    hrun.eval (fun s => ((s.world.kernel.virtualFiles 2).inUse,
      (s.world.kernel.virtualFiles 2).size, s.ledger 2 0)) (by decide +kernel)
  simp only [Prod.mk.injEq] at hres
  obtain ⟨huse, hsize, hledger⟩ := hres
  refine ⟨s, hrun, fun hacc => ?_⟩
  have h0 := hacc 2 (by rw [huse]; decide) 0 (by rw [hsize]; decide)
  rw [hledger] at h0
  cases h0

end MiqOSoft
