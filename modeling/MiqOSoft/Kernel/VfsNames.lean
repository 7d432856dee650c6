import MiqOSoft.Kernel.VfsErrors

/-!
Opening and creating files by paths of any length.

* `FileTable.Answers`: the lookup of a path stops at an entry.  What an entry answers to depends
  on its bytes up to the length of the path (`FileTable.answers_iff`).
* `KeepsToSlot`: open changes no entry of the file table but the one it opens or creates, and
  the path leads to this entry again.
* `NameFits`: what this asks of the path.  `keepsToSlot_iff`: the two are equivalent in every
  state, and `nameFits_of_lt`: a path shorter than the name field always fits.
* `long_name_lost`: a path of 64 characters is not found again.
-/

namespace MiqOSoft

open Machine Tiling Transition

/-! ### What an entry answers to -/

/-- If two tests agree except at `i`, and `i` is the first hit of one of them or it has none, then
`i` is the first hit of the other as soon as it is a hit. -/
lemma find?_eq_some_iff_of_agree {α : Type*} {p q : α → Bool} {l : List α} {i : α} (hi : i ∈ l)
    (h : ∀ j ≠ i, q j = p j) (hp : l.find? p = some i ∨ l.find? p = none) :
    l.find? q = some i ↔ q i = true := by
  refine ⟨List.find?_some, fun hq => ?_⟩
  induction l with
  | nil => cases hi
  | cons j l ih =>
      by_cases hj : j = i
      · subst hj
        exact List.find?_cons_of_pos hq
      · have hpj : p j = false := by
          cases hpj : p j with
          | false => rfl
          | true =>
              rw [List.find?_cons_of_pos hpj] at hp
              rcases hp with heq | heq
              · exact absurd (Option.some.inj heq) hj
              · cases heq
        have hqj : ¬q j = true := by simp [h j hj, hpj]
        rw [List.find?_cons_of_neg hqj]
        rw [List.find?_cons_of_neg (by simp [hpj])] at hp
        exact ih ((List.mem_cons.mp hi).resolve_left (Ne.symm hj)) hp

lemma VFile.byte_data (f : VFile) {n : ℕ} (hn : n < 4) : f.byte (64 + n) = wordByte f.data n := by
  rw [byte, dif_neg (by omega), if_pos (by omega), Nat.add_sub_cancel_left]

/-- The size of a file is not among its first 68 bytes. -/
lemma VFile.byte_resize (f : VFile) (size : Word) {n : ℕ} (hn : n < 68) :
    ({ f with size := size } : VFile).byte n = f.byte n := by
  simp only [byte, if_pos hn]

/-- The size of an empty file puts a NUL behind its data pointer. -/
lemma VFile.byte_size {f : VFile} (hf : f.size = 0#32) : f.byte 68 = 0#8 := by
  simp [VFile.byte, hf, wordByte]

namespace FileTable

/-- The lookup of a path stops at entry `i`, if it comes so far. -/
def Answers (t : FileTable) (i : Fin 32) (path : CString) : Prop :=
  (t i).inUse ≠ 0#32 ∧ strcmp (t.nameAt i) path.chars = 0

variable {t t' : FileTable} {i j : Fin 32} {path : CString}

instance : Decidable (t.Answers i path) := inferInstanceAs (Decidable (_ ∧ _))

/-- An entry answers to the characters that its bytes begin with. -/
theorem answers_iff : t.Answers i path ↔
    (t i).inUse ≠ 0#32 ∧ ∀ n ≤ path.chars.length, t.byte (84 * i + n) = path.byte n :=
  and_congr_right fun _ => strcmp_eq_zero_iff_forall path.noNul

/-- A path shorter than an entry is compared with that entry only. -/
lemma answers_congr (hlen : path.chars.length < 84) (h : t' j = t j) :
    t'.Answers j path ↔ t.Answers j path := by
  rw [answers_iff, answers_iff, h]
  refine and_congr_right fun _ => forall_congr' fun n => forall_congr' fun hn => ?_
  rw [byte_add j (by omega), byte_add j (by omega), h]

/-- An empty file answers to at most 68 characters: its size ends every longer name. -/
lemma length_le_of_answers (h : t.Answers i path) (hsize : (t i).size = 0#32) :
    path.chars.length ≤ 68 := by
  by_contra hlong
  have hbyte := (answers_iff.mp h).2 68 (by omega)
  refine path.byte_ne_zero (not_le.mp hlong) (hbyte.symm.trans ?_)
  rw [byte_add i (by decide)]
  exact VFile.byte_size hsize

/-- The copy of a path leaves the other entries exactly if its characters behind the entry are
those that are there already. -/
theorem strcpyName_others_iff (h : t.strcpyName i path = some t') :
    (∀ j ≠ i, t' j = t j) ↔ ∀ n, 84 ≤ n → n ≤ path.chars.length →
      path.byte n = t.byte (84 * i + n) := by
  have hfit : 84 * (i : ℕ) + path.chars.length < 2688 := by
    rw [strcpyName] at h
    split_ifs at h with hfit
    exact hfit
  constructor
  · intro hsame n h84 hn
    have hcopy := byte_strcpyName h (show 84 * (i : ℕ) + n < 2688 by omega)
    rw [if_pos ⟨by omega, by omega⟩, Nat.add_sub_cancel_left] at hcopy
    rw [← hcopy]
    have hlt : (84 * (i : ℕ) + n) / 84 < 32 := by omega
    have hne : (⟨(84 * (i : ℕ) + n) / 84, hlt⟩ : Fin 32) ≠ i := by
      intro heq
      have := congrArg Fin.val heq
      dsimp only at this
      omega
    simp only [byte, hlt, ↓reduceDIte, hsame _ hne]
  · intro hbytes j hj
    have hij : (j : ℕ) ≠ i := fun heq => hj (Fin.ext heq)
    refine ext_byte fun o ho => ?_
    rw [byte_strcpyName h (by omega)]
    split_ifs with hin
    · rw [hbytes _ (by omega) (by omega)]
      congr 1
      omega
    · rfl

end FileTable

/-! ### Lookups and new descriptors -/

section Open

variable {L : Rodata} {k k' : Kernel} {path : CString} {flags : Word} {i : Fin 32}
  {t : FileTable} {p : Addr} {h : Heap}

lemma findFile_congr (hfiles : k'.virtualFiles = k.virtualFiles) :
    findFile path k' = findFile path k := by
  simp only [findFile, hfiles]

lemma answers_of_findFile (hfind : findFile path k = some i) : k.virtualFiles.Answers i path := by
  have hhit := List.find?_some hfind
  exact of_decide_eq_true hhit

/-- A lookup that found the entry `i` or nothing finds `i` after a change of `i`, if it answers. -/
lemma findFile_iff_answers (hsame : ∀ j ≠ i, k'.virtualFiles j = k.virtualFiles j)
    (hlen : path.chars.length < 84) (hfind : findFile path k = some i ∨ findFile path k = none) :
    findFile path k' = some i ↔ k'.virtualFiles.Answers i path := by
  refine (find?_eq_some_iff_of_agree (List.mem_finRange i) (fun j hj => ?_) hfind).trans
    decide_eq_true_iff
  exact decide_eq_decide.mpr (FileTable.answers_congr hlen (hsame j hj))

/-- Opening a descriptor on an empty file leaves the file table. -/
lemma openFd_virtualFiles_of_empty (hempty : (k.virtualFiles i).size = 0#32) :
    (openFd i flags k).2.virtualFiles = k.virtualFiles := by
  rw [openFd_virtualFiles, ← hempty]
  split_ifs
  · exact Function.update_eq_self i k.virtualFiles
  · rfl

end Open

/-! ### Paths of any length -/

/-- The entry that open uses for a path: the one that answers to it, else a free one. -/
def slotFor (path : CString) (k : Kernel) : Option (Fin 32) := (findFile path k).or (freeSlot k)

/-- Open returns, changes no entry of the file table but its own, and if it succeeds every later
lookup of the path in this file table finds this entry. -/
def KeepsToSlot (L : Rodata) (path : CString) (flags : Word) (k : Kernel) : Prop :=
  ∃ r k', sysHandlerOpen L (some path) flags k = some (r, k')
    ∧ (∀ j, slotFor path (vfsInit L k) ≠ some j →
        k'.virtualFiles j = (vfsInit L k).virtualFiles j)
    ∧ (0 ≤ r.toInt → ∃ i, slotFor path (vfsInit L k) = some i
        ∧ ∀ k'', k''.virtualFiles = k'.virtualFiles → findFile path k'' = some i)

/-- The path in front of the size of an entry whose data pointer is `p`: what does not fit the
name field is spelled by the bytes of the pointer. -/
def SpellsPointer (path : CString) (p : Addr) : Prop :=
  path.chars.length ≤ 68
    ∧ ∀ n < 4, 64 + n ≤ path.chars.length → path.byte (64 + n) = wordByte p n

/-- The path fits the entry that open uses for it.  A file that is truncated has at most 68
characters in its name.  For a file that is created, the copy of the name stays in the table
and leaves the entries behind as they are; the request for its buffer returns, and if both the
buffer and a descriptor are there, the name field and the new pointer spell the path. -/
def NameFits (path : CString) (flags : Word) (k : Kernel) : Prop :=
  match findFile path k with
  | some _ => hasFlag flags OPEN_TRUNCATE = true → freeFd k ≠ none → path.chars.length ≤ 68
  | none => ∀ i, freeSlot k = some i →
      84 * (i : ℕ) + path.chars.length < 2688
        ∧ (∀ n, 84 ≤ n → n ≤ path.chars.length →
            path.byte n = k.virtualFiles.byte (84 * i + n))
        ∧ ∃ p h, sysHandlerMalloc 256#32 k.heap = some (p, h)
          ∧ (p ≠ NULL → freeFd k ≠ none → SpellsPointer path p)

section Fits

variable {L : Rodata} {k : Kernel} {path : CString} {flags : Word} {i : Fin 32}
  {t : FileTable} {p : Addr} {h : Heap}

lemma spellsPointer_of_lt (hlen : path.chars.length < 64) : SpellsPointer path p :=
  ⟨by omega, fun n _ hn => absurd hn (by omega)⟩

lemma openFd_nonneg : 0 ≤ (openFd i flags k).1.toInt ↔ freeFd k ≠ none := by
  rw [← not_lt]
  exact not_congr openFd_neg

/-- A file that was created answers to its path exactly if the path is spelled. -/
theorem created_answers_iff (hcpy : k.virtualFiles.strcpyName i path = some t) :
    (k.created t i p h).virtualFiles.Answers i path ↔ SpellsPointer path p := by
  have hfile : (k.created t i p h).virtualFiles i = { t i with
      data := p, size := 0#32, capacity := 256#32, isDirectory := 0#32, inUse := 1#32 } :=
    Function.update_self ..
  constructor
  · intro hans
    have hlen := FileTable.length_le_of_answers hans (by rw [hfile])
    refine ⟨hlen, fun n hn hle => ?_⟩
    have hbyte := (FileTable.answers_iff.mp hans).2 (64 + n) hle
    rw [← hbyte, FileTable.byte_add i (by omega), hfile, VFile.byte_data _ hn]
  · rintro ⟨hlen, hptr⟩
    have huse : ((k.created t i p h).virtualFiles i).inUse ≠ 0#32 := by
      rw [hfile]
      exact of_decide_eq_true rfl
    refine FileTable.answers_iff.mpr ⟨huse, fun n hn => ?_⟩
    rw [FileTable.byte_add i (by omega), hfile]
    rcases lt_or_ge n 64 with h64 | h64
    · have hcopy := FileTable.byte_strcpyName hcpy (show 84 * (i : ℕ) + n < 2688 by omega)
      rw [if_pos ⟨by omega, by omega⟩, Nat.add_sub_cancel_left,
        FileTable.byte_add i (by omega)] at hcopy
      rw [← hcopy]
      simp only [VFile.byte, dif_pos h64]
    rcases lt_or_ge n 68 with h68 | h68
    · obtain ⟨m, rfl⟩ := Nat.exists_eq_add_of_le h64
      rw [VFile.byte_data _ (by omega), hptr m (by omega) hn]
    · obtain rfl : n = 68 := by omega
      rw [path.byte_of_length_le (by omega)]
      exact VFile.byte_size rfl

/-- What open keeps to, read off its result. -/
lemma keepsToSlot_of_open {res : Word × Kernel}
    (hopen : sysHandlerOpen L (some path) flags k = some res)
    (hslot : slotFor path (vfsInit L k) = some i) :
    KeepsToSlot L path flags k ↔
      (∀ j ≠ i, res.2.virtualFiles j = (vfsInit L k).virtualFiles j)
        ∧ (0 ≤ res.1.toInt → findFile path res.2 = some i) := by
  have hne : ∀ j, slotFor path (vfsInit L k) ≠ some j ↔ j ≠ i := by
    intro j
    rw [hslot, ne_eq, Option.some.injEq]
    exact not_congr eq_comm
  constructor
  · rintro ⟨r, k', hr, hsame, hfinds⟩
    obtain rfl := Option.some.inj (hopen.symm.trans hr)
    refine ⟨fun j hj => hsame j ((hne j).mpr hj), fun hpos => ?_⟩
    obtain ⟨i', hi', hfind⟩ := hfinds hpos
    obtain rfl := Option.some.inj (hslot.symm.trans hi')
    exact hfind _ rfl
  · rintro ⟨hsame, hfinds⟩
    refine ⟨res.1, res.2, hopen, fun j hj => hsame j ((hne j).mp hj), fun hpos => ⟨i, hslot, ?_⟩⟩
    intro k'' hfiles
    rw [findFile_congr hfiles]
    exact hfinds hpos

/-- A path that led to no file leads to the one that was created for it, if it is spelled. -/
lemma findFile_created_iff (hfind : findFile path k = none)
    (hcpy : k.virtualFiles.strcpyName i path = some t)
    (hsame : ∀ j ≠ i, t j = k.virtualFiles j) :
    findFile path (k.created t i p h) = some i ↔ SpellsPointer path p := by
  rw [← created_answers_iff (h := h) hcpy]
  have hothers : ∀ j ≠ i, (k.created t i p h).virtualFiles j = k.virtualFiles j :=
    fun j hj => (Function.update_of_ne hj _ _).trans (hsame j hj)
  constructor
  · exact answers_of_findFile
  · intro hans
    have hlen := FileTable.length_le_of_answers hans (by simp [Kernel.created])
    exact (findFile_iff_answers hothers (by omega) (Or.inr hfind)).mpr hans

/-- Opening a file that is there. -/
lemma keepsToSlot_found (hfind : findFile path (vfsInit L k) = some i) :
    KeepsToSlot L path flags k ↔ NameFits path flags (vfsInit L k) := by
  have hopen : sysHandlerOpen L (some path) flags k = some (openFd i flags (vfsInit L k)) := by
    simp only [sysHandlerOpen, hfind]
  have hslot : slotFor path (vfsInit L k) = some i := by rw [slotFor, hfind]; rfl
  have hsame : ∀ j ≠ i, (openFd i flags (vfsInit L k)).2.virtualFiles j
      = (vfsInit L k).virtualFiles j := by
    intro j hj
    rw [openFd_virtualFiles]
    split_ifs
    · exact Function.update_of_ne hj _ _
    · rfl
  rw [keepsToSlot_of_open hopen hslot, and_iff_right hsame, openFd_nonneg, NameFits, hfind]
  by_cases hempties : hasFlag flags OPEN_TRUNCATE = true ∧ freeFd (vfsInit L k) ≠ none
  · obtain ⟨htrunc, hfd⟩ := hempties
    have hfile : (openFd i flags (vfsInit L k)).2.virtualFiles i
        = { (vfsInit L k).virtualFiles i with size := 0#32 } := by
      rw [openFd_virtualFiles, if_pos ⟨htrunc, hfd⟩, Function.update_self]
    rw [forall_prop_of_true hfd]
    dsimp only
    rw [forall_prop_of_true htrunc, forall_prop_of_true hfd]
    constructor
    · intro hfinds
      exact FileTable.length_le_of_answers (answers_of_findFile hfinds) (by rw [hfile])
    · intro hlen
      rw [findFile_iff_answers hsame (by omega) (Or.inl hfind), FileTable.answers_iff]
      obtain ⟨huse, hbytes⟩ := FileTable.answers_iff.mp (answers_of_findFile hfind)
      refine ⟨by rw [hfile]; exact huse, fun n hn => ?_⟩
      have hbyte := hbytes n hn
      rw [FileTable.byte_add i (by omega)] at hbyte ⊢
      rw [hfile, ← hbyte]
      rcases lt_or_ge n 68 with h68 | h68
      · exact VFile.byte_resize _ _ h68
      · obtain rfl : n = 68 := by omega
        rw [hbyte, path.byte_of_length_le (by omega)]
        exact VFile.byte_size rfl
  · -- nothing is truncated, so the file table is the same
    have hfiles : (openFd i flags (vfsInit L k)).2.virtualFiles = (vfsInit L k).virtualFiles := by
      rw [openFd_virtualFiles, if_neg hempties]
    refine iff_of_true (fun _ => ?_) fun htrunc hfd => absurd ⟨htrunc, hfd⟩ hempties
    rw [findFile_congr hfiles]
    exact hfind

/-- Creating a file. -/
lemma keepsToSlot_created (hfind : findFile path (vfsInit L k) = none)
    (hcreate : hasFlag flags OPEN_CREATE = true) (hfree : freeSlot (vfsInit L k) = some i) :
    KeepsToSlot L path flags k ↔ NameFits path flags (vfsInit L k) := by
  have hslot : slotFor path (vfsInit L k) = some i := by rw [slotFor, hfind, hfree]; rfl
  have hfits : NameFits path flags (vfsInit L k) ↔ 84 * (i : ℕ) + path.chars.length < 2688
      ∧ (∀ n, 84 ≤ n → n ≤ path.chars.length →
          path.byte n = (vfsInit L k).virtualFiles.byte (84 * i + n))
      ∧ ∃ p h, sysHandlerMalloc 256#32 (vfsInit L k).heap = some (p, h)
        ∧ (p ≠ NULL → freeFd (vfsInit L k) ≠ none → SpellsPointer path p) := by
    rw [NameFits, hfind]
    constructor
    · exact fun h => h i hfree
    · intro h j hj
      obtain rfl := Option.some.inj (hfree.symm.trans hj)
      exact h
  rw [hfits]
  by_cases hfit : 84 * (i : ℕ) + path.chars.length < 2688
  swap
  · -- the copy of the name runs off the table
    refine ⟨?_, fun h => absurd h.1 hfit⟩
    rintro ⟨r, k', hr, -⟩
    have hcpy : (vfsInit L k).virtualFiles.strcpyName i path = none := by
      rw [FileTable.strcpyName, if_neg hfit]
    simp only [sysHandlerOpen, hfind, hcreate, hfree, createFile, hcpy, Option.bind_none,
      Option.map_none, ↓reduceIte, reduceCtorEq] at hr
  obtain ⟨t, hcpy⟩ : ∃ t, (vfsInit L k).virtualFiles.strcpyName i path = some t := by
    rw [FileTable.strcpyName, if_pos hfit]
    exact ⟨_, rfl⟩
  rw [and_iff_right hfit, ← FileTable.strcpyName_others_iff hcpy]
  cases hm : sysHandlerMalloc 256#32 (vfsInit L k).heap with
  | none =>
      -- the request for a buffer does not return
      refine ⟨?_, ?_⟩
      · rintro ⟨r, k', hr, -⟩
        simp only [sysHandlerOpen, hfind, hcreate, hfree, createFile, hcpy, Option.bind_some,
          initialBuffer, Kernel.malloc, hm, Option.map_none, ↓reduceIte, reduceCtorEq] at hr
      · rintro ⟨-, p, h, hsome, -⟩
        cases hsome
  | some res =>
      obtain ⟨p, h⟩ := res
      rw [keepsToSlot_of_open (sysHandlerOpen_create hfind hcreate hfree hcpy hm) hslot]
      have hex : (∃ p' h', some (p, h) = some (p', h')
            ∧ (p' ≠ NULL → freeFd (vfsInit L k) ≠ none → SpellsPointer path p')) ↔
          (p ≠ NULL → freeFd (vfsInit L k) ≠ none → SpellsPointer path p) := by
        constructor
        · rintro ⟨p', h', heq, hspell⟩
          obtain ⟨rfl, rfl⟩ := Prod.mk.inj (Option.some.inj heq)
          exact hspell
        · exact fun hspell => ⟨p, h, rfl, hspell⟩
      rw [hex]
      have hother : ∀ f : VFile, (∀ j ≠ i, Function.update t i f j = (vfsInit L k).virtualFiles j) ↔
          ∀ j ≠ i, t j = (vfsInit L k).virtualFiles j := by
        refine fun f => forall_congr' fun j => forall_congr' fun hj => ?_
        rw [Function.update_of_ne hj]
      by_cases hp : p = NULL
      · have hoom : ¬0 ≤ SYSCALL_OUT_OF_MEMORY.toInt := by decide
        rw [if_pos hp, hother]
        exact and_congr_right fun _ =>
          iff_of_true (fun hpos => absurd hpos hoom) fun hne => absurd hp hne
      · have hempty : (((vfsInit L k).created t i p h).virtualFiles i).size = 0#32 := by
          simp [Kernel.created]
        have hfiles : (openFd i flags ((vfsInit L k).created t i p h)).2.virtualFiles
            = ((vfsInit L k).created t i p h).virtualFiles := openFd_virtualFiles_of_empty hempty
        have hfd : freeFd ((vfsInit L k).created t i p h) = freeFd (vfsInit L k) := rfl
        rw [if_neg hp, forall_prop_of_true hp, openFd_nonneg, hfd, hfiles, findFile_congr hfiles,
          Kernel.created, hother]
        exact and_congr_right fun hsame => imp_congr_right fun _ =>
          findFile_created_iff hfind hcpy hsame

end Fits

/-- **Which paths open keeps to**: in every state, a call of open that may create a file returns,
changes no entry of the file table but the one it opens or creates, and leads the path to this
entry again, if and only if the path fits that entry. -/
theorem keepsToSlot_iff (L : Rodata) (k : Kernel) (path : CString) {flags : Word}
    (hcreate : hasFlag flags OPEN_CREATE = true) :
    KeepsToSlot L path flags k ↔ NameFits path flags (vfsInit L k) := by
  cases hfind : findFile path (vfsInit L k) with
  | some i => exact keepsToSlot_found hfind
  | none =>
      cases hfree : freeSlot (vfsInit L k) with
      | some i => exact keepsToSlot_created hfind hcreate hfree
      | none =>
          -- the table is full, so nothing changes
          have hopen : sysHandlerOpen L (some path) flags k
              = some (SYSCALL_NOT_FOUND, vfsInit L k) := by
            simp only [sysHandlerOpen, hfind, hcreate, hfree, ↓reduceIte]
          have hnot : ¬0 ≤ SYSCALL_NOT_FOUND.toInt := by decide
          refine iff_of_true ⟨_, _, hopen, fun _ _ => rfl, fun hpos => absurd hpos hnot⟩ ?_
          rw [NameFits, hfind]
          intro i hi
          cases hfree.symm.trans hi

/-- In the states of a run, a path shorter than the name field fits. -/
theorem nameFits_of_lt {L : Rodata} {k : Kernel} (hk : k.Cold) {cs : List Call} {w : FsWorld}
    (hrun : FsRun L k cs w) {path : CString} (hlen : path.chars.length < 64) (flags : Word) :
    NameFits path flags w.kernel := by
  obtain ⟨l, hinv⟩ := hrun.inv hk
  rw [NameFits]
  cases findFile path w.kernel with
  | some i => exact fun _ _ => by omega
  | none =>
      intro i _
      obtain ⟨p, h, l', hm, -⟩ := hinv.models.malloc 256#32
      exact ⟨by omega, fun n h84 hn => absurd hn (by omega), p, h, hm,
        fun _ _ => spellsPointer_of_lt hlen⟩

/-- At the start a new file keeps to its entry. -/
theorem keepsToSlot_iff_sample : KeepsToSlot sampleRodata sampleName 6#32
    (FsWorld.boot sampleRodata blankKernel).kernel := by
  have hinit : vfsInit sampleRodata (FsWorld.boot sampleRodata blankKernel).kernel
      = (FsWorld.boot sampleRodata blankKernel).kernel := rfl
  rw [keepsToSlot_iff sampleRodata _ sampleName (by decide), hinit]
  exact nameFits_of_lt blankKernel_cold (Run.nil _) (by decide) 6#32

/-- A path of `n` times the letter `a`. -/
def lettersPath (n : ℕ) : CString :=
  ⟨List.replicate n 97#8, fun h => absurd (List.eq_of_mem_replicate h) (by decide)⟩

/-- At the start a new file with 64 characters in its name is created and opened, and a lookup does
not find it. -/
theorem long_name_lost : FsRun sampleRodata blankKernel [] (FsWorld.boot sampleRodata blankKernel)
    ∧ (sysHandlerOpen sampleRodata (some (lettersPath 64)) 6#32
        (FsWorld.boot sampleRodata blankKernel).kernel).map
          (fun r => (r.1, findFile (lettersPath 64) r.2)) = some (3#32, none)
    ∧ ¬KeepsToSlot sampleRodata (lettersPath 64) 6#32
        (FsWorld.boot sampleRodata blankKernel).kernel := by
  have hres : (sysHandlerOpen sampleRodata (some (lettersPath 64)) 6#32
      (FsWorld.boot sampleRodata blankKernel).kernel).map
        (fun r => (r.1, findFile (lettersPath 64) r.2)) = some (3#32, none) := by decide +kernel
  refine ⟨Run.nil _, hres, ?_⟩
  rintro ⟨r, k', hopen, -, hfinds⟩
  rw [hopen] at hres
  obtain ⟨rfl, hnone⟩ := Prod.mk.inj (Option.some.inj hres)
  obtain ⟨i, -, hfind⟩ := hfinds (by decide)
  cases hnone.symm.trans (hfind k' rfl)

end MiqOSoft
