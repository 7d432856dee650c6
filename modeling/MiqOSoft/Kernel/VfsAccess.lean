import MiqOSoft.Kernel.VfsAppend

/-!
The access that a descriptor conveys.

* `flags_of_open`: a descriptor in use has the flags of the call that opened it.
* `Conveys`: a call hands out no byte of a file without `OPEN_READ`, and leaves the files as they
  are without `OPEN_WRITE`.
* `Respects`: what a call must avoid for that.  Reads do not look at `OPEN_READ`, and open
  truncates without looking at `OPEN_WRITE`.
* `conveys_iff`: along a run, every call conveys only the access of its descriptor exactly when
  every call respects it.
* `access_not_conveyed`: a read and an open that do not.
-/

namespace MiqOSoft

open Machine Tiling Transition

/-- `OPEN_READ`. -/
def OPEN_READ : Word := 0x01#32

/-! ### The flags of a descriptor -/

/-- The call closes the descriptor `d`. -/
def Call.Closes (d : Fin 32) : Call → Prop
  | .sysClose fd => fd.toNat = (d : ℕ)
  | _ => False

/-- The call is an open with the given flags that returns `d`. -/
def FsWorld.Opens (L : Rodata) (w : FsWorld) (d : Fin 32) (flags : Word) (c : Call) : Prop :=
  ∃ path, c = .sysOpen path flags ∧ (w.kernel.exec L c).map Prod.fst = some (BitVec.ofNat 32 d)

section Flags

variable {L : Rodata} {k k' : Kernel} {owned : List Addr} {l : List Seg}
  {fd count flags r : Word} {buffer : Addr} {path : CString} {d i : Fin 32}

/-- The descriptor `d` is in use as before, with the same flags. -/
def SameFlags (k k' : Kernel) (d : Fin 32) : Prop :=
  (k'.fileDescriptors d).inUse = (k.fileDescriptors d).inUse
    ∧ (k'.fileDescriptors d).flags = (k.fileDescriptors d).flags

lemma SameFlags.of_eq (h : k'.fileDescriptors d = k.fileDescriptors d) : SameFlags k k' d := by
  rw [SameFlags, h]
  exact ⟨rfl, rfl⟩

/-- A position that is moved leaves all flags as they are. -/
lemma SameFlags.of_position {e : Fin 32} {p : Word}
    (h : k'.fileDescriptors = Function.update k.fileDescriptors e
      { k.fileDescriptors e with position := p }) (d : Fin 32) : SameFlags k k' d := by
  by_cases hde : d = e
  · subst hde
    rw [SameFlags, h, Function.update_self]
    exact ⟨rfl, rfl⟩
  · exact .of_eq (by rw [h, Function.update_of_ne hde])

/-- Opening a descriptor sets its flags and leaves the others alone. -/
lemma openFd_descriptor (h : openFd i flags k = (r, k')) (d : Fin 32) :
    k'.fileDescriptors d = k.fileDescriptors d
      ∨ (k'.fileDescriptors d).flags = flags ∧ r = BitVec.ofNat 32 d := by
  rw [openFd] at h
  cases hfd : freeFd k with
  | none =>
      rw [hfd] at h
      obtain ⟨-, rfl⟩ := Prod.mk.inj h
      exact Or.inl rfl
  | some e =>
      rw [hfd] at h
      obtain ⟨rfl, rfl⟩ := Prod.mk.inj h
      by_cases hde : d = e
      · subst hde
        right
        split_ifs <;> simp [Kernel.setFd]
      · left
        split_ifs <;> simp [Kernel.setFd, Kernel.setFile, hde]

lemma sysHandlerOpen_descriptor (hk : Inv L k owned l) (hlen : path.chars.length < 64)
    (hopen : sysHandlerOpen L (some path) flags k = some (r, k')) (d : Fin 32) :
    k'.fileDescriptors d = k.fileDescriptors d
      ∨ (k'.fileDescriptors d).flags = flags ∧ r = BitVec.ofNat 32 d := by
  rcases sysHandlerOpen_cases hk hlen hopen with rfl | ⟨j, -, h⟩ | ⟨j, t, p, h, -, -, -, -, -, heq⟩
  · exact Or.inl rfl
  · exact openFd_descriptor h d
  split_ifs at heq with hp
  · obtain ⟨-, rfl⟩ := Prod.mk.inj heq
    exact Or.inl rfl
  · exact openFd_descriptor (k := k.created t j p h) heq d

lemma sysHandlerRead_sameFlags (d : Fin 32) :
    SameFlags k (sysHandlerRead fd buffer count k).2 d := by
  by_cases hno : buffer = NULL ∨ ∀ e i, ¬FdOn k fd e i
  · rw [sysHandlerRead_of_not hno]
    exact .of_eq rfl
  push Not at hno
  obtain ⟨hb, e, i, hon⟩ := hno
  rw [sysHandlerRead_of_fdOn hon hb]
  exact .of_position rfl d

lemma sysHandlerWrite_sameFlags (hk : Inv L k owned l)
    (hwrite : sysHandlerWrite fd buffer count k = some (r, k')) (d : Fin 32) :
    SameFlags k k' d := by
  by_cases hno : buffer = NULL ∨ count = 0#32 ∨
    ∀ e i, FdOn k fd e i → hasFlag (k.fileDescriptors e).flags OPEN_WRITE = false
  · obtain ⟨r', hr'⟩ : ∃ r', sysHandlerWrite fd buffer count k = some (r', k) :=
      sysHandlerWrite_of_not hno
    obtain ⟨-, rfl⟩ := Prod.mk.inj (Option.some.inj (hr'.symm.trans hwrite))
    exact .of_eq rfl
  push Not at hno
  obtain ⟨hb, hcount, e, i, hon, hflag⟩ := hno
  rw [ne_eq, Bool.not_eq_false] at hflag
  obtain ⟨ok, k₁, l₁, hcase, hout, -⟩ := sysHandlerWrite_cases hk hon hb hcount hflag
  have heq := Option.some.inj (hcase.symm.trans hwrite)
  cases ok with
  | false =>
      obtain ⟨-, rfl⟩ := Prod.mk.inj heq
      cases hout with
      | refused => exact .of_eq rfl
  | true =>
      obtain ⟨-, rfl⟩ := Prod.mk.inj heq
      have hmoved : (overlay e i buffer count k₁).fileDescriptors
          = Function.update k.fileDescriptors e
            { k.fileDescriptors e with position := (k.fileDescriptors e).position + count } := by
        rw [← hout.kept.1, overlay_eq]
        rfl
      exact .of_position hmoved d

/-- A close frees its descriptor and leaves the others alone. -/
lemma sysHandlerClose_descriptor (d : Fin 32)
    (hd : ((sysHandlerClose fd k).2.fileDescriptors d).inUse ≠ 0#32) :
    (sysHandlerClose fd k).2.fileDescriptors d = k.fileDescriptors d ∧ fd.toNat ≠ d := by
  rw [sysHandlerClose] at hd ⊢
  split_ifs at hd ⊢ with hlt hin
  · refine ⟨rfl, ?_⟩
    rintro hfd
    obtain rfl : d = ⟨fd.toNat, hlt⟩ := Fin.ext hfd.symm
    exact hd hin
  · have hne : d ≠ ⟨fd.toNat, hlt⟩ := by
      rintro rfl
      simp [Kernel.setFd, FileDescriptor.zero] at hd
    exact ⟨Function.update_of_ne hne _ _, fun hfd => hne (Fin.ext hfd.symm)⟩
  · refine ⟨rfl, ?_⟩
    have := d.isLt
    omega

end Flags

namespace FsWorld

variable {L : Rodata} {w w' : FsWorld} {c : Call} {d : Fin 32}

/-- **One call**: a descriptor that is in use after it has been opened by it, or was in use before
with the same flags. -/
theorem step_descriptor (hw : w.Sound L) (hc : w.Tame L c) (hs : step L w c = some w')
    (hd : (w'.kernel.fileDescriptors d).inUse ≠ 0#32) :
    w.Opens L d (w'.kernel.fileDescriptors d).flags c
      ∨ SameFlags w.kernel w'.kernel d ∧ ¬c.Closes d := by
  obtain ⟨l, hk⟩ := hw
  obtain ⟨⟨r, k'⟩, hexec, rfl⟩ := Option.map_eq_some_iff.mp hs
  dsimp only at hd ⊢
  cases c with
  | sysOpen path flags =>
      cases path with
      | none =>
          obtain ⟨-, rfl⟩ := Prod.mk.inj (Option.some.inj hexec)
          exact Or.inr ⟨.of_eq rfl, id⟩
      | some path =>
          rcases sysHandlerOpen_descriptor hk (hc path rfl) hexec d with hsame | ⟨hflags, hr⟩
          · exact Or.inr ⟨.of_eq hsame, id⟩
          · left
            rw [hflags]
            exact ⟨some path, rfl, by rw [hexec, ← hr]; rfl⟩
  | sysRead fd buffer count =>
      have hk' : (sysHandlerRead fd buffer count w.kernel).2 = k' :=
        congrArg Prod.snd (Option.some.inj hexec)
      rw [← hk']
      exact Or.inr ⟨sysHandlerRead_sameFlags d, id⟩
  | sysWrite fd buffer count => exact Or.inr ⟨sysHandlerWrite_sameFlags hk hexec d, id⟩
  | sysClose fd =>
      have hk' : (sysHandlerClose fd w.kernel).2 = k' :=
        congrArg Prod.snd (Option.some.inj hexec)
      rw [← hk'] at hd ⊢
      obtain ⟨hsame, hne⟩ := sysHandlerClose_descriptor d hd
      exact Or.inr ⟨.of_eq hsame, hne⟩
  | sysMalloc n =>
      obtain ⟨p, h, l', hm, -⟩ := hk.malloc n
      obtain ⟨-, rfl⟩ := Prod.mk.inj (Option.some.inj (hm.symm.trans hexec))
      exact Or.inr ⟨.of_eq rfl, id⟩
  | sysFree p =>
      obtain ⟨h, l', hf, -⟩ := hk.free hc
      obtain ⟨-, rfl⟩ := Prod.mk.inj (Option.some.inj (hf.symm.trans hexec))
      exact Or.inr ⟨.of_eq rfl, id⟩
  | store a b =>
      obtain ⟨-, rfl⟩ := Prod.mk.inj (Option.some.inj hexec)
      exact Or.inr ⟨.of_eq rfl, id⟩

end FsWorld

/-- **The flags of a descriptor**: a descriptor in use was opened by a call of the run with the
flags it has, and has not been closed since. -/
theorem flags_of_open {L : Rodata} {k : Kernel} (hk : k.Cold) {cs : List Call} {w : FsWorld}
    (hrun : FsRun L k cs w) {d : Fin 32} (hd : (w.kernel.fileDescriptors d).inUse ≠ 0#32) :
    ∃ pre c post u, cs = pre ++ c :: post ∧ FsRun L k pre u
      ∧ u.Opens L d (w.kernel.fileDescriptors d).flags c ∧ ∀ c' ∈ post, ¬c'.Closes d := by
  induction cs using List.reverseRecOn generalizing w with
  | nil =>
      cases hrun
      simp [FsWorld.boot, syscallInitialize, vfsInit, hk.fs, FileDescriptor.zero] at hd
  | append_singleton cs c ih =>
      obtain ⟨u, hpre, hlast⟩ := hrun.append_inv
      obtain ⟨hc, u', hs, hnil⟩ := hlast.cons_inv
      cases hnil
      rcases FsWorld.step_descriptor (FsRun.inv hk hpre) hc hs hd with
        hopens | ⟨⟨hin, hflags⟩, hclose⟩
      · exact ⟨cs, c, [], u, rfl, hpre, hopens, by simp⟩
      · rw [hin] at hd
        obtain ⟨pre, c₀, post, v, rfl, hv, hopens, hkept⟩ := ih hpre hd
        rw [hflags]
        refine ⟨pre, c₀, post ++ [c], v, by simp, hv, hopens, fun c' hc' => ?_⟩
        rcases List.mem_append.mp hc' with h | h
        · exact hkept c' h
        · rw [List.mem_singleton.mp h]
          exact hclose

/-! ### The access of a call -/

/-- The descriptor `fd` is open on a file, but was opened without the flag. -/
def OpenWithout (k : Kernel) (fd flag : Word) : Prop :=
  ∃ d i, FdOn k fd d i ∧ hasFlag (k.fileDescriptors d).flags flag = false

/-- The call reads through a descriptor opened without `OPEN_READ`. -/
def LacksRead (k : Kernel) : Call → Prop
  | .sysRead fd _ _ => OpenWithout k fd OPEN_READ
  | _ => False

/-- The call opens a file without `OPEN_WRITE`, or goes through a descriptor opened without it. -/
def LacksWrite (k : Kernel) : Call → Prop
  | .sysOpen _ flags => hasFlag flags OPEN_WRITE = false
  | .sysRead fd _ _ | .sysWrite fd _ _ | .sysClose fd => OpenWithout k fd OPEN_WRITE
  | _ => False

/-- The call conveys only the access it has: without `OPEN_READ` no byte is copied out, and without
`OPEN_WRITE` the files in use keep their sizes and contents. -/
structure Conveys (k : Kernel) (c : Call) (k' : Kernel) : Prop where
  read : LacksRead k c → ∀ dst n, k'.trace = .copy dst n :: k.trace → n = 0
  write : LacksWrite k c → ∀ i, (k.virtualFiles i).inUse ≠ 0#32 →
    (k'.virtualFiles i).size = (k.virtualFiles i).size ∧ contents k' i = contents k i

/-- A read of `count` bytes at the descriptor `d` of the file `i` has none to copy: the count, or
what the file has left if that is less, is a multiple of 64 KiB. -/
def NothingDue (k : Kernel) (d i : Fin 32) (count : Word) : Prop :=
  if (k.virtualFiles i).size < (k.fileDescriptors d).position + count then
    ((k.virtualFiles i).size - (k.fileDescriptors d).position).toNat % 65536 = 0
  else count.toNat % 65536 = 0

/-- A read through a descriptor without `OPEN_READ` has no buffer or nothing to copy, and an open
without `OPEN_WRITE` does not truncate a file that has bytes. -/
def Respects (k : Kernel) : Call → Prop
  | .sysRead fd buffer count => ∀ d i, FdOn k fd d i →
      hasFlag (k.fileDescriptors d).flags OPEN_READ = false → buffer = NULL ∨ NothingDue k d i count
  | .sysOpen (some path) flags => ∀ i, findFile path k = some i →
      hasFlag flags OPEN_WRITE = false → hasFlag flags OPEN_TRUNCATE = true →
        freeFd k = none ∨ (k.virtualFiles i).size = 0#32
  | _ => True

section Access

variable {L : Rodata} {k k' : Kernel} {owned : List Addr} {l : List Seg}
  {fd count flags r : Word} {buffer : Addr} {path : CString} {d i : Fin 32}

lemma nothingDue_iff : NothingDue k d i count ↔
    (toRead (k.virtualFiles i) (k.fileDescriptors d).position count).toNat % 65536 = 0 := by
  rw [NothingDue, toRead]
  split_ifs <;> rfl

/-- An empty file has no contents. -/
lemma contents_of_size (h : (k.virtualFiles i).size = 0#32) : contents k i = [] := by
  rw [contents, h]
  rfl

/-- A read copies something out unless it has no buffer or nothing is due. -/
lemma read_copies_iff (hon : FdOn k fd d i) :
    (∀ dst n, (sysHandlerRead fd buffer count k).2.trace = .copy dst n :: k.trace → n = 0) ↔
      buffer = NULL ∨ NothingDue k d i count := by
  rw [nothingDue_iff]
  by_cases hb : buffer = NULL
  · rw [sysHandlerRead_of_not (Or.inl hb)]
    exact ⟨fun _ => Or.inl hb, fun _ dst n h => absurd h.symm (List.cons_ne_self _ _)⟩
  rw [sysHandlerRead_of_fdOn hon hb, or_iff_right hb, ← toNat_len16]
  constructor
  · exact fun h => h buffer _ rfl
  · rintro hzero dst n htrace
    obtain ⟨-, rfl⟩ := Event.copy.inj (List.cons.inj htrace).1
    exact hzero

/-- A file in use that opening a path without `OPEN_WRITE` leaves as it is. -/
lemma open_keeps_iff (hk : Inv L k owned l) (hlen : path.chars.length < 64)
    (hopen : sysHandlerOpen L (some path) flags k = some (r, k')) :
    (∀ i, (k.virtualFiles i).inUse ≠ 0#32 →
        (k'.virtualFiles i).size = (k.virtualFiles i).size ∧ contents k' i = contents k i) ↔
      ∀ i, findFile path k = some i → hasFlag flags OPEN_TRUNCATE = true →
        freeFd k = none ∨ (k.virtualFiles i).size = 0#32 := by
  constructor
  · intro h i hfind htrunc
    by_contra hne
    obtain ⟨hfd, hsize⟩ := not_or.mp hne
    have hkept := (h i (findFile_eq_some hfind)).1
    rw [sysHandlerOpen_truncates hk hopen hfind htrunc hfd] at hkept
    exact hsize hkept.symm
  · intro h i hi
    by_cases hempties : Empties k i (.sysOpen (some path) flags)
    swap
    · have hkept := sysHandlerOpen_fileKept hk hlen hopen hempties
      exact ⟨by rw [hkept.file], hkept.contents_eq hi⟩
    rcases hempties with ⟨hfind, htrunc, hfd⟩ | ⟨-, -, hslot⟩
    · have hsize := (h i hfind htrunc).resolve_left hfd
      have hsize' : (k'.virtualFiles i).size = 0#32 := by
        rw [sysHandlerOpen_truncates hk hopen hfind htrunc hfd]
      rw [hsize, hsize', contents_of_size hsize, contents_of_size hsize']
      exact ⟨rfl, rfl⟩
    · exact absurd (freeSlot_eq_some hslot) hi

end Access

namespace FsWorld

variable {L : Rodata} {w w' : FsWorld} {c : Call} {owned : List Addr} {l : List Seg}

/-- A call that does not open leaves the files in use as they are, if it has no write access. -/
lemma step_keeps (hk : Inv L w.kernel w.owned l) (hc : w.Tame L c) (hs : step L w c = some w')
    (hopen : ∀ path flags, c ≠ .sysOpen (some path) flags) (hlacks : LacksWrite w.kernel c)
    {i : Fin 32} (hi : (w.kernel.virtualFiles i).inUse ≠ 0#32) :
    (w'.kernel.virtualFiles i).size = (w.kernel.virtualFiles i).size
      ∧ contents w'.kernel i = contents w.kernel i := by
  by_cases hwrite : ∃ fd buffer count, c = .sysWrite fd buffer count
  · obtain ⟨fd, buffer, count, rfl⟩ := hwrite
    obtain ⟨d, j, hon, hflag⟩ := hlacks
    obtain ⟨⟨r, k'⟩, hexec, rfl⟩ := Option.map_eq_some_iff.mp hs
    obtain ⟨r', hr'⟩ : ∃ r', sysHandlerWrite fd buffer count w.kernel = some (r', w.kernel) := by
      refine sysHandlerWrite_of_not (Or.inr (Or.inr fun d' j' hon' => ?_))
      obtain ⟨rfl, -⟩ := hon.unique hon'
      exact hflag
    obtain ⟨-, rfl⟩ := Prod.mk.inj (Option.some.inj (hr'.symm.trans hexec))
    exact ⟨rfl, rfl⟩
  · push Not at hwrite
    have hno : ¬Empties w.kernel i c := by
      cases c with
      | sysOpen path flags =>
          cases path with
          | none => exact id
          | some path => exact absurd rfl (hopen path flags)
      | _ => exact id
    have hkept := step_fileKept hk hc hs hwrite hno
    exact ⟨by rw [hkept.file], hkept.contents_eq hi⟩

/-- **One call** conveys only the access it has exactly when it respects it. -/
theorem step_conveys_iff (hw : w.Sound L) (hc : w.Tame L c) (hs : step L w c = some w') :
    Conveys w.kernel c w'.kernel ↔ Respects w.kernel c := by
  obtain ⟨l, hk⟩ := hw
  cases c with
  | sysOpen path flags =>
      cases path with
      | none =>
          exact ⟨fun _ => trivial,
            fun _ => ⟨False.elim, fun hlacks i hi => step_keeps hk hc hs (by simp) hlacks hi⟩⟩
      | some path =>
          obtain ⟨⟨r, k'⟩, hexec, rfl⟩ := Option.map_eq_some_iff.mp hs
          have hiff := open_keeps_iff hk (hc path rfl) hexec
          constructor
          · exact fun h i hfind hflag => hiff.mp (h.write hflag) i hfind
          · exact fun h => ⟨False.elim, fun hflag => hiff.mpr fun i hfind => h i hfind hflag⟩
  | sysRead fd buffer count =>
      have hw' : (sysHandlerRead fd buffer count w.kernel).2 = w'.kernel :=
        congrArg FsWorld.kernel (Option.some.inj hs)
      constructor
      · intro h d i hon hflag
        have hread := h.read ⟨d, i, hon, hflag⟩
        rw [← hw'] at hread
        exact (read_copies_iff hon).mp hread
      · refine fun h => ⟨?_, fun hlacks i hi => step_keeps hk hc hs (by simp) hlacks hi⟩
        rintro ⟨d, i, hon, hflag⟩
        rw [← hw']
        exact (read_copies_iff hon).mpr (h d i hon hflag)
  | _ =>
      exact ⟨fun _ => trivial,
        fun _ => ⟨False.elim, fun hlacks i hi => step_keeps hk hc hs (by simp) hlacks hi⟩⟩

end FsWorld

/-- **When descriptors convey only their access**: along a run, every call copies no byte out
without `OPEN_READ` and leaves the files as they are without `OPEN_WRITE` if and only if every
read without `OPEN_READ` has no buffer or nothing to copy, and no open without `OPEN_WRITE`
truncates a file that has bytes. -/
theorem conveys_iff {L : Rodata} {k : Kernel} (hk : k.Cold) {cs : List Call} {w : FsWorld}
    (hrun : FsRun L k cs w) :
    (∀ pre c post u u', cs = pre ++ c :: post → FsRun L k pre u → FsWorld.step L u c = some u' →
        Conveys u.kernel c u'.kernel) ↔
      ∀ pre c post u, cs = pre ++ c :: post → FsRun L k pre u → Respects u.kernel c :=
  Run.forall_step_iff (P := FsWorld.Sound L) (fun _ _ _ => FsWorld.sound_of_step)
    (fun _ _ _ => FsWorld.step_conveys_iff) (FsWorld.boot_sound hk) hrun

/-- The equivalence on a run that opens `welcome.txt` for reading and reads ten bytes. -/
theorem conveys_iff_read : ∃ w, FsRun sampleRodata blankKernel
    [.sysOpen (some welcomeName) 1#32, .sysRead 3#32 0x300000#32 10#32] w
    ∧ ((∀ pre c post u u', [Call.sysOpen (some welcomeName) 1#32,
          .sysRead 3#32 0x300000#32 10#32] = pre ++ c :: post →
          FsRun sampleRodata blankKernel pre u → FsWorld.step sampleRodata u c = some u' →
          Conveys u.kernel c u'.kernel) ↔
        ∀ pre c post u, [Call.sysOpen (some welcomeName) 1#32,
          .sysRead 3#32 0x300000#32 10#32] = pre ++ c :: post →
          FsRun sampleRodata blankKernel pre u → Respects u.kernel c) := by
  obtain ⟨w₁, h₁⟩ := exists_run_open 1#32 (show welcomeName.chars.length < 64 by decide)
  obtain ⟨w, hrun⟩ := h₁.extend blankKernel_cold (tame_read_sample 3#32 10#32)
  exact ⟨w, hrun, conveys_iff blankKernel_cold hrun⟩

/-- `welcome.txt` is opened for writing only, and ten bytes are read through the descriptor; then
it is opened with `OPEN_TRUNCATE` alone, and its 52 bytes are gone. -/
theorem access_not_conveyed : ∃ u v w,
    FsRun sampleRodata blankKernel [.sysOpen (some welcomeName) 2#32] u
    ∧ FsWorld.step sampleRodata u (.sysRead 3#32 0x300000#32 10#32) = some v
    ∧ ¬Conveys u.kernel (.sysRead 3#32 0x300000#32 10#32) v.kernel
    ∧ FsWorld.step sampleRodata v (.sysOpen (some welcomeName) 8#32) = some w
    ∧ (v.kernel.virtualFiles 0).size = 52#32 ∧ (w.kernel.virtualFiles 0).size = 0#32
    ∧ ¬Conveys v.kernel (.sysOpen (some welcomeName) 8#32) w.kernel := by
  obtain ⟨u, hu⟩ := exists_run_open 2#32 (show welcomeName.chars.length < 64 by decide)
  have hread : u.Tame sampleRodata (.sysRead 3#32 0x300000#32 10#32) := tame_read_sample 3#32 10#32
  obtain ⟨v, hs, hv⟩ := hu.next blankKernel_cold hread
  have htrunc : v.Tame sampleRodata (.sysOpen (some welcomeName) 8#32) :=
    tame_open 8#32 (by decide)
  obtain ⟨w, hs', hw⟩ := hv.next blankKernel_cold htrunc
  have hon : FdOn u.kernel 3#32 3 0 := hu.fdOn rfl (by decide +kernel)
  have hflags : (u.kernel.fileDescriptors 3).flags = 2#32 :=
    hu.eval (fun u => (u.kernel.fileDescriptors 3).flags) (by decide +kernel)
  have htrace : u.kernel.trace = [] := hu.eval (fun u => u.kernel.trace) (by decide +kernel)
  have htrace' : v.kernel.trace = [.copy 0x300000#32 10] :=
    hv.eval (fun v => v.kernel.trace) (by decide +kernel)
  have hfile : ((v.kernel.virtualFiles 0).inUse, (v.kernel.virtualFiles 0).size) = (1#32, 52#32) :=
    hv.eval (fun v => ((v.kernel.virtualFiles 0).inUse, (v.kernel.virtualFiles 0).size))
      (by decide +kernel)
  obtain ⟨huse, hsize⟩ := Prod.mk.inj hfile
  have hsize' : (w.kernel.virtualFiles 0).size = 0#32 :=
    hw.eval (fun w => (w.kernel.virtualFiles 0).size) (by decide +kernel)
  refine ⟨u, v, w, hu, hs, fun hconveys => ?_, hs', hsize, hsize', fun hconveys => ?_⟩
  · have hlacks : LacksRead u.kernel (.sysRead 3#32 0x300000#32 10#32) :=
      ⟨3, 0, hon, by rw [hflags]; decide⟩
    have hzero := hconveys.read hlacks 0x300000#32 10 (by rw [htrace, htrace'])
    exact absurd hzero (by decide)
  · have hlacks : LacksWrite v.kernel (.sysOpen (some welcomeName) 8#32) := by
      change hasFlag 8#32 OPEN_WRITE = false
      decide
    have hkept := (hconveys.write hlacks 0 (by rw [huse]; decide)).1
    rw [hsize, hsize'] at hkept
    exact absurd hkept (by decide)

end MiqOSoft
