import MiqOSoft.Kernel.VfsLedger

/-!
Writers that append to one file.

* `contents`: the readable bytes of a file.  `FileWritten.contents_append`: a write that starts at
  the end of its file appends its bytes.
* `FsWorld.Appends`: the calls of an interleaving of writes through descriptors that were opened
  for appending to the file.  `appended`: the chunks it wrote, in the order of the calls.
* `appends_in_order`: if every write starts at the end of the file as it is then, the file holds
  what it held and the chunks.
* `append_lost`: a second descriptor keeps the end it was opened at, and overwrites the first.
-/

namespace MiqOSoft

open Machine Tiling Transition

/-! ### What a file holds -/

/-- The `n` bytes from `a` on. -/
def bytesFrom (m : Memory) (a : Addr) (n : ℕ) : List Byte :=
  (List.range n).map fun j => m (a + BitVec.ofNat 32 j)

@[simp] lemma length_bytesFrom (m : Memory) (a : Addr) (n : ℕ) : (bytesFrom m a n).length = n := by
  simp [bytesFrom]

/-- Bytes in two parts, which may have come from elsewhere. -/
lemma bytesFrom_add {m m₁ m₂ : Memory} {a a₁ a₂ : Addr} {n p : ℕ}
    (h₁ : ∀ j < n, m (a + BitVec.ofNat 32 j) = m₁ (a₁ + BitVec.ofNat 32 j))
    (h₂ : ∀ j < p, m (a + BitVec.ofNat 32 (n + j)) = m₂ (a₂ + BitVec.ofNat 32 j)) :
    bytesFrom m a (n + p) = bytesFrom m₁ a₁ n ++ bytesFrom m₂ a₂ p := by
  rw [bytesFrom, List.range_add, List.map_append, List.map_map]
  congr 1
  · exact List.map_congr_left fun j hj => h₁ j (List.mem_range.mp hj)
  · exact List.map_congr_left fun j hj => h₂ j (List.mem_range.mp hj)

/-- The readable bytes of the file `i`. -/
def contents (k : Kernel) (i : Fin 32) : List Byte :=
  bytesFrom k.mem (k.virtualFiles i).data (k.virtualFiles i).size.toNat

section Contents

variable {k k' : Kernel} {d i : Fin 32} {buffer : Addr} {count : Word}

lemma FileKept.contents_eq (h : FileKept k k' i) (hi : (k.virtualFiles i).inUse ≠ 0#32) :
    contents k' i = contents k i := by
  rw [contents, contents, h.file]
  exact List.map_congr_left fun j hj => h.mem hi j (List.mem_range.mp hj)

/-- A write at the end of a file appends its bytes. -/
theorem FileWritten.contents_append (h : FileWritten k k' d i buffer count)
    (hend : (k.fileDescriptors d).position = (k.virtualFiles i).size) :
    contents k' i = contents k i ++ bytesFrom k.mem buffer count.toNat := by
  have hsize : (k'.virtualFiles i).size.toNat = (k.virtualFiles i).size.toNat + count.toNat := by
    rw [h.size, hend]
    omega
  rw [contents, contents, hsize]
  refine bytesFrom_add (fun j hj => h.kept j hj (Or.inl ?_)) fun j hj => ?_
  · rw [hend]
    exact hj
  · rw [← h.written j hj, hend]

end Contents

/-! ### Appending -/

namespace FsWorld

/-- A call of an interleaving of writers that append to the file `i`: its writes are shorter than
64 KiB, come from memory of the caller and go through descriptors that were opened on the file
for writing and appending, and no call truncates the file. -/
def Appends (L : Rodata) (i : Fin 32) (w : FsWorld) : Call → Prop
  | .sysWrite fd buffer count => count.toNat < 65536
      ∧ (∀ a ∈ span buffer count.toNat, CallerOwned L w.kernel a)
      ∧ ∃ d, FdOn w.kernel fd d i
        ∧ hasFlag (w.kernel.fileDescriptors d).flags OPEN_WRITE = true
        ∧ hasFlag (w.kernel.fileDescriptors d).flags OPEN_APPEND = true
  | c => ¬Empties w.kernel i c

/-- The bytes that the call appends to the file `i`: those of a write through a descriptor of the
file that returns its count. -/
def chunk (L : Rodata) (i : Fin 32) (w : FsWorld) : Call → List Byte
  | .sysWrite fd buffer count =>
      if (∃ d, FdOn w.kernel fd d i)
          ∧ (w.kernel.exec L (.sysWrite fd buffer count)).map Prod.fst = some count then
        bytesFrom w.kernel.mem buffer count.toNat
      else []
  | _ => []

/-- The chunks that calls append to the file `i`, in their order. -/
def appended (L : Rodata) (i : Fin 32) : FsWorld → List Call → List Byte
  | _, [] => []
  | w, c :: cs =>
      w.chunk L i c ++
        match step L w c with
        | none => []
        | some w' => appended L i w' cs

/-- A write that has space starts at the end of the file; and if the file moves for it, the file is
shorter than 64 KiB and the word that its release writes is not among the caller's bytes. -/
def StartsAtEnd (i : Fin 32) (w : FsWorld) : Call → Prop
  | .sysWrite fd buffer count => ∀ d, FdOn w.kernel fd d i → buffer ≠ NULL → count ≠ 0#32 →
      HasSpace w.kernel i ((w.kernel.fileDescriptors d).position + count) →
        (w.kernel.fileDescriptors d).position = (w.kernel.virtualFiles i).size
        ∧ (CanGrow w.kernel i ((w.kernel.fileDescriptors d).position + count) →
            (w.kernel.virtualFiles i).size.toNat < 65536 ∧ SparesBuffer w.kernel i buffer count)
  | _ => True

variable {L : Rodata} {i : Fin 32} {w w' : FsWorld} {c : Call} {owned : List Addr} {l : List Seg}

/-- A write that fails appends nothing. -/
lemma chunk_of_ne {fd count r : Word} {buffer : Addr}
    (hres : (w.kernel.exec L (.sysWrite fd buffer count)).map Prod.fst = some r) (hne : r ≠ count) :
    w.chunk L i (.sysWrite fd buffer count) = [] :=
  if_neg fun h => hne (Option.some.inj (hres.symm.trans h.2))

/-- **One call**: the file stays in use and holds what it held, and the chunk of the call. -/
theorem step_appends (hk : Inv L w.kernel w.owned l) (hi : (w.kernel.virtualFiles i).inUse ≠ 0#32)
    (hc : w.Tame L c) (happ : w.Appends L i c) (hend : w.StartsAtEnd i c)
    (hs : step L w c = some w') :
    (w'.kernel.virtualFiles i).inUse ≠ 0#32
      ∧ contents w'.kernel i = contents w.kernel i ++ w.chunk L i c := by
  by_cases hwrite : ∃ fd buffer count, c = .sysWrite fd buffer count
  swap
  · push Not at hwrite
    have hno : ¬Empties w.kernel i c := by
      cases c with
      | sysWrite fd buffer count => exact absurd rfl (hwrite fd buffer count)
      | _ => exact happ
    have hchunk : w.chunk L i c = [] := by
      cases c with
      | sysWrite fd buffer count => exact absurd rfl (hwrite fd buffer count)
      | _ => rfl
    have hsame := step_fileKept hk hc hs hwrite hno
    rw [hsame.file, hsame.contents_eq hi, hchunk, List.append_nil]
    exact ⟨hi, rfl⟩
  obtain ⟨fd, buffer, count, rfl⟩ := hwrite
  obtain ⟨⟨r, k'⟩, hexec, rfl⟩ := Option.map_eq_some_iff.mp hs
  obtain ⟨hshort, hown, d, hon, hflag, -⟩ := happ
  have hwrite : sysHandlerWrite fd buffer count w.kernel = some (r, k') := hexec
  have hres : (w.kernel.exec L (.sysWrite fd buffer count)).map Prod.fst = some r := by
    rw [hexec]
    rfl
  have hfail : 65536 ≤ r.toNat → w.chunk L i (.sysWrite fd buffer count) = [] := by
    intro hlarge
    refine chunk_of_ne hres ?_
    rintro rfl
    omega
  by_cases hempty : buffer = NULL ∨ count = 0#32
  · rw [sysHandlerWrite_of_empty hempty] at hwrite
    obtain ⟨rfl, rfl⟩ := Prod.mk.inj (Option.some.inj hwrite)
    rw [hfail (by decide), List.append_nil]
    exact ⟨hi, rfl⟩
  obtain ⟨hb, hc0⟩ := not_or.mp hempty
  obtain ⟨ok, k₁, l₁, hcase, hout, hinv₁⟩ := sysHandlerWrite_cases hk hon hb hc0 hflag
  have heq := Option.some.inj (hcase.symm.trans hwrite)
  cases ok with
  | false =>
      obtain ⟨rfl, rfl⟩ := Prod.mk.inj heq
      cases hout with
      | refused hlt hroom =>
          rw [hfail (by decide), List.append_nil]
          exact ⟨hi, rfl⟩
  | true =>
      obtain ⟨rfl, rfl⟩ := Prod.mk.inj heq
      obtain ⟨hpos, hgrow⟩ := hend d hon hb hc0 (hout.canGrow.imp_left And.left)
      have hchunk : w.chunk L i (.sysWrite fd buffer count)
          = bytesFrom w.kernel.mem buffer count.toNat := if_pos ⟨⟨d, hon⟩, hres⟩
      have hbound := (hk.tables.backed i hi).bounds hk.models
      have hsize := hk.tables.size_le i hi
      have hwritten := sysHandlerWrite_written hk hon hflag (by rw [hpos]; omega) hown hshort hgrow
        hwrite
      refine ⟨?_, by rw [hwritten.contents_append hpos, hchunk]⟩
      dsimp only
      rw [overlay_inUse, hout.kept.2.2.1]
      exact hi

/-- A run of such calls from a sound state. -/
theorem run_appends {cs : List Call} (hw : w.Sound L) (hi : (w.kernel.virtualFiles i).inUse ≠ 0#32)
    (hrun : Run (step L) (fun u c => u.Tame L c ∧ u.Appends L i c ∧ u.StartsAtEnd i c) w cs w') :
    contents w'.kernel i = contents w.kernel i ++ appended L i w cs := by
  induction hrun with
  | nil w => exact (List.append_nil _).symm
  | @cons w u v c cs hok hs _ ih =>
      obtain ⟨hc, happ, hend⟩ := hok
      obtain ⟨l, hk⟩ := hw
      obtain ⟨hi', hcontents⟩ := step_appends hk hi hc happ hend hs
      have happended : appended L i w (c :: cs) = w.chunk L i c ++ appended L i u cs := by
        rw [appended, hs]
      rw [ih (sound_of_step ⟨l, hk⟩ hc hs) hi', hcontents, happended, List.append_assoc]

end FsWorld

/-- **What appenders leave**: from any state of a run in which the file is there, in any
interleaving of writes through descriptors opened for appending to it, if every write that has
space starts at the end of the file as it is then, and moves a file only whole, then the file
holds what it held, followed by the chunks of the successful writes in the order of the calls. -/
theorem appends_in_order {L : Rodata} {k : Kernel} (hk : k.Cold) {pre : List Call} {u : FsWorld}
    (hpre : FsRun L k pre u) {i : Fin 32} (hi : (u.kernel.virtualFiles i).inUse ≠ 0#32)
    {cs : List Call} {w : FsWorld}
    (hrun : Run (FsWorld.step L)
      (fun v c => v.Tame L c ∧ v.Appends L i c ∧ v.StartsAtEnd i c) u cs w) :
    contents w.kernel i = contents u.kernel i ++ FsWorld.appended L i u cs :=
  FsWorld.run_appends (hpre.inv hk) hi hrun

/-- A run that creates a file for appending. -/
lemma exists_run_appender : ∃ u,
    FsRun sampleRodata blankKernel [.sysOpen (some sampleName) 0x16#32] u
    ∧ FdOn u.kernel 3#32 3 2 ∧ (u.kernel.virtualFiles 2).inUse ≠ 0#32
    ∧ hasFlag (u.kernel.fileDescriptors 3).flags OPEN_WRITE = true
    ∧ hasFlag (u.kernel.fileDescriptors 3).flags OPEN_APPEND = true := by
  obtain ⟨u, hrun⟩ := exists_run_open 0x16#32 (show sampleName.chars.length < 64 by decide)
  have hres : ((u.kernel.fileDescriptors 3).flags, (u.kernel.virtualFiles 2).inUse)
      = (0x16#32, 1#32) :=
    hrun.eval (fun u => ((u.kernel.fileDescriptors 3).flags, (u.kernel.virtualFiles 2).inUse))
      (by decide +kernel)
  obtain ⟨hflags, huse⟩ := Prod.mk.inj hres
  exact ⟨u, hrun, hrun.fdOn rfl (by decide +kernel), by rw [huse]; decide, by rw [hflags]; decide,
    by rw [hflags]; decide⟩

/-- Opening a file that exists does not empty it. -/
lemma not_empties_append {k : Kernel} {path : CString} {i : Fin 32} :
    ¬Empties k i (.sysOpen (some path) 0x12#32) := by
  rintro (⟨-, htrunc, -⟩ | ⟨-, hcreate, -⟩)
  · exact absurd htrunc (by decide)
  · exact absurd hcreate (by decide)

/-- Two descriptors append to a new file, the second opened after the first was written through. -/
theorem appends_in_order_two : ∃ u w, FsRun sampleRodata blankKernel
    [.sysOpen (some sampleName) 0x16#32] u
    ∧ [.sysWrite 3#32 0x300000#32 5#32, .sysOpen (some sampleName) 0x12#32,
        .sysWrite 4#32 0x300000#32 3#32].foldlM (FsWorld.step sampleRodata) u = some w
    ∧ (contents w.kernel 2).length = 8
    ∧ contents w.kernel 2 = contents u.kernel 2 ++ FsWorld.appended sampleRodata 2 u
      [.sysWrite 3#32 0x300000#32 5#32, .sysOpen (some sampleName) 0x12#32,
        .sysWrite 4#32 0x300000#32 3#32] := by
  obtain ⟨u, hpre, hon₁, hi, hwrite₁, happend₁⟩ := exists_run_appender
  have htame₁ := hpre.tame_write 3#32 5#32 0x300000#32 blankKernel_cold (by decide)
  obtain ⟨v₁, hs₁, hrun₁⟩ := hpre.next blankKernel_cold htame₁
  have htame₂ : v₁.Tame sampleRodata (.sysOpen (some sampleName) 0x12#32) :=
    tame_open 0x12#32 (by decide)
  obtain ⟨v₂, hs₂, hrun₂⟩ := hrun₁.next blankKernel_cold htame₂
  have htame₃ := hrun₂.tame_write 4#32 3#32 0x300000#32 blankKernel_cold (by decide)
  obtain ⟨w, hs₃, hrun₃⟩ := hrun₂.next blankKernel_cold htame₃
  have hon₂ : FdOn v₂.kernel 4#32 4 2 := hrun₂.fdOn rfl (by decide +kernel)
  have hflags₂ : (v₂.kernel.fileDescriptors 4).flags = 0x12#32 :=
    hrun₂.eval (fun v => (v.kernel.fileDescriptors 4).flags) (by decide +kernel)
  -- each write starts at the end of the file, and fits its first buffer
  have hends : ∀ {v : FsWorld} {fd count : Word} {d : Fin 32}, FdOn v.kernel fd d 2 →
      (v.kernel.fileDescriptors d).position = (v.kernel.virtualFiles 2).size →
      (v.kernel.fileDescriptors d).position + count ≤ (v.kernel.virtualFiles 2).capacity →
      v.StartsAtEnd 2 (.sysWrite fd 0x300000#32 count) := by
    intro v fd count d hon hpos hfit d' hon' _ _ _
    obtain ⟨rfl, -⟩ := hon.unique hon'
    exact ⟨hpos, fun hgrow => absurd hgrow.1 (BitVec.not_lt.mpr hfit)⟩
  have hfits₁ : ((u.kernel.fileDescriptors 3).position, (u.kernel.virtualFiles 2).size,
      (u.kernel.virtualFiles 2).capacity) = (0#32, 0#32, 256#32) :=
    hpre.eval (fun w => ((w.kernel.fileDescriptors 3).position, (w.kernel.virtualFiles 2).size,
      (w.kernel.virtualFiles 2).capacity)) (by decide +kernel)
  have hfits₂ : ((v₂.kernel.fileDescriptors 4).position, (v₂.kernel.virtualFiles 2).size,
      (v₂.kernel.virtualFiles 2).capacity) = (5#32, 5#32, 256#32) :=
    hrun₂.eval (fun w => ((w.kernel.fileDescriptors 4).position, (w.kernel.virtualFiles 2).size,
      (w.kernel.virtualFiles 2).capacity)) (by decide +kernel)
  simp only [Prod.mk.injEq] at hfits₁ hfits₂
  have hrun : Run (FsWorld.step sampleRodata)
      (fun v c => v.Tame sampleRodata c ∧ v.Appends sampleRodata 2 c ∧ v.StartsAtEnd 2 c) u
      [.sysWrite 3#32 0x300000#32 5#32, .sysOpen (some sampleName) 0x12#32,
        .sysWrite 4#32 0x300000#32 3#32] w := by
    refine .cons ⟨htame₁, ⟨by decide, ?_, 3, hon₁, hwrite₁, happend₁⟩, hends hon₁ ?_ ?_⟩ hs₁
      (.cons ⟨htame₂, not_empties_append, trivial⟩ hs₂ (.cons ⟨htame₃,
        ⟨by decide, ?_, 4, hon₂, by rw [hflags₂]; decide, by rw [hflags₂]; decide⟩,
        hends hon₂ ?_ ?_⟩ hs₃ (.nil w)))
    · exact fun a ha => callerOwned_sample (span_mono (by decide) ha)
    · rw [hfits₁.1, hfits₁.2.1]
    · rw [hfits₁.1, hfits₁.2.2]
      decide
    · exact fun a ha => callerOwned_sample (span_mono (by decide) ha)
    · rw [hfits₂.1, hfits₂.2.1]
    · rw [hfits₂.1, hfits₂.2.2]
      decide
  exact ⟨u, w, hpre, hrun.foldlM_eq,
    hrun₃.eval (fun w => (contents w.kernel 2).length) (by decide +kernel),
    appends_in_order blankKernel_cold hpre hi hrun⟩

/-- Two descriptors are opened for appending to an empty file, and five bytes are written through
the first and three through the second: the file has five bytes. -/
theorem append_lost : ∃ u w, FsRun sampleRodata blankKernel [.sysOpen (some sampleName) 0x16#32] u
    ∧ (u.kernel.virtualFiles 2).inUse ≠ 0#32
    ∧ Run (FsWorld.step sampleRodata)
      (fun v c => v.Tame sampleRodata c ∧ v.Appends sampleRodata 2 c) u
      [.sysOpen (some sampleName) 0x12#32, .sysWrite 3#32 0x300000#32 5#32,
        .sysWrite 4#32 0x300000#32 3#32] w
    ∧ contents w.kernel 2 ≠ contents u.kernel 2 ++ FsWorld.appended sampleRodata 2 u
      [.sysOpen (some sampleName) 0x12#32, .sysWrite 3#32 0x300000#32 5#32,
        .sysWrite 4#32 0x300000#32 3#32] := by
  obtain ⟨u, hpre, -, hi, -, -⟩ := exists_run_appender
  -- the second descriptor is opened, and a write is made through each
  have htame₁ : u.Tame sampleRodata (.sysOpen (some sampleName) 0x12#32) :=
    tame_open 0x12#32 (by decide)
  obtain ⟨v₁, hs₁, hrun₁⟩ := hpre.next blankKernel_cold htame₁
  have htame₂ := hrun₁.tame_write 3#32 5#32 0x300000#32 blankKernel_cold (by decide)
  obtain ⟨v₂, hs₂, hrun₂⟩ := hrun₁.next blankKernel_cold htame₂
  have htame₃ := hrun₂.tame_write 4#32 3#32 0x300000#32 blankKernel_cold (by decide)
  obtain ⟨w, hs₃, hrun₃⟩ := hrun₂.next blankKernel_cold htame₃
  -- both descriptors are the file's, for writing and appending
  have hon₁ : FdOn v₁.kernel 3#32 3 2 := hrun₁.fdOn rfl (by decide +kernel)
  have hflags₁ : (v₁.kernel.fileDescriptors 3).flags = 0x16#32 :=
    hrun₁.eval (fun v => (v.kernel.fileDescriptors 3).flags) (by decide +kernel)
  have hon₂ : FdOn v₂.kernel 4#32 4 2 := hrun₂.fdOn rfl (by decide +kernel)
  have hflags₂ : (v₂.kernel.fileDescriptors 4).flags = 0x12#32 :=
    hrun₂.eval (fun v => (v.kernel.fileDescriptors 4).flags) (by decide +kernel)
  refine ⟨u, w, hpre, hi, .cons ⟨htame₁, not_empties_append⟩ hs₁
    (.cons ⟨htame₂, by decide, ?_, 3, hon₁, ?_⟩ hs₂
      (.cons ⟨htame₃, by decide, ?_, 4, hon₂, ?_⟩ hs₃ (.nil w))), fun heq => ?_⟩
  · exact fun a ha => callerOwned_sample (span_mono (by decide) ha)
  · rw [hflags₁]
    decide
  · exact fun a ha => callerOwned_sample (span_mono (by decide) ha)
  · rw [hflags₂]
    decide
  · have hlost : (contents w.kernel 2).length = 5 :=
      hrun₃.eval (fun w => (contents w.kernel 2).length) (by decide +kernel)
    have hdue : (contents u.kernel 2 ++ FsWorld.appended sampleRodata 2 u
        [.sysOpen (some sampleName) 0x12#32, .sysWrite 3#32 0x300000#32 5#32,
          .sysWrite 4#32 0x300000#32 3#32]).length = 8 :=
      hpre.eval (fun u => (contents u.kernel 2 ++ FsWorld.appended sampleRodata 2 u
        [.sysOpen (some sampleName) 0x12#32, .sysWrite 3#32 0x300000#32 5#32,
          .sysWrite 4#32 0x300000#32 3#32]).length) (by decide +kernel)
    rw [heq, hdue] at hlost
    exact absurd hlost (by decide)

end MiqOSoft
