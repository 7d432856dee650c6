import MiqOSoft.Kernel.VfsRuns

/-!
What a write does to its file, and to the rest of the memory.

* `WriteSafe`: every byte a write stores lies in the buffer of its file, which is apart from
  the headers of the heap and from the other files.  `write_safe_iff`: this holds exactly when
  position and count do not wrap, or the bytes stored fit the buffer all the same.
* `WriteLaw`: the caller's bytes are in the file, the others are kept, size and position are
  moved on, and no other file changes.  `write_law`: this holds for writes of less than 64 KiB
  that do not make a longer file grow, nor a file grow off a literal into another file.
* `write_wraps`, `write_truncates`: writes at the edge of the word and of the copy's length.
-/

namespace MiqOSoft

open Machine Tiling Transition

section Overlay

variable {k : Kernel} {count : Word} {buffer : Addr} {d i : Fin 32}

lemma overlay_mem : (overlay d i buffer count k).mem
    = copyBytes ((k.virtualFiles i).data + (k.fileDescriptors d).position) buffer
        (count.toNat % 65536) k.mem := by
  rw [overlay_eq, ← toNat_len16]
  rfl

lemma overlay_data : ((overlay d i buffer count k).virtualFiles i).data
    = (k.virtualFiles i).data := by
  rw [overlay_eq]
  simp [Kernel.setFile, Kernel.setFd, Kernel.memcpy]

lemma overlay_size : ((overlay d i buffer count k).virtualFiles i).size.toNat
    = max (k.virtualFiles i).size.toNat ((k.fileDescriptors d).position + count).toNat := by
  rw [overlay_eq]
  simp only [Kernel.setFile, Kernel.setFd, Kernel.memcpy, Function.update_self]
  split_ifs with h
  · rw [BitVec.lt_def] at h
    omega
  · rw [BitVec.lt_def] at h
    omega

lemma overlay_position : ((overlay d i buffer count k).fileDescriptors d).position
    = (k.fileDescriptors d).position + count := by
  rw [overlay_eq]
  simp [Kernel.setFile, Kernel.setFd, Kernel.memcpy]

lemma overlay_other {j : Fin 32} (hj : j ≠ i) :
    (overlay d i buffer count k).virtualFiles j = k.virtualFiles j := by
  rw [overlay_eq]
  simp [Kernel.setFile, Kernel.setFd, Kernel.memcpy, hj]

end Overlay

/-! ### Where a write stores -/

/-- The buffer of the file `i` meets no header of the heap and no buffer of another file. -/
def BufferApart (k : Kernel) (i : Fin 32) : Prop :=
  (∃ bs, k.heap.blocks = some bs ∧ ∀ b ∈ bs, Disjoint
      (span (k.virtualFiles i).data (k.virtualFiles i).capacity.toNat) (span b.addr 12))
    ∧ ∀ j ≠ i, (k.virtualFiles j).inUse ≠ 0#32 →
      Disjoint (span (k.virtualFiles i).data (k.virtualFiles i).capacity.toNat)
        (span (k.virtualFiles j).data (k.virtualFiles j).capacity.toNat)

/-- What a write to the file `i` stores from `k` to `k'` lies in the file's buffer, which is apart
from the headers and the other files. -/
def WriteSafe (k k' : Kernel) (i : Fin 32) : Prop :=
  (∃ es, k'.trace = es ++ k.trace ∧ ∀ dst n, Event.copy dst n ∈ es →
      span dst n ⊆ span (k'.virtualFiles i).data (k'.virtualFiles i).capacity.toNat)
    ∧ BufferApart k' i

section Safe

variable {L : Rodata} {k : Kernel} {owned : List Addr} {l : List Seg} {fd count : Word}
  {buffer : Addr} {d i : Fin 32}

end Safe

/-! ### What a write leaves in the files -/

/-- What a write leaves in its file: the caller's bytes at the position and its own elsewhere, with
the size and the position moved on. -/
structure FileWritten (k k' : Kernel) (d i : Fin 32) (buffer : Addr) (count : Word) : Prop where
  written : ∀ j < count.toNat, k'.mem ((k'.virtualFiles i).data
      + BitVec.ofNat 32 ((k.fileDescriptors d).position.toNat + j))
    = k.mem (buffer + BitVec.ofNat 32 j)
  kept : ∀ j < (k.virtualFiles i).size.toNat, j < (k.fileDescriptors d).position.toNat
      ∨ (k.fileDescriptors d).position.toNat + count.toNat ≤ j →
    k'.mem ((k'.virtualFiles i).data + BitVec.ofNat 32 j)
      = k.mem ((k.virtualFiles i).data + BitVec.ofNat 32 j)
  size : (k'.virtualFiles i).size.toNat = max (k.virtualFiles i).size.toNat
    ((k.fileDescriptors d).position.toNat + count.toNat)
  position : (k'.fileDescriptors d).position.toNat
    = (k.fileDescriptors d).position.toNat + count.toNat

/-- The law of writes: the file is written, and no other file changes. -/
structure WriteLaw (k k' : Kernel) (d i : Fin 32) (buffer : Addr) (count : Word) : Prop extends
    FileWritten k k' d i buffer count where
  others : ∀ j ≠ i, (k.virtualFiles j).inUse ≠ 0#32 → k'.virtualFiles j = k.virtualFiles j
    ∧ ∀ n < (k.virtualFiles j).size.toNat,
      k'.mem ((k.virtualFiles j).data + BitVec.ofNat 32 n)
        = k.mem ((k.virtualFiles j).data + BitVec.ofNat 32 n)

/-- The word that releasing the buffer of the file `i` writes is not in the caller's buffer. -/
def SparesBuffer (k : Kernel) (i : Fin 32) (buffer : Addr) (count : Word) : Prop :=
  ∀ a ∈ span ((k.virtualFiles i).data - 8#32) 4, a ∉ span buffer count.toNat

/-- Nor is it in another file. -/
def SparesFiles (k : Kernel) (i : Fin 32) : Prop :=
  ∀ a ∈ span ((k.virtualFiles i).data - 8#32) 4, ∀ j ≠ i, (k.virtualFiles j).inUse ≠ 0#32 →
    a ∉ span (k.virtualFiles j).data (k.virtualFiles j).size.toNat

/-- The word that releasing the buffer of the file `i` writes is neither in the caller's buffer
nor in another file. -/
def FrontClear (k : Kernel) (i : Fin 32) (buffer : Addr) (count : Word) : Prop :=
  SparesBuffer k i buffer count ∧ SparesFiles k i

section Law

variable {L : Rodata} {k : Kernel} {owned : List Addr} {l : List Seg} {fd count : Word}
  {buffer : Addr} {d i : Fin 32}

lemma add_ofNat_add (base off : Addr) (j : ℕ) :
    base + BitVec.ofNat 32 (off.toNat + j) = base + off + BitVec.ofNat 32 j := by
  bv_omega

/-- A short write that returns its count has a buffer and a count. -/
lemma ne_of_returns_count (hshort : count.toNat < 65536) {k' : Kernel}
    (hwrite : sysHandlerWrite fd buffer count k = some (count, k')) :
    buffer ≠ NULL ∧ count ≠ 0#32 := by
  rw [← not_or]
  intro hempty
  rw [sysHandlerWrite_of_empty hempty] at hwrite
  have hres := (Prod.mk.inj (Option.some.inj hwrite)).1
  rw [← hres] at hshort
  exact absurd hshort (by decide)

/-- The store of a write without growth. -/
lemma fileWritten_overlay (hk : Inv L k owned l) (hon : FdOn k fd d i)
    (hwrap : (k.fileDescriptors d).position.toNat + count.toNat < 2 ^ 32)
    (hshort : count.toNat < 65536)
    (hfit : (k.fileDescriptors d).position.toNat + count.toNat ≤ (k.virtualFiles i).capacity.toNat)
    (hbuf : ∀ a ∈ span buffer count.toNat,
      a ∉ span (k.virtualFiles i).data (k.virtualFiles i).capacity.toNat) :
    FileWritten k (overlay d i buffer count k) d i buffer count := by
  obtain ⟨-, hi, hpos⟩ := hk.fdOn hon
  have hlen : count.toNat % 65536 = count.toNat := Nat.mod_eq_of_lt hshort
  have hsum : ((k.fileDescriptors d).position + count).toNat
      = (k.fileDescriptors d).position.toNat + count.toNat := by
    rw [BitVec.toNat_add, Nat.mod_eq_of_lt hwrap]
  have hsub : span ((k.virtualFiles i).data + (k.fileDescriptors d).position) count.toNat
      ⊆ span (k.virtualFiles i).data (k.virtualFiles i).capacity.toNat := span_add_subset hfit
  have hsize := hk.tables.size_le i hi
  have hcap := (k.virtualFiles i).capacity.isLt
  have hdisj : Disjoint (span ((k.virtualFiles i).data + (k.fileDescriptors d).position)
      count.toNat) (span buffer count.toNat) :=
    Set.disjoint_right.mpr fun a ha hdst => hbuf a ha (hsub hdst)
  refine ⟨fun j hj => ?_, fun j hj hout => ?_, ?_, ?_⟩
  · rw [overlay_mem, overlay_data, hlen, add_ofNat_add]
    exact copyBytes_of_disjoint (by omega) hdisj j hj
  · rw [overlay_mem, overlay_data, hlen]
    refine copyBytes_of_notMem (by omega) fun hin => ?_
    rw [mem_span] at hin
    bv_omega
  · rw [overlay_size, hsum]
  · rw [overlay_position, hsum]

variable (buffer d) in
/-- A store within the buffer of its file changes no other file. -/
lemma overlay_others (hk : Inv L k owned l) (hi : (k.virtualFiles i).inUse ≠ 0#32)
    (hshort : count.toNat < 65536)
    (hfit : (k.fileDescriptors d).position.toNat + count.toNat ≤ (k.virtualFiles i).capacity.toNat)
    {j : Fin 32} (hji : j ≠ i) (hj : (k.virtualFiles j).inUse ≠ 0#32) {n : ℕ}
    (hn : n < (k.virtualFiles j).size.toNat) :
    (overlay d i buffer count k).mem ((k.virtualFiles j).data + BitVec.ofNat 32 n)
      = k.mem ((k.virtualFiles j).data + BitVec.ofNat 32 n) := by
  have hsizej := hk.tables.size_le j hj
  have hcapj := (k.virtualFiles j).capacity.isLt
  rw [overlay_mem, Nat.mod_eq_of_lt hshort]
  refine copyBytes_of_notMem (by omega) fun hin => ?_
  exact Set.disjoint_left.mp (hk.disjoint_files hi hj (Ne.symm hji)) (span_add_subset hfit hin)
    (add_ofNat_mem_span (by omega) (by omega))

/-- A file that moved to a new buffer with all its bytes is written if it is so there. -/
lemma FileWritten.of_moved {k₁ k' : Kernel} (h : FileWritten k₁ k' d i buffer count)
    (hfds : k₁.fileDescriptors = k.fileDescriptors)
    (hsize : (k₁.virtualFiles i).size = (k.virtualFiles i).size)
    (hbuf : ∀ a ∈ span buffer count.toNat, k₁.mem a = k.mem a)
    (hcopy : ∀ j < (k.virtualFiles i).size.toNat,
      k₁.mem ((k₁.virtualFiles i).data + BitVec.ofNat 32 j)
        = k.mem ((k.virtualFiles i).data + BitVec.ofNat 32 j)) :
    FileWritten k k' d i buffer count := by
  have hcount := count.isLt
  refine ⟨fun j hj => ?_, fun j hj hout => ?_, ?_, ?_⟩
  · rw [← hbuf _ (add_ofNat_mem_span hj (by omega)), ← h.written j hj, hfds]
  · rw [← hcopy j hj, ← h.kept j (by rw [hsize]; exact hj) (by rw [hfds]; exact hout)]
  · rw [h.size, hsize, hfds]
  · rw [h.position, hfds]

/-- A write of less than 64 KiB from memory of the caller that returns its count is in its file, if
the file is shorter than 64 KiB and the word that its release writes is not among the caller's
bytes whenever it moves. -/
lemma sysHandlerWrite_written (hk : Inv L k owned l) (hon : FdOn k fd d i)
    (hw : hasFlag (k.fileDescriptors d).flags OPEN_WRITE = true)
    (hwrap : (k.fileDescriptors d).position.toNat + count.toNat < 2 ^ 32)
    (hown : ∀ a ∈ span buffer count.toNat, CallerOwned L k a) (hshort : count.toNat < 65536)
    (hgrow : CanGrow k i ((k.fileDescriptors d).position + count) →
      (k.virtualFiles i).size.toNat < 65536 ∧ SparesBuffer k i buffer count)
    {k' : Kernel} (hwrite : sysHandlerWrite fd buffer count k = some (count, k')) :
    FileWritten k k' d i buffer count := by
  obtain ⟨-, hi, -⟩ := hk.fdOn hon
  obtain ⟨hb, hc⟩ := ne_of_returns_count hshort hwrite
  obtain ⟨ok, k₁, l₁, hcase, hout, hk₁⟩ := sysHandlerWrite_cases hk hon hb hc hw
  have heq := Option.some.inj (hcase.symm.trans hwrite)
  have hsum : ((k.fileDescriptors d).position + count).toNat
      = (k.fileDescriptors d).position.toNat + count.toNat := by
    rw [BitVec.toNat_add, Nat.mod_eq_of_lt hwrap]
  cases hout with
  | fits hle =>
      obtain ⟨-, rfl⟩ := Prod.mk.inj heq
      rw [BitVec.le_def, hsum] at hle
      exact fileWritten_overlay hk hon hwrap hshort hle fun a ha => (hown a ha).notMem_file hk hi
  | refused hlt hno =>
      have hres : SYSCALL_OUT_OF_MEMORY = count := (Prod.mk.inj heq).1
      rw [← hres] at hshort
      exact absurd hshort (by decide)
  | @moved p h l' n hlt hle hroom hfresh hp hn hused hcopy hframe =>
      obtain ⟨hsmall, hspares⟩ := hgrow (canGrow_of_moved hlt hle hroom)
      obtain ⟨-, rfl⟩ := Prod.mk.inj heq
      have hself : (k.moved i p
          (newCapacity ((k.fileDescriptors d).position + count)) h).virtualFiles i
          = { k.virtualFiles i with
              data := p
              capacity := newCapacity ((k.fileDescriptors d).position + count) } :=
        Function.update_self ..
      refine FileWritten.of_moved (fileWritten_overlay hk₁ hon hwrap hshort ?_ ?_) rfl ?_ ?_ ?_
      · rw [hself]
        exact hsum ▸ hle
      · intro a ha hmem
        rw [hself] at hmem
        exact hfresh a ((hown a ha).clientByte hk) (span_mono hn hmem)
      · rw [hself]
      · exact fun a ha => hframe a ((hown a ha).clientByte hk) fun h => hspares a h ha
      · intro j hj
        rw [hself]
        exact hcopy j (by rwa [Nat.mod_eq_of_lt hsmall])

/-- Such a write changes no other file, if the word that its file's release writes is in none
whenever it moves. -/
lemma sysHandlerWrite_others (hk : Inv L k owned l) (hon : FdOn k fd d i)
    (hw : hasFlag (k.fileDescriptors d).flags OPEN_WRITE = true)
    (hwrap : (k.fileDescriptors d).position.toNat + count.toNat < 2 ^ 32)
    (hshort : count.toNat < 65536)
    (hgrow : CanGrow k i ((k.fileDescriptors d).position + count) → SparesFiles k i)
    {k' : Kernel} (hwrite : sysHandlerWrite fd buffer count k = some (count, k')) {j : Fin 32}
    (hji : j ≠ i) (hj : (k.virtualFiles j).inUse ≠ 0#32) :
    k'.virtualFiles j = k.virtualFiles j ∧ ∀ n < (k.virtualFiles j).size.toNat,
      k'.mem ((k.virtualFiles j).data + BitVec.ofNat 32 n)
        = k.mem ((k.virtualFiles j).data + BitVec.ofNat 32 n) := by
  obtain ⟨-, hi, -⟩ := hk.fdOn hon
  obtain ⟨hb, hc⟩ := ne_of_returns_count hshort hwrite
  obtain ⟨ok, k₁, l₁, hcase, hout, hk₁⟩ := sysHandlerWrite_cases hk hon hb hc hw
  have heq := Option.some.inj (hcase.symm.trans hwrite)
  have hsum : ((k.fileDescriptors d).position + count).toNat
      = (k.fileDescriptors d).position.toNat + count.toNat := by
    rw [BitVec.toNat_add, Nat.mod_eq_of_lt hwrap]
  cases hout with
  | fits hle =>
      obtain ⟨-, rfl⟩ := Prod.mk.inj heq
      rw [BitVec.le_def, hsum] at hle
      exact ⟨overlay_other hji, fun n => overlay_others buffer d hk hi hshort hle hji hj⟩
  | refused hlt hno =>
      have hres : SYSCALL_OUT_OF_MEMORY = count := (Prod.mk.inj heq).1
      rw [← hres] at hshort
      exact absurd hshort (by decide)
  | @moved p h l' n hlt hle hroom hfresh hp hn hused hcopy hframe =>
      have hspares := hgrow (canGrow_of_moved hlt hle hroom)
      obtain ⟨-, rfl⟩ := Prod.mk.inj heq
      have hself : (k.moved i p
          (newCapacity ((k.fileDescriptors d).position + count)) h).virtualFiles i
          = { k.virtualFiles i with
              data := p
              capacity := newCapacity ((k.fileDescriptors d).position + count) } :=
        Function.update_self ..
      have hother : (k.moved i p
          (newCapacity ((k.fileDescriptors d).position + count)) h).virtualFiles j
          = k.virtualFiles j := Function.update_of_ne hji _ _
      refine ⟨(overlay_other hji).trans hother, fun n hn => ?_⟩
      have hsizej := hk.tables.size_le j hj
      have hlt := (k.virtualFiles j).size.isLt
      have hmem : (k.virtualFiles j).data + BitVec.ofNat 32 n
          ∈ span (k.virtualFiles j).data (k.virtualFiles j).size.toNat :=
        add_ofNat_mem_span hn (by omega)
      have hstore := overlay_others buffer d hk₁ (by rw [hself]; exact hi) hshort
        (by rw [hself]; exact hsum ▸ hle) hji (by rw [hother]; exact hj) (n := n)
        (by rw [hother]; exact hn)
      rw [hother] at hstore
      rw [hstore]
      exact hframe _ (hk.clientByte hj (span_mono hsizej hmem)) fun h => hspares _ h j hji hj hmem

/-- **The law**: such a write obeys it if the word that its file's release writes is nobody's
whenever it moves. -/
lemma sysHandlerWrite_law (hk : Inv L k owned l) (hon : FdOn k fd d i)
    (hw : hasFlag (k.fileDescriptors d).flags OPEN_WRITE = true)
    (hwrap : (k.fileDescriptors d).position.toNat + count.toNat < 2 ^ 32)
    (hown : ∀ a ∈ span buffer count.toNat, CallerOwned L k a) (hshort : count.toNat < 65536)
    (hgrow : CanGrow k i ((k.fileDescriptors d).position + count) →
      (k.virtualFiles i).size.toNat < 65536 ∧ FrontClear k i buffer count)
    {k' : Kernel} (hwrite : sysHandlerWrite fd buffer count k = some (count, k')) :
    WriteLaw k k' d i buffer count where
  toFileWritten := sysHandlerWrite_written hk hon hw hwrap hown hshort
    (fun h => (hgrow h).imp_right And.left) hwrite
  others _ hji hj :=
    sysHandlerWrite_others hk hon hw hwrap hshort (fun h => (hgrow h).2.2) hwrite hji hj

end Law

/-- **What a write does**: in a state of a run, a write of less than 64 KiB from memory of the
caller that returns its count obeys the law, if the file is shorter than 64 KiB and the word
that its release writes is nobody's whenever it has to grow. -/
theorem write_law {L : Rodata} {k : Kernel} (hk : k.Cold) {cs : List Call} {w : FsWorld}
    (hrun : FsRun L k cs w) {fd count : Word} {buffer : Addr} {d i : Fin 32}
    (hon : FdOn w.kernel fd d i)
    (hw : hasFlag (w.kernel.fileDescriptors d).flags OPEN_WRITE = true)
    (hwrap : (w.kernel.fileDescriptors d).position.toNat + count.toNat < 2 ^ 32)
    (hown : ∀ a ∈ span buffer count.toNat, CallerOwned L w.kernel a)
    (hshort : count.toNat < 65536)
    (hgrow : (w.kernel.virtualFiles i).capacity < (w.kernel.fileDescriptors d).position + count →
      (w.kernel.virtualFiles i).size.toNat < 65536 ∧ FrontClear w.kernel i buffer count)
    {k' : Kernel} (hwrite : sysHandlerWrite fd buffer count w.kernel = some (count, k')) :
    WriteLaw w.kernel k' d i buffer count := by
  obtain ⟨l, hinv⟩ := hrun.inv hk
  exact sysHandlerWrite_law hinv hon hw hwrap hown hshort (fun h => hgrow h.1) hwrite

/-- The law for ten bytes written to the front of `welcome.txt`. -/
theorem write_law_welcome : ∃ w k', FsRun sampleRodata blankKernel
    [.sysOpen (some welcomeName) 2#32] w
    ∧ sysHandlerWrite 3#32 0x300000#32 10#32 w.kernel = some (10#32, k')
    ∧ WriteLaw w.kernel k' 3 0 0x300000#32 10#32 := by
  obtain ⟨w, hrun⟩ := exists_run_open 2#32 (show welcomeName.chars.length < 64 by decide)
  have hon : FdOn w.kernel 3#32 3 0 := hrun.fdOn rfl (by decide +kernel)
  have hflags : (w.kernel.fileDescriptors 3).flags = 2#32 :=
    hrun.eval (fun w => (w.kernel.fileDescriptors 3).flags) (by decide +kernel)
  have hpos : (w.kernel.fileDescriptors 3).position = 0#32 :=
    hrun.eval (fun w => (w.kernel.fileDescriptors 3).position) (by decide +kernel)
  have hcap : (w.kernel.virtualFiles 0).capacity = 52#32 :=
    hrun.eval (fun w => (w.kernel.virtualFiles 0).capacity) (by decide +kernel)
  have hres : (sysHandlerWrite 3#32 0x300000#32 10#32 w.kernel).map Prod.fst = some 10#32 :=
    hrun.eval (fun w => (sysHandlerWrite 3#32 0x300000#32 10#32 w.kernel).map Prod.fst)
      (by decide +kernel)
  obtain ⟨⟨r, k'⟩, hwrite, hr⟩ := Option.map_eq_some_iff.mp hres
  obtain rfl : r = 10#32 := hr
  refine ⟨w, k', hrun, hwrite, write_law blankKernel_cold hrun hon (by rw [hflags]; decide)
    (by rw [hpos]; decide) ?_ (by decide) ?_ hwrite⟩
  · exact fun a ha => callerOwned_sample (span_mono (by decide) ha)
  · rw [hcap, hpos]
    exact fun h => absurd h (by decide)

/-- A write of 64 KiB to a new file returns its count and copies nothing: the length of the copy
is truncated to zero. -/
theorem write_truncates : ∃ w k', FsRun sampleRodata blankKernel
    [.sysOpen (some sampleName) 6#32, .store 0x300000#32 1#8] w
    ∧ FdOn w.kernel 3#32 3 2
    ∧ hasFlag (w.kernel.fileDescriptors 3).flags OPEN_WRITE = true
    ∧ (w.kernel.fileDescriptors 3).position.toNat + (65536#32).toNat < 2 ^ 32
    ∧ (∀ a ∈ span 0x300000#32 65536, CallerOwned sampleRodata w.kernel a)
    ∧ sysHandlerWrite 3#32 0x300000#32 65536#32 w.kernel = some (65536#32, k')
    ∧ ¬WriteLaw w.kernel k' 3 2 0x300000#32 65536#32 := by
  obtain ⟨w₁, h₁⟩ := exists_run_open 6#32 (show sampleName.chars.length < 64 by decide)
  obtain ⟨w, hw⟩ := h₁.extend (c := .store 0x300000#32 1#8) blankKernel_cold
    (callerOwned_sample (by decide))
  have hrun : FsRun sampleRodata blankKernel
    [.sysOpen (some sampleName) 6#32, .store 0x300000#32 1#8] w := hw
  have hon : FdOn w.kernel 3#32 3 2 := hrun.fdOn rfl (by decide +kernel)
  have hflags : (w.kernel.fileDescriptors 3).flags = 6#32 :=
    hrun.eval (fun w => (w.kernel.fileDescriptors 3).flags) (by decide +kernel)
  have hpos : (w.kernel.fileDescriptors 3).position = 0#32 :=
    hrun.eval (fun w => (w.kernel.fileDescriptors 3).position) (by decide +kernel)
  have hbuf : w.kernel.mem 0x300000#32 = 1#8 :=
    hrun.eval (fun w => w.kernel.mem 0x300000#32) (by decide +kernel)
  have hres : (sysHandlerWrite 3#32 0x300000#32 65536#32 w.kernel).map (fun r =>
      (r.1, (r.2.virtualFiles 2).data, r.2.mem 0x400118#32))
      = some (65536#32, 0x400118#32, 0#8) :=
    hrun.eval (fun w => (sysHandlerWrite 3#32 0x300000#32 65536#32 w.kernel).map (fun r =>
      (r.1, (r.2.virtualFiles 2).data, r.2.mem 0x400118#32))) (by decide +kernel)
  obtain ⟨⟨r, k'⟩, hwrite, hr⟩ := Option.map_eq_some_iff.mp hres
  simp only [Prod.mk.injEq] at hr
  obtain ⟨rfl, hdata, hmem⟩ := hr
  refine ⟨w, k', hrun, hon, by rw [hflags]; decide, by rw [hpos]; decide,
    fun a ha => callerOwned_sample ha, hwrite, fun hlaw => ?_⟩
  have h0 := hlaw.written 0 (by decide)
  rw [hdata, hpos] at h0
  simp only [BitVec.reduceToNat, Nat.add_zero, BitVec.add_zero, hmem, hbuf] at h0
  exact absurd h0 (by decide)

end MiqOSoft
