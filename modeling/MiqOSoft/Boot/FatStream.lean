import MiqOSoft.Boot.FatSteps

/-!
A file of the FAT driver as a stream of bytes.

* `walk`, `dirByte`: the states of the driver as a file moves on from sector to sector, and the
  bytes that pass through its buffer.
* `FatState.place`: a file put at a position, with a size.  Where it goes next does not depend on
  them (`fatNextSector_place`).
* `streamState`: the state in which a file that moves on from `s` has delivered `o` bytes.
* `fatRead_streams`: from there `FAT_Read` delivers the next bytes of the stream, and leaves such
  a state again.  It stops short only where a move fails.
-/

namespace MiqOSoft

open Machine

/-! ### Moving on -/

/-- The file put at a position, with a size. -/
def FatState.place (s : FatState) (file : FatHandle) (position size : Word) : FatState :=
  s.setFile file { s.file file with position, size }

/-- The file has run into the end of its cluster chain. -/
def ChainEnds (file : FatHandle) (s : FatState) : Prop :=
  match file with
  | .root => False
  | .slot i => FAT_CHAIN_END ≤ (s.openedFiles i).currentCluster

instance (file : FatHandle) (s : FatState) : Decidable (ChainEnds file s) :=
  match file with
  | .root => inferInstanceAs (Decidable False)
  | .slot i => inferInstanceAs (Decidable (FAT_CHAIN_END ≤ (s.openedFiles i).currentCluster))

/-- The state of the driver once the file has moved on by `n` sectors. -/
def walk (disk : Partition) (file : FatHandle) (s : FatState) : ℕ → FatState
  | 0 => s
  | n + 1 => (fatNextSector disk file (walk disk file s n)).2

/-- The bytes that pass through the buffer of the file, from the front of the sector it stands
in. -/
def dirByte (disk : Partition) (file : FatHandle) (s : FatState) (k : ℕ) : Byte :=
  ((walk disk file s (k / 512)).file file).buffer (k % 512)

section

variable {disk : Partition} {file : FatHandle} {s : FatState} {position size : Word}

@[simp] lemma file_place : (s.place file position size).file file
    = { s.file file with position, size } :=
  FatState.file_setFile_self s file _

@[simp] lemma openedFiles_place {i : Fin MAX_FILE_HANDLES} :
    (s.place (.slot i) position size).openedFiles i = { s.openedFiles i with position, size } :=
  @file_place (.slot i) s position size

lemma place_self : s.place file (s.file file).position (s.file file).size = s :=
  FatState.setFile_file s file

lemma fatReadBuffer_place (lba : Word) :
    fatReadBuffer disk file lba (s.place file position size)
      = ((fatReadBuffer disk file lba s).1,
          (fatReadBuffer disk file lba s).2.place file position size) := by
  cases hfails : disk.fails s.requests lba 1 with
  | true =>
      rw [fatReadBuffer_of_fails hfails,
        fatReadBuffer_of_fails (by simpa [FatState.place] using hfails)]
      cases file <;> rfl
  | false =>
      rw [fatReadBuffer_of_not_fails hfails,
        fatReadBuffer_of_not_fails (by simpa [FatState.place] using hfails)]
      refine Prod.ext rfl ?_
      cases file with
      | root => rfl
      | slot i => simp [FatState.place, FatState.setFile, FatState.file]

lemma fatAdvance_place (i : Fin MAX_FILE_HANDLES) :
    fatAdvance disk i (s.place (.slot i) position size)
      = (fatAdvance disk i s).place (.slot i) position size := by
  have hboot : (s.place (.slot i) position size).bootSector = s.bootSector := rfl
  simp only [fatAdvance, openedFiles_place, hboot]
  split_ifs
  · rw [FatState.place, fatNextCluster_setFile]
    simp [FatState.place]
  · simp [FatState.place]

/-- A read leaves the cluster that the file stands in. -/
lemma currentCluster_readBuffer (i : Fin MAX_FILE_HANDLES) (lba : Word) :
    ((fatReadBuffer disk (.slot i) lba s).2.openedFiles i).currentCluster
      = (s.openedFiles i).currentCluster := by
  obtain ⟨buffer, heq⟩ := fatReadBuffer_eq disk (.slot i) lba s
  rw [heq, FatState.openedFiles_setFile_self]
  rfl

lemma chainEnds_next_iff (i : Fin MAX_FILE_HANDLES) :
    ChainEnds (.slot i) (fatNextSector disk (.slot i) s).2 ↔
      FAT_CHAIN_END ≤ ((fatAdvance disk i s).openedFiles i).currentCluster := by
  by_cases hend : FAT_CHAIN_END ≤ ((fatAdvance disk i s).openedFiles i).currentCluster
  · rw [fatNextSector_end hend]
    refine iff_of_true ?_ hend
    simpa [ChainEnds, FatState.setFile] using hend
  · rw [fatNextSector_slot hend, ChainEnds, currentCluster_readBuffer]

/-- A file at the end of its chain does not get a next sector. -/
lemma fatNextSector_of_chainEnds (hend : ChainEnds file (fatNextSector disk file s).2) :
    (fatNextSector disk file s).1 = false := by
  cases file with
  | root => exact absurd hend id
  | slot i => rw [fatNextSector_end ((chainEnds_next_iff i).mp hend)]

/-- Where the file goes next does not depend on its position and its size; at the end of the
chain the position becomes the size. -/
theorem fatNextSector_place (position size : Word) :
    fatNextSector disk file (s.place file position size)
      = ((fatNextSector disk file s).1, (fatNextSector disk file s).2.place file position
          (if ChainEnds file (fatNextSector disk file s).2 then position else size)) := by
  cases file with
  | root =>
      have hmove : (s.place .root position size).setFile .root
            { (s.place .root position size).rootDirectory with
              currentCluster := (s.place .root position size).rootDirectory.currentCluster + 1#32 }
          = (s.setFile .root { s.rootDirectory with
              currentCluster := s.rootDirectory.currentCluster + 1#32 }).place .root
                position size := rfl
      rw [if_neg (show ¬ChainEnds .root _ from id), fatNextSector, fatNextSector]
      dsimp only
      rw [hmove, fatReadBuffer_place]
      rfl
  | slot i =>
      simp only [chainEnds_next_iff]
      by_cases hend : FAT_CHAIN_END ≤ ((fatAdvance disk i s).openedFiles i).currentCluster
      · rw [if_pos hend, fatNextSector_end hend,
          fatNextSector_end (by rw [fatAdvance_place]; simpa using hend), fatAdvance_place]
        simp [FatState.place, FatState.setFile, FatState.file]
      · rw [if_neg hend, fatNextSector_slot hend,
          fatNextSector_slot (by rw [fatAdvance_place]; simpa using hend), fatAdvance_place,
          fatReadBuffer_place, openedFiles_place]
        rfl

lemma frame_walk (disk : Partition) (file : FatHandle) (s : FatState) (m : ℕ) :
    FrameOf file s (walk disk file s m) := by
  induction m with
  | zero => exact FrameOf.refl file s
  | succ m ih => exact ih.trans (frame_nextSector disk file _)

lemma setFile_moved_place (take : Word) :
    (s.place file position size).setFile file (((s.place file position size).file file).moved take)
      = s.place file (position + take) size := by
  rw [file_place, FatState.place, FatState.setFile_setFile]
  rfl

end

/-! ### Reading the stream -/

/-- The state in which the file, moving on from `s`, has delivered `o` bytes. -/
def streamState (disk : Partition) (file : FatHandle) (s : FatState) (o : ℕ) (size : Word) :
    FatState :=
  (walk disk file s (o / 512)).place file (BitVec.ofNat 32 o) size

/-- The size once `len` bytes from offset `o` on are delivered: the last of them may lead to the
end of the chain. -/
def sizeAfter (disk : Partition) (file : FatHandle) (s : FatState) (o len : ℕ) (size : Word) :
    Word :=
  if 0 < len ∧ (o + len) % 512 = 0 ∧ ChainEnds file (walk disk file s ((o + len) / 512)) then
    BitVec.ofNat 32 (o + len)
  else size

/-- A read of `n` bytes from offset `o` on delivers bytes of the stream, up to where a move
fails. -/
structure Streams (disk : Partition) (file : FatHandle) (s : FatState) (o n : ℕ) (size : Word)
    (r : List Byte × FatState) : Prop where
  bytes : r.1 = (List.range r.1.length).map fun k => dirByte disk file s (o + k)
  length : r.1.length ≤ n
  state : r.2 = streamState disk file s (o + r.1.length)
    (sizeAfter disk file s o r.1.length size)
  moves : ∀ m, o / 512 ≤ m → 512 * (m + 1) < o + r.1.length →
    (fatNextSector disk file (walk disk file s m)).1 = true
  short : r.1.length < n → ∃ m, o + r.1.length = 512 * (m + 1) ∧ o / 512 ≤ m ∧
    (fatNextSector disk file (walk disk file s m)).1 = false

section

variable {disk : Partition} {file : FatHandle} {s : FatState}

@[simp] lemma position_streamState (o : ℕ) (size : Word) :
    ((streamState disk file s o size).file file).position = BitVec.ofNat 32 o := by
  rw [streamState, file_place]

@[simp] lemma size_streamState (o : ℕ) (size : Word) :
    ((streamState disk file s o size).file file).size = size := by
  rw [streamState, file_place]

lemma buffer_streamState (o : ℕ) (size : Word) :
    ((streamState disk file s o size).file file).buffer
      = ((walk disk file s (o / 512)).file file).buffer := by
  rw [streamState, file_place]

lemma isDirectory_streamState (o : ℕ) (size : Word) :
    ((streamState disk file s o size).file file).isDirectory = (s.file file).isDirectory := by
  rw [streamState, file_place]
  exact (frame_walk disk file s _).isDirectory

/-- A file that has just been opened. -/
lemma streamState_zero (hpos : (s.file file).position = 0#32) :
    streamState disk file s 0 (s.file file).size = s := by
  have h := @place_self file s
  rw [hpos] at h
  exact h

variable (disk file s) in
lemma toNat_leftInBuffer_streamState (o : ℕ) (size : Word) :
    ((streamState disk file s o size).file file).leftInBuffer.toNat = 512 - o % 512 := by
  rw [toNat_leftInBuffer, position_streamState, BitVec.toNat_ofNat]
  omega

variable (disk file s) in
/-- Up to the end of the buffer its bytes are those of the stream. -/
lemma taken_streamState (o : ℕ) (size : Word) {take : Word} (h : take.toNat ≤ 512 - o % 512) :
    ((streamState disk file s o size).file file).taken take
      = (List.range take.toNat).map fun k => dirByte disk file s (o + k) := by
  rw [FatFileData.taken, buffer_streamState, toNat_mod_sector, position_streamState,
    BitVec.toNat_ofNat]
  refine List.map_congr_left fun k hk => ?_
  have hk := List.mem_range.mp hk
  have hdiv : (o + k) / 512 = o / 512 := by omega
  have hmod : (o + k) % 512 = o % 2 ^ 32 % 512 + k := by omega
  rw [dirByte, hdiv, hmod]

/-- The buffer is not used up. -/
lemma moved_streamState {o k : ℕ} (hk : o % 512 + k < 512) (size : Word) {take : Word}
    (htake : take.toNat = k) :
    (streamState disk file s o size).setFile file
        (((streamState disk file s o size).file file).moved take)
      = streamState disk file s (o + k) size := by
  have hdiv : (o + k) / 512 = o / 512 := by omega
  have hpos : BitVec.ofNat 32 o + take = BitVec.ofNat 32 (o + k) := by
    rw [BitVec.ofNat_add, ← htake, BitVec.ofNat_toNat, BitVec.setWidth_eq]
  rw [streamState, setFile_moved_place, hpos, streamState, hdiv]

variable (disk file s) in
/-- The buffer is used up, and the file moves on. -/
lemma nextSector_streamState (o : ℕ) (size : Word) :
    fatNextSector disk file ((streamState disk file s o size).setFile file
        (((streamState disk file s o size).file file).moved
          ((streamState disk file s o size).file file).leftInBuffer))
      = ((fatNextSector disk file (walk disk file s (o / 512))).1,
          streamState disk file s (o + (512 - o % 512))
            (sizeAfter disk file s o (512 - o % 512) size)) := by
  have hleft := toNat_leftInBuffer_streamState disk file s o size
  generalize ((streamState disk file s o size).file file).leftInBuffer = left at hleft
  have hdiv : (o + (512 - o % 512)) / 512 = o / 512 + 1 := by omega
  have hend : 0 < 512 - o % 512 ∧ (o + (512 - o % 512)) % 512 = 0 := by omega
  have hpos : BitVec.ofNat 32 o + left = BitVec.ofNat 32 (o + (512 - o % 512)) := by
    rw [BitVec.ofNat_add, ← hleft, BitVec.ofNat_toNat, BitVec.setWidth_eq]
  rw [streamState, setFile_moved_place, hpos, fatNextSector_place, streamState, sizeAfter, hdiv,
    ← walk]
  simp only [hend.1, hend.2, true_and]

/-- Nothing is asked for. -/
lemma streams_nil (o : ℕ) (size : Word) :
    Streams disk file s o 0 size ([], streamState disk file s o size) where
  bytes := rfl
  length := Nat.zero_le _
  state := by rw [sizeAfter, if_neg fun h => absurd h.1 (lt_irrefl 0)]; rfl
  moves m hm hlt := by
    have hlt : 512 * (m + 1) < o := hlt
    omega
  short h := absurd h (lt_irrefl 0)

/-- A read inside the buffer. -/
lemma streams_inside {o n : ℕ} (hn : o % 512 + n < 512) (size : Word) :
    Streams disk file s o n size
      ((List.range n).map fun k => dirByte disk file s (o + k),
        streamState disk file s (o + n) size) where
  bytes := by simp
  length := by simp
  state := by
    have hnone : ¬(0 < n ∧ (o + n) % 512 = 0 ∧ ChainEnds file (walk disk file s ((o + n) / 512))) :=
      fun h => by omega
    simp only [List.length_map, List.length_range, sizeAfter, if_neg hnone]
  moves m hm hlt := by
    simp only [List.length_map, List.length_range] at hlt
    omega
  short h := by simp at h

/-- A read that uses the buffer up, with a move that fails. -/
lemma streams_break {o n : ℕ} (hn : 512 - o % 512 ≤ n) (size : Word)
    (hfails : (fatNextSector disk file (walk disk file s (o / 512))).1 = false) :
    Streams disk file s o n size
      ((List.range (512 - o % 512)).map fun k => dirByte disk file s (o + k),
        streamState disk file s (o + (512 - o % 512))
          (sizeAfter disk file s o (512 - o % 512) size)) where
  bytes := by simp
  length := by simpa using hn
  state := by simp only [List.length_map, List.length_range]
  moves m hm hlt := by
    simp only [List.length_map, List.length_range] at hlt
    omega
  short _ := by
    refine ⟨o / 512, ?_, le_rfl, hfails⟩
    simp only [List.length_map, List.length_range]
    omega

/-- After a move that does not fail the size is as it was. -/
lemma sizeAfter_of_move {o : ℕ} (size : Word)
    (hmove : (fatNextSector disk file (walk disk file s (o / 512))).1 = true) :
    sizeAfter disk file s o (512 - o % 512) size = size := by
  have hdiv : (o + (512 - o % 512)) / 512 = o / 512 + 1 := by omega
  refine if_neg fun h => ?_
  rw [hdiv, walk] at h
  exact Bool.false_ne_true ((fatNextSector_of_chainEnds h.2.2).symm.trans hmove)

/-- A read that uses the buffer up, moves on, and goes on from there. -/
lemma Streams.next {o n : ℕ} (hn : 512 - o % 512 ≤ n) {size : Word} {r : List Byte × FatState}
    (hmove : (fatNextSector disk file (walk disk file s (o / 512))).1 = true)
    (h : Streams disk file s (o + (512 - o % 512)) (n - (512 - o % 512)) size r) :
    Streams disk file s o n size
      (((List.range (512 - o % 512)).map fun k => dirByte disk file s (o + k)) ++ r.1, r.2) := by
  have hlength := h.length
  have hdiv : (o + (512 - o % 512)) / 512 = o / 512 + 1 := by omega
  have hsum : (((List.range (512 - o % 512)).map fun k => dirByte disk file s (o + k))
      ++ r.1).length = 512 - o % 512 + r.1.length := by simp
  refine ⟨?_, ?_, ?_, fun m hm hlt => ?_, fun hlt => ?_⟩
  · rw [hsum, List.range_add, List.map_append, List.map_map]
    refine congrArg _ (h.bytes.trans (List.map_congr_left fun k _ => ?_))
    rw [Function.comp_apply, Nat.add_assoc]
  · dsimp only
    omega
  · dsimp only
    rw [h.state, hsum, ← Nat.add_assoc]
    by_cases hzero : r.1.length = 0
    · rw [hzero, Nat.add_zero, Nat.add_zero, sizeAfter_of_move size hmove, sizeAfter,
        if_neg fun h => absurd h.1 (lt_irrefl 0)]
    · have hpos : 0 < r.1.length := Nat.pos_of_ne_zero hzero
      have hpos' : 0 < 512 - o % 512 + r.1.length := by omega
      simp only [sizeAfter, ← Nat.add_assoc, hpos, hpos', true_and]
  · dsimp only at hlt
    rw [hsum, ← Nat.add_assoc] at hlt
    rcases Nat.eq_or_lt_of_le hm with rfl | hm'
    · exact hmove
    · exact h.moves m (by omega) hlt
  · dsimp only at hlt
    rw [hsum] at hlt
    obtain ⟨m, hm, hle, hfails⟩ := h.short (by omega)
    refine ⟨m, ?_, by omega, hfails⟩
    dsimp only
    rw [hsum]
    omega

/-- **The loop of `FAT_Read`** delivers the stream. -/
theorem readLoop_streams (fuel : ℕ) {byteCount : Word} (hfuel : byteCount.toNat ≤ fuel) (o : ℕ)
    (size : Word) : Streams disk file s o byteCount.toNat size
      (fatReadLoop disk file fuel byteCount (streamState disk file s o size)) := by
  induction fuel generalizing byteCount o with
  | zero =>
      have hzero : byteCount.toNat = 0 := Nat.le_zero.mp hfuel
      rw [hzero]
      exact streams_nil o size
  | succ fuel ih =>
      by_cases hzero : byteCount = 0#32
      · rw [hzero, fatReadLoop_zero]
        exact streams_nil o size
      have hleft := toNat_leftInBuffer_streamState disk file s o size
      have hmin := toNat_wordMin byteCount
        ((streamState disk file s o size).file file).leftInBuffer
      by_cases hused : ((streamState disk file s o size).file file).leftInBuffer
          = wordMin byteCount ((streamState disk file s o size).file file).leftInBuffer
      · rw [← hused, hleft] at hmin
        have hn : 512 - o % 512 ≤ byteCount.toNat := by omega
        have htaken := taken_streamState disk file s o size hleft.le
        rw [hleft] at htaken
        have hnext := nextSector_streamState disk file s o size
        cases hmove : (fatNextSector disk file (walk disk file s (o / 512))).1 with
        | false =>
            rw [hmove] at hnext
            rw [fatReadLoop_break hzero hused hnext, htaken]
            exact streams_break hn size hmove
        | true =>
            rw [hmove, sizeAfter_of_move size hmove] at hnext
            have hrest : (byteCount
                - ((streamState disk file s o size).file file).leftInBuffer).toNat
                = byteCount.toNat - (512 - o % 512) := by
              rw [BitVec.toNat_sub_of_le (by rw [BitVec.le_def, hleft]; exact hn), hleft]
            have hrec := ih (hrest.trans_le (by omega)) (o + (512 - o % 512))
            rw [hrest] at hrec
            rw [fatReadLoop_next hzero hused hnext, htaken]
            exact hrec.next hn hmove
      · have hlt : byteCount.toNat < 512 - o % 512 := by
          by_contra hge
          refine hused (BitVec.eq_of_toNat_eq ?_)
          rw [hmin, hleft]
          omega
        have htake : wordMin byteCount ((streamState disk file s o size).file file).leftInBuffer
            = byteCount := wordMin_of_lt (by omega)
        have hstep := @fatReadLoop_inside disk file _ fuel _ hzero hused
        simp only [htake, BitVec.sub_self, fatReadLoop_zero, List.append_nil] at hstep
        rw [hstep, moved_streamState (by omega) size rfl,
          taken_streamState disk file s o size hlt.le]
        exact streams_inside (by omega) size

/-- **`FAT_Read`** delivers the stream. -/
theorem fatRead_streams (byteCount : Word) (o : ℕ) (size : Word) :
    Streams disk file s o (((streamState disk file s o size).file file).clamp byteCount).toNat size
      (fatRead disk file byteCount (streamState disk file s o size)) :=
  readLoop_streams _ le_rfl o size

end

end MiqOSoft
