import MiqOSoft.Boot.FatDiskChain

/-!
The sectors that reading a file requests.

* `InChain`, `AtEnd`: a file that stands in its chain, or has run into the end of it, after some
  bytes were delivered.
* `read_inChain`, `read_atEnd`: one call of `FAT_Read`; at the end it does nothing more.
* `reads_stream`: any calls deliver the stream of the file, and leave it in its chain or at its end.
* `fatReads_requests`: the sectors requested are those of the chain on disk, in order.
-/

namespace MiqOSoft

open Machine Transition Linked

/-- The file stands in its chain, `o` bytes being delivered.  Nothing is said about what lies
behind sector `K`. -/
structure InChain (disk : Partition) (i : Fin MAX_FILE_HANDLES) (s : FatState) (c₀ K o : ℕ)
    (t : FatState) : Prop where
  state : ∃ size, t = streamState disk (.slot i) s o size ∧
    (o / 512 ≤ K → size = (s.openedFiles i).size)
  cells : ∀ m ≤ o / 512, m ≤ K → cell (diskNext disk s) (clusterSize s) c₀ m ≠ none

/-- All of the chain is delivered, and the position is the size. -/
structure AtEnd (disk : Partition) (i : Fin MAX_FILE_HANDLES) (s : FatState) (c₀ K o : ℕ)
    (t : FatState) : Prop where
  state : t = streamState disk (.slot i) s o (BitVec.ofNat 32 o)
  aligned : o % 512 = 0
  le : o / 512 ≤ K
  cells : ∀ m < o / 512, cell (diskNext disk s) (clusterSize s) c₀ m ≠ none
  none : cell (diskNext disk s) (clusterSize s) c₀ (o / 512) = none

/-- The chain of a directory is not a multiple of 4 GiB long, so that its position at the end is
not zero again. -/
def NoWrap (disk : Partition) (i : Fin MAX_FILE_HANDLES) (s : FatState) (c₀ : ℕ) : Prop :=
  (s.openedFiles i).isDirectory = true →
    ∀ M, (∀ m, fileSector disk s c₀ m = none ↔ M ≤ m) → 512 * M % 2 ^ 32 ≠ 0

section

variable {disk : Partition} {i : Fin MAX_FILE_HANDLES} {s t : FatState} {c₀ K o : ℕ}

/-- **Nothing more** is read behind the end of the chain. -/
theorem read_atEnd (hwrap : NoWrap disk i s c₀) (h : AtEnd disk i s c₀ K o t)
    (byteCount : Word) :
    fatRead disk (.slot i) byteCount t = ([], t) := by
  have hclamp : (t.file (.slot i)).clamp byteCount = 0#32 := by
    rw [h.state, FatFileData.clamp, position_streamState, size_streamState,
      isDirectory_streamState]
    rw [if_neg ?_, BitVec.sub_self]
    · exact wordMin_of_le (Nat.zero_le _)
    · rintro ⟨hdir, hzero⟩
      refine hwrap hdir (o / 512) (fun m => ?_) ?_
      · rw [fileSector_eq_none_iff]
        refine ⟨fun hm => ?_, cell_none_of_le h.none⟩
        by_contra hlt
        exact h.cells m (not_le.mp hlt) hm
      · have haligned := h.aligned
        have hmul : 512 * (o / 512) = o := by omega
        rw [hmul, ← BitVec.toNat_ofNat, hzero]
        rfl
  rw [fatRead, hclamp, fatReadLoop_zero]

/-- A read that passes the end of the chain stops there. -/
lemma atEnd_of_streams (hfile : SoundFile disk i s c₀ K) {n : ℕ} {size : Word}
    {r : List Byte × FatState} (hr : Streams disk (.slot i) s o n size r)
    (hlive : ∀ m ≤ o / 512, m ≤ K → cell (diskNext disk s) (clusterSize s) c₀ m ≠ none)
    {M : ℕ} (hM : M ≤ K) (hMo : M ≤ (o + r.1.length) / 512)
    (hcells : ∀ m < M, cell (diskNext disk s) (clusterSize s) c₀ m ≠ none)
    (hnone : cell (diskNext disk s) (clusterSize s) c₀ M = none) :
    AtEnd disk i s c₀ K (o + r.1.length) r.2 := by
  obtain ⟨hMpos, hends, -⟩ := hfile.ends hM hcells hnone
  have hbehind : o / 512 < M := by
    by_contra hle
    exact hlive M (not_lt.mp hle) hM hnone
  have hmove : (fatNextSector disk (.slot i) (walk disk (.slot i) s (M - 1))).1 = false := by
    obtain ⟨m, rfl⟩ := Nat.exists_eq_add_of_lt hMpos
    rw [Nat.zero_add, walk] at hends
    rw [Nat.zero_add]
    exact fatNextSector_of_chainEnds hends
  -- a move that fails is the last one
  have hlast : o + r.1.length = 512 * M := by
    by_contra hne
    have hgo := hr.moves (M - 1) (by omega) (by omega)
    exact Bool.false_ne_true (hmove.symm.trans hgo)
  have hdiv : (o + r.1.length) / 512 = M := by omega
  have hsize : sizeAfter disk (.slot i) s o r.1.length size = BitVec.ofNat 32 (o + r.1.length) := by
    refine if_pos ⟨by omega, by omega, ?_⟩
    rwa [hdiv]
  refine ⟨by rw [hr.state, hsize], by omega, by rwa [hdiv], ?_, ?_⟩
  · rwa [hdiv]
  · rwa [hdiv]

/-- **One call of `FAT_Read`** delivers the next bytes of the stream. -/
theorem read_inChain (hfile : SoundFile disk i s c₀ K) (h : InChain disk i s c₀ K o t)
    (byteCount : Word) :
    ∃ len, (fatRead disk (.slot i) byteCount t).1
        = ((List.range len).map fun k => dirByte disk (.slot i) s (o + k)) ∧
      (InChain disk i s c₀ K (o + len) (fatRead disk (.slot i) byteCount t).2 ∨
        AtEnd disk i s c₀ K (o + len) (fatRead disk (.slot i) byteCount t).2) := by
  obtain ⟨size, rfl, hsize⟩ := h.state
  have hr := @fatRead_streams disk (.slot i) s byteCount o size
  generalize fatRead disk (.slot i) byteCount (streamState disk (.slot i) s o size) = r at hr ⊢
  refine ⟨r.1.length, hr.bytes, ?_⟩
  by_cases hcells : ∀ m ≤ (o + r.1.length) / 512, m ≤ K →
      cell (diskNext disk s) (clusterSize s) c₀ m ≠ none
  · refine .inl ⟨⟨_, hr.state, fun hle => ?_⟩, hcells⟩
    have hfollows : Follows disk i s (chainCluster disk s c₀) ((o + r.1.length) / 512 + 1) :=
      hfile.follows (by omega) fun m hm => hcells m (by omega) (by omega)
    rw [sizeAfter, if_neg fun hend => hfollows.not_chainEnds (Nat.lt_succ_self _) hend.2.2]
    exact hsize (by omega)
  · right
    -- the first sector that the chain does not have
    have hex : ∃ m, m ≤ (o + r.1.length) / 512 ∧ m ≤ K ∧
        cell (diskNext disk s) (clusterSize s) c₀ m = none := by
      by_contra hall
      exact hcells fun m hm hK hnone => hall ⟨m, hm, hK, hnone⟩
    obtain ⟨hMo, hMK, hnone⟩ := Nat.find_spec hex
    refine atEnd_of_streams hfile hr h.cells hMK hMo (fun m hm => ?_) hnone
    exact fun hm' => Nat.find_min hex hm ⟨by omega, by omega, hm'⟩

/-- **Any calls of `FAT_Read`** deliver the stream. -/
theorem reads_stream (hfile : SoundFile disk i s c₀ K) (hwrap : NoWrap disk i s c₀)
    (byteCounts : List Word) (h : InChain disk i s c₀ K o t ∨ AtEnd disk i s c₀ K o t) :
    ∃ len, (fatReads disk (.slot i) byteCounts t).1.flatten
        = ((List.range len).map fun k => dirByte disk (.slot i) s (o + k)) ∧
      (InChain disk i s c₀ K (o + len) (fatReads disk (.slot i) byteCounts t).2 ∨
        AtEnd disk i s c₀ K (o + len) (fatReads disk (.slot i) byteCounts t).2) := by
  induction byteCounts generalizing o t with
  | nil => exact ⟨0, rfl, h⟩
  | cons byteCount byteCounts ih =>
      have hone : ∃ len, (fatRead disk (.slot i) byteCount t).1
            = ((List.range len).map fun k => dirByte disk (.slot i) s (o + k)) ∧
          (InChain disk i s c₀ K (o + len) (fatRead disk (.slot i) byteCount t).2 ∨
            AtEnd disk i s c₀ K (o + len) (fatRead disk (.slot i) byteCount t).2) := by
        rcases h with h | h
        · exact read_inChain hfile h byteCount
        · rw [read_atEnd hwrap h byteCount]
          exact ⟨0, rfl, .inr h⟩
      obtain ⟨len, hbytes, hstate⟩ := hone
      obtain ⟨len', hbytes', hstate'⟩ := ih hstate
      refine ⟨len + len', ?_, by rwa [← Nat.add_assoc]⟩
      rw [fatReads]
      dsimp only
      rw [List.flatten_cons, hbytes, hbytes', List.range_add, List.map_append, List.map_map]
      refine congrArg _ (List.map_congr_left fun k _ => ?_)
      rw [Function.comp_apply, Nat.add_assoc]

end

/-! ### From the opening of a file -/

/-- The sectors requested since `s₁` are the first ones of the file with first cluster `c₀`, and
once `total` bytes are all of its chain the handle reports the end of the file. -/
structure FollowsChain (disk : Partition) (i : Fin MAX_FILE_HANDLES) (s₁ : FatState) (c₀ : ℕ)
    (total : ℕ) (t : FatState) : Prop where
  requests : ∃ sectors, dataRequests t = dataRequests s₁ ++ sectors ∧
    sectors.map some = (List.range sectors.length).map (fileSector disk s₁ c₀)
  ends : fileSector disk s₁ c₀ (total / 512) = none →
    (t.openedFiles i).size = (t.openedFiles i).position ∧
      ∀ byteCount, fatRead disk (.slot i) byteCount t = ([], t)

section

variable {disk : Partition} {i : Fin MAX_FILE_HANDLES} {entry : FatDirectoryEntry}
  {g s₀ s₁ s t : FatState} {fuel c₀ K m : ℕ} {cs : List FatCall}

/-- A file that `FAT_OpenEntry` has just opened. -/
lemma soundFile_of_opened (hinit : fatInitialize disk g = (some true, s₀))
    (hrun : FatRun disk fuel s₀ cs s₁) (hopen : fatOpenEntry disk entry s₁ = (some (.slot i), s))
    (hsound : SoundUpTo disk i s entry.firstCluster.toNat K) :
    SoundFile disk i s entry.firstCluster.toNat K := by
  have hready := fatInitialize_ready hinit
  have hopened := opened_of_openEntry hopen
  have hcontinues := (continues_run hrun).trans hopened.toContinues
  refine ⟨?_, ?_, ?_, entry.firstCluster.isLt, hsound⟩
  · rw [BitVec.ofNat_toNat, BitVec.setWidth_eq]
    exact hopened.toStands
  · rw [clusterSize_congr hcontinues]
    exact clusterSize_pos hready
  · have hkept := (cacheTraced_kept disk).openEntry entry
      ((cacheTraced_kept disk).run (cacheTraced_initialized hready) hrun)
    rwa [hopen] at hkept

/-- A file just opened stands at the front of its chain. -/
lemma inChain_zero (hpos : (s.openedFiles i).position = 0#32) : InChain disk i s c₀ K 0 s where
  state := ⟨(s.openedFiles i).size, (@streamState_zero disk (.slot i) s hpos).symm, fun _ => rfl⟩
  cells m hm _ := by
    rw [Nat.le_zero.mp hm, cell_zero]
    exact Option.some_ne_none _

lemma dataRequests_streamState (o : ℕ) (size : Word) :
    dataRequests (streamState disk (.slot i) s o size)
      = dataRequests (walk disk (.slot i) s (o / 512)) :=
  dataRequests_congr (FatState.requests_setFile _ _ _)

/-- The requests from the opening on, along the chain. -/
lemma requests_of_opened (hopened : Opened disk entry i s₁ s)
    (hfile : SoundFile disk i s entry.firstCluster.toNat K) (hm : m ≤ K)
    (hcells : ∀ j ≤ m, cell (diskNext disk s) (clusterSize s) entry.firstCluster.toNat j ≠ none) :
    ∃ sectors, dataRequests (walk disk (.slot i) s m) = dataRequests s₁ ++ sectors ∧
      sectors.map some
        = (List.range sectors.length).map (fileSector disk s entry.firstCluster.toNat) := by
  have hfollows := hfile.follows (N := m + 1) (by omega) fun j hj => hcells j (by omega)
  have hfirst : sectorLba s entry.firstCluster 0
      = Follows.lba s (chainCluster disk s entry.firstCluster.toNat) 0 := by
    rw [Follows.lba, Nat.zero_div, Nat.zero_mod, chainCluster_of_some follow_zero,
      BitVec.ofNat_toNat, BitVec.setWidth_eq]
  refine ⟨(List.range (m + 1)).map
    (Follows.lba s (chainCluster disk s entry.firstCluster.toNat)), ?_, ?_⟩
  · rw [hfollows.requests (Nat.lt_succ_self m), hopened.requests, hfirst, List.append_assoc,
      List.range_succ_eq_map, List.map_cons, List.map_map]
    rfl
  · rw [List.length_map, List.length_range, List.map_map]
    refine List.map_congr_left fun j hj => ?_
    exact (fileSector_of_cell (hcells j (Nat.lt_succ_iff.mp (List.mem_range.mp hj)))).symm

/-- **Reads of a file** request the sectors of its chain on disk, one after the other, as long as
the lookups that they make are sound.  At the end of the chain the handle reports the end of the
file. -/
theorem fatReads_requests (hinit : fatInitialize disk g = (some true, s₀))
    (hrun : FatRun disk fuel s₀ cs s₁) (hopen : fatOpenEntry disk entry s₁ = (some (.slot i), s))
    (byteCounts : List Word)
    (hsound : SoundUpTo disk i s entry.firstCluster.toNat
      ((fatReads disk (.slot i) byteCounts s).1.flatten.length / 512))
    (hwrap : NoWrap disk i s entry.firstCluster.toNat) :
    FollowsChain disk i s₁ entry.firstCluster.toNat
      (fatReads disk (.slot i) byteCounts s).1.flatten.length
      (fatReads disk (.slot i) byteCounts s).2 := by
  have hopened := opened_of_openEntry hopen
  have hfile := soundFile_of_opened hinit hrun hopen hsound
  obtain ⟨len, hbytes, hstate⟩ := reads_stream hfile hwrap byteCounts
    (.inl (inChain_zero hopened.position))
  have hsame := @fileSector_congr disk s₁ s hopened.toContinues
  generalize fatReads disk (.slot i) byteCounts s = r at *
  have hlen : r.1.flatten.length = len := by rw [hbytes, List.length_map, List.length_range]
  rw [hlen] at hsound hfile hstate ⊢
  rw [Nat.zero_add] at hstate
  rcases hstate with hin | hend
  · obtain ⟨size, hstate, -⟩ := hin.state
    refine ⟨?_, fun hnone => ?_⟩
    · rw [← hsame, hstate, dataRequests_streamState]
      exact requests_of_opened hopened hfile le_rfl fun j hj => hin.cells j hj hj
    · rw [← hsame, fileSector_eq_none_iff] at hnone
      exact absurd hnone (hin.cells _ le_rfl le_rfl)
  · refine ⟨?_, fun _ => ⟨?_, read_atEnd hwrap hend⟩⟩
    · obtain ⟨hpos, -, hrequests⟩ := hfile.ends hend.le hend.cells hend.none
      rw [← hsame, hend.state, dataRequests_streamState, hrequests]
      exact requests_of_opened hopened hfile (by omega) fun j hj => hend.cells j (by omega)
    · have hsize := @size_streamState disk (.slot i) s len (BitVec.ofNat 32 len)
      have hposition := @position_streamState disk (.slot i) s len (BitVec.ofNat 32 len)
      rw [hend.state]
      exact hsize.trans hposition.symm

end

/-! ### Two chains that end -/

/-- The entry of the file `kernel.elf`, whose chain is the clusters 2 and 3. -/
def kernelEntry : FatDirectoryEntry := fatDirectoryEntry (rootDisk.sector 2#32)

/-- The state after `FAT_OpenEntry` of it. -/
def kernelState : FatState := (fatOpenEntry rootDisk kernelEntry rootState).2

lemma kernelEntry_opened : fatOpenEntry rootDisk kernelEntry rootState
    = (some (.slot 0), kernelState) := by
  have hslot : (fatOpenEntry rootDisk kernelEntry rootState).1 = some (.slot 0) := by
    decide +kernel
  exact Prod.ext hslot rfl

/-- The lookup of its first cluster. -/
lemma kernelEntry_sound : SoundUpTo rootDisk 0 kernelState 2 1 where
  first := by decide
  lookups j b hj hb := by
    have hsize : clusterSize kernelState = 1 := by decide +kernel
    obtain rfl : j = 0 := by
      rw [hsize] at hj
      omega
    obtain rfl := Option.some.inj hb
    rw [hsize]
    refine ⟨by decide +kernel, fun hover => ?_, by decide +kernel, fun h => ?_⟩
    · exact absurd hover.2.1 (by decide +kernel)
    · exact absurd h (by decide +kernel)

theorem fatReads_requests_kernel :
    FollowsChain rootDisk 0 rootState 2 513
      (fatReads rootDisk (.slot 0) [512#32, 512#32] kernelState).2 := by
  have htotal : (fatReads rootDisk (.slot 0) [512#32, 512#32]
      kernelState).1.flatten.length = 513 := by decide +kernel
  have hcluster : kernelEntry.firstCluster.toNat = 2 := by decide +kernel
  have h := fatReads_requests rootDisk_initialized
    (Run.nil rootState : FatRun rootDisk 0 rootState [] rootState) kernelEntry_opened
    [512#32, 512#32] (by rw [htotal, hcluster]; exact kernelEntry_sound)
    (fun hdir => absurd hdir (by decide +kernel))
  rwa [htotal, hcluster] at h

/-- A FAT32 volume whose root directory holds the directory `BOOT`, of the cluster 3 alone. -/
def bootDisk : Partition := Partition.image 5000 (fat32Pieces ++ [
  (32, 12, [0xFF#8, 0xFF#8, 0xFF#8, 0x0F#8]),
  (72, 0, ascii "BOOT       " ++ [0x10#8]),
  (72, 26, [0x03#8, 0x00#8])])

/-- The state after `FAT_Initialize`. -/
def bootState : FatState := (fatInitialize bootDisk blankState).2

/-- The entry of the directory. -/
def bootEntry : FatDirectoryEntry := fatDirectoryEntry (bootDisk.sector 72#32)

/-- The state after `FAT_OpenEntry` of it. -/
def bootOpened : FatState := (fatOpenEntry bootDisk bootEntry bootState).2

/-- **Past the end of a chain**: the entry of cluster 3 is an end marker, and a sector behind the
end of the disk is requested for it. -/
theorem fatRead_past_chain :
    (fatInitialize bootDisk blankState).1 = some true ∧
      (fatOpenEntry bootDisk bootEntry bootState).1 = some (.slot 0) ∧
      rawEntry bootDisk bootState 3 = 0x0FFFFFFF ∧
      (fatReads bootDisk (.slot 0) [512#32] bootOpened).1.flatten.length = 512 ∧
      dataRequests (fatReads bootDisk (.slot 0) [512#32] bootOpened).2
        = dataRequests bootState ++ [73#32, 0x10000045#32] ∧
      ¬FollowsChain bootDisk 0 bootState 3 512
        (fatReads bootDisk (.slot 0) [512#32] bootOpened).2 := by
  have hnone : fileSector bootDisk bootState 3 1 = none := by decide +kernel
  have hsize : ((fatReads bootDisk (.slot 0) [512#32] bootOpened).2.openedFiles
      0).size ≠ ((fatReads bootDisk (.slot 0) [512#32]
        bootOpened).2.openedFiles 0).position := by decide +kernel
  refine ⟨by decide +kernel, by decide +kernel, by decide +kernel, by decide +kernel,
    by decide +kernel, fun h => ?_⟩
  exact hsize (h.ends hnone).1

end MiqOSoft
