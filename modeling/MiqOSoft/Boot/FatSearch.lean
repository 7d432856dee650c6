import MiqOSoft.Boot.FatCalls
import MiqOSoft.Boot.FatStream
import MiqOSoft.Transition.Loop

/-!
Whether `FAT_FindFile` returns.

* `FatState.seek`: a directory put at a position, without a size.
* `searchState`: the state in which a search has gone through `n` entries of such a directory.
  It goes on to the next one unless an entry matches or the directory ends
  (`searchBody_searchState`).
* `fatFindFile_returns_iff`: for an open directory, in any state of a run.
* `rootSearch_returns_iff`: for a root directory without a size, which is read sector after
  sector through the whole disk.
-/

namespace MiqOSoft

open Machine Transition

/-! ### Moving through a directory -/

/-- The file moved to a position, its size unknown. -/
def FatState.seek (s : FatState) (file : FatHandle) (position : Word) : FatState :=
  s.setFile file { s.file file with position := position, size := 0#32 }

section

variable {disk : Partition} {file : FatHandle} {s : FatState} {position : Word}

lemma seek_eq_place : s.seek file position = s.place file position 0#32 := rfl

@[simp] lemma file_seek : (s.seek file position).file file
    = { s.file file with position := position, size := 0#32 } :=
  FatState.file_setFile_self s file _

lemma seek_self (hsize : (s.file file).size = 0#32) :
    s.seek file (s.file file).position = s := by
  rw [seek_eq_place, ← hsize, place_self]

/-- Where the file goes next does not depend on its position, unless the chain ends. -/
lemma fatNextSector_seek (hgo : ChainEnds file (fatNextSector disk file s).2 → position = 0#32) :
    fatNextSector disk file (s.seek file position)
      = ((fatNextSector disk file s).1, (fatNextSector disk file s).2.seek file position) := by
  rw [seek_eq_place, seek_eq_place, fatNextSector_place]
  split_ifs with hend
  · rw [hgo hend]
  · rfl

/-- Where the chain ends, the position becomes the size. -/
lemma fatNextSector_seek_end (position : Word)
    (hend : ChainEnds file (fatNextSector disk file s).2) :
    (fatNextSector disk file (s.seek file position)).1 = false ∧
      ((fatNextSector disk file (s.seek file position)).2.file file).position = position ∧
        ((fatNextSector disk file (s.seek file position)).2.file file).size = position := by
  rw [seek_eq_place, fatNextSector_place, if_pos hend, file_place]
  exact ⟨fatNextSector_of_chainEnds hend, rfl, rfl⟩

end

/-! ### One entry -/

section

variable {disk : Partition} {file : FatHandle} {s t : FatState}
  (hdir : (s.file file).isDirectory = true) (hsize : (s.file file).size = 0#32)

include hdir hsize

/-- A directory of size zero is read without a bound. -/
lemma fatRead_directory :
    fatRead disk file 32#32 s = fatReadLoop disk file (30 + 1 + 1) 32#32 s := by
  have hclamp : (s.file file).clamp 32#32 = 32#32 := if_pos ⟨hdir, hsize⟩
  rw [fatRead, hclamp]
  rfl

/-- An entry in front of the end of the buffer. -/
lemma fatReadEntry_inside (ho : (s.file file).position.toNat % 512 + 32 < 512) :
    fatReadEntry disk file s
      = (some (fatDirectoryEntry fun k =>
            (s.file file).buffer ((s.file file).position.toNat % 512 + k)),
          s.setFile file ((s.file file).moved 32#32)) := by
  have hclamp : (s.file file).clamp 32#32 = 32#32 := if_pos ⟨hdir, hsize⟩
  have hread : fatRead disk file 32#32 s
      = ((s.file file).taken 32#32, s.setFile file ((s.file file).moved 32#32)) := by
    rw [fatRead_within (by rw [hclamp]; exact ho), hclamp]
  rw [fatReadEntry_of_read hread (length_taken _ _), fatDirectoryEntry_taken]

/-- An entry at the end of the buffer is delivered, whether there is a next sector or not. -/
lemma fatReadEntry_full (ho : (s.file file).position.toNat % 512 + 32 = 512) :
    fatReadEntry disk file s
      = (some (fatDirectoryEntry fun k =>
            (s.file file).buffer ((s.file file).position.toNat % 512 + k)),
          (fatNextSector disk file (s.setFile file ((s.file file).moved 32#32))).2) := by
  have hleft : (s.file file).leftInBuffer = 32#32 := by
    rw [← BitVec.toNat_inj, toNat_leftInBuffer]
    change _ = 32
    omega
  have heq : (s.file file).leftInBuffer = wordMin 32#32 (s.file file).leftInBuffer := by
    rw [hleft]
    rfl
  have hread : fatRead disk file 32#32 s = ((s.file file).taken 32#32,
      (fatNextSector disk file (s.setFile file ((s.file file).moved 32#32))).2) := by
    rw [fatRead_directory hdir hsize]
    cases hnext : fatNextSector disk file (s.setFile file ((s.file file).moved 32#32)) with
    | mk ok t =>
    have hnext' : fatNextSector disk file (s.setFile file
        ((s.file file).moved (s.file file).leftInBuffer)) = (ok, t) := by rw [hleft, hnext]
    cases ok with
    | false =>
        rw [fatReadLoop_break (by decide) heq hnext', hleft]
    | true =>
        rw [fatReadLoop_next (by decide) heq hnext']
        simp only [hleft, BitVec.sub_self, fatReadLoop_zero, List.append_nil]
  rw [fatReadEntry_of_read hread (length_taken _ _), fatDirectoryEntry_taken]

/-- An entry that needs a next sector is not delivered without one. -/
lemma fatReadEntry_cut (ho : 512 < (s.file file).position.toNat % 512 + 32)
    (hnext : fatNextSector disk file (s.setFile file
      ((s.file file).moved (s.file file).leftInBuffer)) = (false, t)) :
    fatReadEntry disk file s = (none, t) := by
  have hleft := toNat_leftInBuffer (s.file file)
  have heq : (s.file file).leftInBuffer = wordMin 32#32 (s.file file).leftInBuffer :=
    (wordMin_of_le (by change _ ≤ 32; omega)).symm
  have hread : fatRead disk file 32#32 s
      = ((s.file file).taken (s.file file).leftInBuffer, t) := by
    rw [fatRead_directory hdir hsize]
    exact fatReadLoop_break (by decide) heq hnext
  exact fatReadEntry_of_short hread (by rw [length_taken]; omega)

/-- An entry across the end of the buffer. -/
lemma fatReadEntry_across (ho : 512 < (s.file file).position.toNat % 512 + 32)
    (hnext : fatNextSector disk file (s.setFile file
      ((s.file file).moved (s.file file).leftInBuffer)) = (true, t))
    (hpos : (t.file file).position = (s.file file).position + (s.file file).leftInBuffer) :
    fatReadEntry disk file s
      = (some (fatDirectoryEntry fun k =>
            if (s.file file).position.toNat % 512 + k < 512 then
              (s.file file).buffer ((s.file file).position.toNat % 512 + k)
            else (t.file file).buffer ((s.file file).position.toNat % 512 + k - 512)),
          t.setFile file ((t.file file).moved (32#32 - (s.file file).leftInBuffer))) := by
  have hleft := toNat_leftInBuffer (s.file file)
  have heq : (s.file file).leftInBuffer = wordMin 32#32 (s.file file).leftInBuffer :=
    (wordMin_of_le (by change _ ≤ 32; omega)).symm
  have hrest : (32#32 - (s.file file).leftInBuffer).toNat
      = 32 - (512 - (s.file file).position.toNat % 512) := by
    rw [BitVec.toNat_sub_of_le (by rw [BitVec.le_def]; change _ ≤ 32; omega), hleft]
    rfl
  have hpos' : (t.file file).position.toNat % 512 = 0 := by
    rw [hpos, BitVec.toNat_add, hleft]
    omega
  have hleft' := toNat_leftInBuffer (t.file file)
  have htake : wordMin (32#32 - (s.file file).leftInBuffer) (t.file file).leftInBuffer
      = 32#32 - (s.file file).leftInBuffer :=
    wordMin_of_lt (by omega)
  have hne : (t.file file).leftInBuffer
      ≠ wordMin (32#32 - (s.file file).leftInBuffer) (t.file file).leftInBuffer := by
    rw [htake]
    intro h
    rw [h] at hleft'
    omega
  have hpositive : 32#32 - (s.file file).leftInBuffer ≠ 0#32 := by
    intro h
    rw [h] at hrest
    change 0 = _ at hrest
    omega
  have hread : fatRead disk file 32#32 s
      = ((s.file file).taken (s.file file).leftInBuffer
            ++ (t.file file).taken (32#32 - (s.file file).leftInBuffer),
          t.setFile file ((t.file file).moved (32#32 - (s.file file).leftInBuffer))) := by
    rw [fatRead_directory hdir hsize]
    rw [fatReadLoop_next (by decide) heq hnext]
    dsimp only
    rw [fatReadLoop_inside hpositive hne]
    simp only [htake, BitVec.sub_self, fatReadLoop_zero, List.append_nil]
  rw [fatReadEntry_of_read hread (by rw [List.length_append, length_taken, length_taken]; omega)]
  refine Prod.ext (congrArg some (fatDirectoryEntry_congr fun k hk => ?_)) rfl
  by_cases hfirst : (s.file file).position.toNat % 512 + k < 512
  · rw [if_pos hfirst, List.getD_append _ _ _ _ (by rw [length_taken]; omega),
      getD_taken _ (by omega)]
  · rw [if_neg hfirst, List.getD_append_right _ _ _ _ (by rw [length_taken]; omega), length_taken,
      getD_taken _ (by omega), hpos']
    exact congrArg _ (by omega)

end

/-! ### The loop of a search -/

/-- The body of the loop of `FAT_FindFile`. -/
def searchBody (disk : Partition) (file : FatHandle) (shortName : List Byte) (s : FatState) :
    Option FatState :=
  match fatReadEntry disk file s with
  | (none, _) => none
  | (some entry, t) => if entry.name = shortName then none else some t

lemma searchBody_none {disk : Partition} {file : FatHandle} {shortName : List Byte}
    {s t : FatState} (hread : fatReadEntry disk file s = (none, t)) :
    searchBody disk file shortName s = none := by
  rw [searchBody, hread]

lemma searchBody_some {disk : Partition} {file : FatHandle} {shortName : List Byte}
    {s t : FatState} {entry : FatDirectoryEntry}
    (hread : fatReadEntry disk file s = (some entry, t)) :
    searchBody disk file shortName s = if entry.name = shortName then none else some t := by
  rw [searchBody, hread]

/-- A search uses up its fuel exactly if the loop is not left before. -/
lemma fatFindLoop_endless_iff (disk : Partition) (file : FatHandle) (shortName : List Byte)
    (fuel : ℕ) (s : FatState) :
    (fatFindLoop disk file shortName fuel s).1 = .endless ↔
      turns (searchBody disk file shortName) fuel s ≠ none := by
  induction fuel generalizing s with
  | zero => exact iff_of_true rfl (Option.some_ne_none s)
  | succ fuel ih =>
      rw [fatFindLoop, turns]
      cases hread : fatReadEntry disk file s with
      | mk entry t =>
      cases entry with
      | none =>
          rw [searchBody_none hread]
          exact iff_of_false FindResult.noConfusion (fun h => h rfl)
      | some entry =>
          rw [searchBody_some hread]
          dsimp only
          split_ifs
          · exact iff_of_false id (fun h => h rfl)
          · exact ih t

/-- A search returns with enough fuel exactly if the loop halts. -/
lemma fatFindLoop_returns_iff_halts (disk : Partition) (file : FatHandle) (shortName : List Byte)
    (s : FatState) :
    (∃ fuel, (fatFindLoop disk file shortName fuel s).1 ≠ .endless) ↔
      Halts (searchBody disk file shortName) s :=
  exists_congr fun fuel => by
    rw [ne_eq, fatFindLoop_endless_iff, not_not]

/-! ### A directory of size zero -/

section

variable {disk : Partition} {file : FatHandle} {s : FatState}

/-- The state after `n` entries: the file has moved on by the sectors they fill. -/
def searchState (disk : Partition) (file : FatHandle) (s : FatState) (n : ℕ) : FatState :=
  (walk disk file s (((s.file file).position.toNat % 512 + 32 * n) / 512)).seek file
    ((s.file file).position + BitVec.ofNat 32 (32 * n))

/-- Entry `n` from the position of the file on has the short name. -/
def MatchesAt (disk : Partition) (file : FatHandle) (s : FatState) (shortName : List Byte)
    (n : ℕ) : Prop :=
  ((List.range 11).map fun k =>
    dirByte disk file s ((s.file file).position.toNat % 512 + 32 * n + k)) = shortName

/-- Entry `n` is the last one: it ends in front of the end of the cluster chain, or it runs over
the end of a sector that no other follows. -/
def EndsAt (disk : Partition) (file : FatHandle) (s : FatState) (n : ℕ) : Prop :=
  let o := (s.file file).position.toNat % 512 + 32 * n
  o % 512 + 32 = 512 ∧ ChainEnds file (walk disk file s (o / 512 + 1)) ∧
      (s.file file).position + BitVec.ofNat 32 (32 * (n + 1)) ≠ 0#32 ∨
    512 < o % 512 + 32 ∧ (fatNextSector disk file (walk disk file s (o / 512))).1 = false

lemma fatNextSector_seek_fst (position : Word) :
    (fatNextSector disk file (s.seek file position)).1 = (fatNextSector disk file s).1 := by
  by_cases hend : ChainEnds file (fatNextSector disk file s).2
  · rw [(fatNextSector_seek_end position hend).1, fatNextSector_of_chainEnds hend]
  · rw [fatNextSector_seek fun h => absurd h hend]

lemma toNat_add_mod (p : Word) (n : ℕ) :
    (p + BitVec.ofNat 32 (32 * n)).toNat % 512 = (p.toNat % 512 + 32 * n) % 512 := by
  rw [BitVec.toNat_add, BitVec.toNat_ofNat]
  omega

lemma add_ofNat_succ (p : Word) (n : ℕ) :
    p + BitVec.ofNat 32 (32 * n) + 32#32 = p + BitVec.ofNat 32 (32 * (n + 1)) := by
  rw [BitVec.add_assoc, ← BitVec.ofNat_add, Nat.mul_succ]

lemma setFile_moved_seek (position take : Word) :
    (s.seek file position).setFile file (((s.seek file position).file file).moved take)
      = s.seek file (position + take) :=
  setFile_moved_place take

/-- The entry that the stream of the directory holds at offset `o`. -/
def entryAt (disk : Partition) (file : FatHandle) (s : FatState) (o : ℕ) : FatDirectoryEntry :=
  fatDirectoryEntry fun k => dirByte disk file s (o + k)

variable (hdir : (s.file file).isDirectory = true) (n : ℕ)

include hdir

lemma isDirectory_searchState : ((searchState disk file s n).file file).isDirectory = true := by
  rw [searchState, file_seek]
  exact (frame_walk disk file s _).isDirectory.trans hdir

omit hdir in
lemma size_searchState : ((searchState disk file s n).file file).size = 0#32 := by
  rw [searchState, file_seek]

omit hdir in
lemma position_searchState : ((searchState disk file s n).file file).position
    = (s.file file).position + BitVec.ofNat 32 (32 * n) := by
  rw [searchState, file_seek]

omit hdir in
lemma offset_searchState : ((searchState disk file s n).file file).position.toNat % 512
    = ((s.file file).position.toNat % 512 + 32 * n) % 512 := by
  rw [position_searchState, toNat_add_mod]

omit hdir in
lemma buffer_searchState : ((searchState disk file s n).file file).buffer
    = ((walk disk file s
        (((s.file file).position.toNat % 512 + 32 * n) / 512)).file file).buffer := by
  rw [searchState, file_seek]

omit hdir in
/-- Inside a sector the stream is the buffer. -/
lemma dirByte_of_lt {o k : ℕ} (h : o % 512 + k < 512) :
    dirByte disk file s (o + k)
      = ((walk disk file s (o / 512)).file file).buffer (o % 512 + k) := by
  have hdiv : (o + k) / 512 = o / 512 := by omega
  have hmod : (o + k) % 512 = o % 512 + k := by omega
  rw [dirByte, hdiv, hmod]

omit hdir in
lemma dirByte_of_le {o k : ℕ} (h : 512 ≤ o % 512 + k) (hk : k < 512) :
    dirByte disk file s (o + k)
      = ((walk disk file s (o / 512 + 1)).file file).buffer (o % 512 + k - 512) := by
  have hdiv : (o + k) / 512 = o / 512 + 1 := by omega
  have hmod : (o + k) % 512 = o % 512 + k - 512 := by omega
  rw [dirByte, hdiv, hmod]

/-- An entry in front of the end of a sector. -/
lemma readEntry_inside (ho : ((s.file file).position.toNat % 512 + 32 * n) % 512 + 32 < 512) :
    fatReadEntry disk file (searchState disk file s n)
      = (some (entryAt disk file s ((s.file file).position.toNat % 512 + 32 * n)),
          searchState disk file s (n + 1)) := by
  have hsector : ((s.file file).position.toNat % 512 + 32 * (n + 1)) / 512
      = ((s.file file).position.toNat % 512 + 32 * n) / 512 := by omega
  rw [fatReadEntry_inside (isDirectory_searchState hdir n) (size_searchState n)
    (by rw [offset_searchState]; exact ho)]
  refine Prod.ext (congrArg some (fatDirectoryEntry_congr fun k hk => ?_)) ?_
  · rw [offset_searchState, buffer_searchState, dirByte_of_lt (by omega)]
  · rw [searchState, setFile_moved_seek, add_ofNat_succ, searchState, hsector]

/-- An entry at the end of a sector. -/
lemma readEntry_full (ho : ((s.file file).position.toNat % 512 + 32 * n) % 512 + 32 = 512) :
    fatReadEntry disk file (searchState disk file s n)
      = (some (entryAt disk file s ((s.file file).position.toNat % 512 + 32 * n)),
          (fatNextSector disk file ((walk disk file s
            (((s.file file).position.toNat % 512 + 32 * n) / 512)).seek file
              ((s.file file).position + BitVec.ofNat 32 (32 * (n + 1))))).2) := by
  rw [fatReadEntry_full (isDirectory_searchState hdir n) (size_searchState n)
    (by rw [offset_searchState]; exact ho)]
  refine Prod.ext (congrArg some (fatDirectoryEntry_congr fun k hk => ?_)) ?_
  · rw [offset_searchState, buffer_searchState, dirByte_of_lt (by omega)]
  · rw [searchState, setFile_moved_seek, add_ofNat_succ]

/-- An entry that needs a sector that does not follow. -/
lemma readEntry_cut (ho : 512 < ((s.file file).position.toNat % 512 + 32 * n) % 512 + 32)
    (hnext : (fatNextSector disk file (walk disk file s
      (((s.file file).position.toNat % 512 + 32 * n) / 512))).1 = false) :
    ∃ t, fatReadEntry disk file (searchState disk file s n) = (none, t) := by
  refine ⟨_, fatReadEntry_cut (isDirectory_searchState hdir n) (size_searchState n)
    (by rw [offset_searchState]; exact ho) (Prod.ext ?_ rfl)⟩
  rw [searchState, setFile_moved_seek, fatNextSector_seek_fst]
  exact hnext

/-- An entry across the end of a sector. -/
lemma readEntry_across (ho : 512 < ((s.file file).position.toNat % 512 + 32 * n) % 512 + 32)
    (hnext : (fatNextSector disk file (walk disk file s
      (((s.file file).position.toNat % 512 + 32 * n) / 512))).1 = true) :
    fatReadEntry disk file (searchState disk file s n)
      = (some (entryAt disk file s ((s.file file).position.toNat % 512 + 32 * n)),
          searchState disk file s (n + 1)) := by
  have hsector : ((s.file file).position.toNat % 512 + 32 * (n + 1)) / 512
      = ((s.file file).position.toNat % 512 + 32 * n) / 512 + 1 := by omega
  have hgo : ¬ChainEnds file (walk disk file s
      (((s.file file).position.toNat % 512 + 32 * n) / 512 + 1)) := fun hend => by
    rw [fatNextSector_of_chainEnds hend] at hnext
    exact Bool.false_ne_true hnext
  set left := ((searchState disk file s n).file file).leftInBuffer with hleft
  have hmove : fatNextSector disk file ((searchState disk file s n).setFile file
      (((searchState disk file s n).file file).moved left))
        = (true, (walk disk file s
            (((s.file file).position.toNat % 512 + 32 * n) / 512 + 1)).seek file
              ((s.file file).position + BitVec.ofNat 32 (32 * n) + left)) := by
    rw [searchState, setFile_moved_seek, fatNextSector_seek fun hend => absurd hend hgo, hnext]
    rfl
  rw [fatReadEntry_across (isDirectory_searchState hdir n) (size_searchState n)
    (by rw [offset_searchState]; exact ho) hmove (by rw [file_seek, position_searchState])]
  refine Prod.ext (congrArg some (fatDirectoryEntry_congr fun k hk => ?_)) ?_
  · rw [offset_searchState, buffer_searchState, file_seek]
    by_cases hfirst : ((s.file file).position.toNat % 512 + 32 * n) % 512 + k < 512
    · rw [if_pos hfirst, dirByte_of_lt hfirst]
    · rw [if_neg hfirst, dirByte_of_le (by omega) (by omega)]
  · have hsum : ∀ q : Word, q + left + (32#32 - left) = q + 32#32 := fun q => by bv_omega
    have hstate : searchState disk file s (n + 1)
        = (walk disk file s (((s.file file).position.toNat % 512 + 32 * n) / 512 + 1)).seek file
            ((s.file file).position + BitVec.ofNat 32 (32 * (n + 1))) := by
      rw [searchState, hsector]
    dsimp only
    rw [← hleft, setFile_moved_seek, hsum, add_ofNat_succ, hstate]

end

/-! ### When the loop halts -/

section

variable {disk : Partition} {file : FatHandle} {s : FatState} {shortName : List Byte}

lemma matchesAt_iff (n : ℕ) : MatchesAt disk file s shortName n ↔
    (entryAt disk file s ((s.file file).position.toNat % 512 + 32 * n)).name = shortName :=
  Iff.rfl

/-- At the end of its file the loop is left. -/
lemma searchBody_of_full (hpos : (s.file file).position = (s.file file).size)
    (hsize : (s.file file).size ≠ 0#32) : searchBody disk file shortName s = none := by
  have hclamp : (s.file file).clamp 32#32 = 0#32 := by
    rw [FatFileData.clamp, if_neg fun h => hsize h.2, hpos, BitVec.sub_self]
    rfl
  have hread : fatRead disk file 32#32 s = ([], s) := by
    rw [fatRead, hclamp]
    rfl
  exact searchBody_none (fatReadEntry_of_short hread (by decide))

/-- Without an event the loop goes on to the next entry. -/
lemma searchBody_searchState (hdir : (s.file file).isDirectory = true) (n : ℕ)
    (hgo : ¬(MatchesAt disk file s shortName n ∨ EndsAt disk file s n)) :
    searchBody disk file shortName (searchState disk file s n)
      = some (searchState disk file s (n + 1)) := by
  obtain ⟨hmatch, hend⟩ := not_or.mp hgo
  obtain ⟨hchain, hcut⟩ := not_or.mp hend
  rw [matchesAt_iff] at hmatch
  rcases lt_trichotomy (((s.file file).position.toNat % 512 + 32 * n) % 512 + 32) 512
    with hin | hfull | hacross
  · rw [searchBody_some (readEntry_inside hdir n hin), if_neg hmatch]
  · have hsector : ((s.file file).position.toNat % 512 + 32 * (n + 1)) / 512
        = ((s.file file).position.toNat % 512 + 32 * n) / 512 + 1 := by omega
    rw [searchBody_some (readEntry_full hdir n hfull), if_neg hmatch,
      fatNextSector_seek fun h => not_not.mp fun hne => hchain ⟨hfull, h, hne⟩, searchState,
      hsector]
    rfl
  · have hnext := Bool.eq_true_of_not_eq_false fun h => hcut ⟨hacross, h⟩
    rw [searchBody_some (readEntry_across hdir n hacross hnext), if_neg hmatch]

/-- From an event on the loop halts. -/
lemma halts_searchState (hdir : (s.file file).isDirectory = true) (n : ℕ)
    (hstop : MatchesAt disk file s shortName n ∨ EndsAt disk file s n) :
    Halts (searchBody disk file shortName) (searchState disk file s n) := by
  rw [matchesAt_iff] at hstop
  rcases lt_trichotomy (((s.file file).position.toNat % 512 + 32 * n) % 512 + 32) 512
    with hin | hfull | hacross
  · have hmatch := hstop.resolve_right fun h => by
      rcases h with ⟨h, -⟩ | ⟨h, -⟩ <;> omega
    exact halts_of_none (by rw [searchBody_some (readEntry_inside hdir n hin), if_pos hmatch])
  · have hbody :
        searchBody disk file shortName (searchState disk file s n) = if _ then none else _ :=
      searchBody_some (readEntry_full hdir n hfull)
    by_cases hmatch : (entryAt disk file s
        ((s.file file).position.toNat % 512 + 32 * n)).name = shortName
    · exact halts_of_none (by rw [hbody, if_pos hmatch])
    · obtain ⟨-, hend, hne⟩ | ⟨hacross, -⟩ := hstop.resolve_left hmatch
      · -- the entry is the last one: the next read finds the position at the size
        obtain ⟨-, hpos, hsize⟩ := fatNextSector_seek_end
          ((s.file file).position + BitVec.ofNat 32 (32 * (n + 1))) hend
        rw [if_neg hmatch] at hbody
        rw [halts_iff_of_some hbody]
        exact halts_of_none (searchBody_of_full (hpos.trans hsize.symm) (by rwa [hsize]))
      · omega
  · cases hnext : (fatNextSector disk file (walk disk file s
        (((s.file file).position.toNat % 512 + 32 * n) / 512))).1 with
    | false =>
        obtain ⟨t, hread⟩ := readEntry_cut hdir n hacross hnext
        exact halts_of_none (searchBody_none hread)
    | true =>
        have hmatch := hstop.resolve_right fun h => by
          rcases h with ⟨h, -⟩ | ⟨-, h⟩
          · omega
          · rw [hnext] at h
            exact Bool.false_ne_true h.symm
        exact halts_of_none
          (by rw [searchBody_some (readEntry_across hdir n hacross hnext), if_pos hmatch])

/-- **A search of a directory of size zero** halts exactly if an entry matches or the directory
ends. -/
theorem halts_iff_of_size_zero (hdir : (s.file file).isDirectory = true)
    (hsize : (s.file file).size = 0#32) :
    Halts (searchBody disk file shortName) s ↔
      ∃ n, MatchesAt disk file s shortName n ∨ EndsAt disk file s n := by
  have hstart : searchState disk file s 0 = s := by
    have hzero : ((s.file file).position.toNat % 512 + 32 * 0) / 512 = 0 := by omega
    rw [searchState, hzero, Nat.mul_zero, BitVec.add_zero]
    exact seek_self hsize
  rw [← halts_iff_exists (searchBody_searchState hdir) (halts_searchState hdir), hstart]

/-- A search of a directory that has a size ends with it. -/
lemma halts_of_bounded (hdir : (s.file file).isDirectory = true)
    (hsize : (s.file file).size ≠ 0#32)
    (hbound : (s.file file).position.toNat ≤ (s.file file).size.toNat) :
    Halts (searchBody disk file shortName) s := by
  -- the bytes left to read decrease by the 32 of an entry
  induction hk : (s.file file).size.toNat - (s.file file).position.toNat
    using Nat.strong_induction_on generalizing s with
  | _ k ih =>
  have hread := advances_read disk file s 32#32
  have hframe := frame_readEntry disk file s
  have hclamp : ((s.file file).clamp 32#32).toNat
      = min 32 ((s.file file).size.toNat - (s.file file).position.toNat) := by
    rw [FatFileData.clamp, if_neg fun h => hsize h.2, toNat_wordMin,
      BitVec.toNat_sub_of_le (BitVec.le_def.mpr hbound)]
    rfl
  cases hr : fatRead disk file 32#32 s with
  | mk bytes t =>
  rw [hr] at hread
  by_cases hlen : bytes.length = 32
  · have hentry := fatReadEntry_of_read hr hlen
    rw [hentry] at hframe
    by_cases hmatch : (fatDirectoryEntry fun k => bytes.getD k 0#8).name = shortName
    · exact halts_of_none (by rw [searchBody_some hentry, if_pos hmatch])
    · have hbody : searchBody disk file shortName s = if _ then none else some t :=
        searchBody_some hentry
      rw [if_neg hmatch] at hbody
      rw [halts_iff_of_some hbody]
      have hlt := (s.file file).size.isLt
      have hle := hread.length
      dsimp only at hle
      have hpos : (t.file file).position.toNat = (s.file file).position.toNat + 32 := by
        have := hread.position
        dsimp only at this
        rw [this, hlen, BitVec.toNat_add]
        change (_ + 32) % _ = _
        omega
      have hsize' : (t.file file).position.toNat ≤ (t.file file).size.toNat ∧
          (t.file file).size.toNat ≤ (s.file file).size.toNat := by
        rcases hread.size with h | h <;> dsimp only at h <;> rw [h] <;> omega
      refine ih ((t.file file).size.toNat - (t.file file).position.toNat) (by omega)
        (hframe.isDirectory.trans hdir) ?_ hsize'.1 rfl
      intro hzero
      rw [hzero] at hsize'
      change _ ≤ 0 ∧ _ at hsize'
      omega
  · exact halts_of_none (searchBody_none (fatReadEntry_of_short hr hlen))

/-- The directory of size zero ends: the cluster chain does, or, if the file does not stand at
an entry, a sector cannot be read.  A chain that ends where the position is zero again is not
seen to end. -/
def DirectoryEnds (disk : Partition) (file : FatHandle) (s : FatState) : Prop :=
  let p := (s.file file).position.toNat
  ∃ m, if p % 32 = 0 then
      ChainEnds file (walk disk file s (m + 1)) ∧ (p - p % 512 + 512 * (m + 1)) % 2 ^ 32 ≠ 0
    else (fatNextSector disk file (walk disk file s m)).1 = false

lemma exists_endsAt_iff : (∃ n, EndsAt disk file s n) ↔ DirectoryEnds disk file s := by
  have hp := (s.file file).position.isLt
  have hzero : ∀ n, (s.file file).position + BitVec.ofNat 32 (32 * (n + 1)) ≠ 0#32 ↔
      ((s.file file).position.toNat + 32 * (n + 1)) % 2 ^ 32 ≠ 0 := fun n => by
    rw [ne_eq, ← BitVec.toNat_inj, BitVec.toNat_add, BitVec.toNat_ofNat, Nat.add_mod_mod]
    rfl
  simp only [EndsAt, DirectoryEnds, hzero]
  generalize (s.file file).position.toNat = p at *
  constructor
  · rintro ⟨n, ⟨hfull, hend, hne⟩ | ⟨hacross, hend⟩⟩
    · have hpos : p - p % 512 + 512 * ((p % 512 + 32 * n) / 512 + 1) = p + 32 * (n + 1) := by omega
      refine ⟨(p % 512 + 32 * n) / 512, ?_⟩
      rw [if_pos (by omega), hpos]
      exact ⟨hend, hne⟩
    · refine ⟨(p % 512 + 32 * n) / 512, ?_⟩
      rw [if_neg (by omega)]
      exact hend
  · rintro ⟨m, hm⟩
    by_cases haligned : p % 32 = 0
    · rw [if_pos haligned] at hm
      have hn : p % 512 + 32 * ((512 * m + 480 - p % 512) / 32) = 512 * m + 480 := by omega
      have hpos : p + 32 * ((512 * m + 480 - p % 512) / 32 + 1) = p - p % 512 + 512 * (m + 1) := by
        omega
      have hdiv : (512 * m + 480) / 512 = m := by omega
      refine ⟨(512 * m + 480 - p % 512) / 32, .inl ?_⟩
      rw [hn, hpos, hdiv]
      exact ⟨by omega, hm⟩
    · rw [if_neg haligned] at hm
      have hn : p % 512 + 32 * ((512 * m + 480 + p % 32 - p % 512) / 32)
          = 512 * m + 480 + p % 32 := by omega
      have hdiv : (512 * m + 480 + p % 32) / 512 = m := by omega
      refine ⟨(512 * m + 480 + p % 32 - p % 512) / 32, .inr ?_⟩
      rw [hn, hdiv]
      exact ⟨by omega, hm⟩

/-- **When a search of a directory returns**: the directory has a size, or one of the entries
that pass through the buffer matches, or the directory ends. -/
theorem fatFindLoop_returns_iff (hdir : (s.file file).isDirectory = true)
    (hbound : Bounded (s.file file)) :
    (∃ fuel, (fatFindLoop disk file shortName fuel s).1 ≠ .endless) ↔
      (s.file file).size ≠ 0#32 ∨ (∃ n, MatchesAt disk file s shortName n) ∨
        DirectoryEnds disk file s := by
  rw [fatFindLoop_returns_iff_halts]
  by_cases hsize : (s.file file).size = 0#32
  · rw [halts_iff_of_size_zero hdir hsize, exists_or, exists_endsAt_iff,
      or_iff_right (not_not.mpr hsize)]
  · exact iff_of_true (halts_of_bounded hdir hsize (hbound hdir hsize)) (.inl hsize)

end

/-- **Whether `FAT_FindFile` returns**, in any state that calls of the driver lead to, for the
root directory and for every directory that is open: exactly if the directory has a size, or an
entry that passes through its buffer matches, or the directory ends. -/
theorem fatFindFile_returns_iff {disk : Partition} {g s t : FatState} {fuel : ℕ}
    {cs : List FatCall} (hinit : fatInitialize disk g = (some true, s))
    (hrun : FatRun disk fuel s cs t) {file : FatHandle} (hopen : IsOpen t file)
    (hdir : (t.file file).isDirectory = true) (name : List Byte) :
    (∃ n, (fatFindFile disk n (some file) name t).1 ≠ .endless) ↔
      (t.file file).size ≠ 0#32 ∨ (∃ n, MatchesAt disk file t (fatGetShortName name) n) ∨
        DirectoryEnds disk file t :=
  fatFindLoop_returns_iff hdir (run_bounded (fatInitialize_ready hinit) hrun file hopen)

/-- In a directory of one cluster, which is open, a file is looked for. -/
theorem fatFindFile_returns_iff_directory :
    (∃ n, (fatFindFile directoryDisk n (some (.slot 0)) (ascii "loader.bin")
      (directoryOpened directoryPath)).1 ≠ .endless) ∧
    (((directoryOpened directoryPath).file (.slot 0)).size ≠ 0#32 ∨
      (∃ n, MatchesAt directoryDisk (.slot 0) (directoryOpened directoryPath)
        (fatGetShortName (ascii "loader.bin")) n) ∨
      DirectoryEnds directoryDisk (.slot 0) (directoryOpened directoryPath)) := by
  have hopened : (fatOpen directoryDisk 40 (fun _ => 0#8) directoryPath directoryState).1 =
      .ofPointer (some (.slot 0)) := by decide +kernel
  have hrun : FatRun directoryDisk 40 directoryState [.fatOpen (fun _ => 0#8) directoryPath]
      (directoryOpened directoryPath) := .cons trivial (fatStep_ofPointer hopened) (.nil _)
  have hreturns : ∃ n, (fatFindFile directoryDisk n (some (.slot 0)) (ascii "loader.bin")
      (directoryOpened directoryPath)).1 ≠ .endless := ⟨40, by decide +kernel⟩
  exact ⟨hreturns, (fatFindFile_returns_iff directoryDisk_initialized hrun
    (by rw [IsOpen]; decide +kernel) (by decide +kernel) (ascii "loader.bin")).mp hreturns⟩

/-! ### The root directory of size zero -/

section

variable {disk : Partition} {s : FatState}

/-- The root directory is read sector after sector, whatever its cluster chain. -/
lemma fatNextSector_root :
    (fatNextSector disk .root s).2.rootDirectory.currentCluster
        = s.rootDirectory.currentCluster + 1#32 ∧
      (fatNextSector disk .root s).2.requests
        = (s.rootDirectory.currentCluster + 1#32, 1) :: s.requests ∧
      (fatNextSector disk .root s).2.rootDirectory.buffer
        = if disk.fails s.requests (s.rootDirectory.currentCluster + 1#32) 1 then
            s.rootDirectory.buffer
          else disk.bytesAt (s.rootDirectory.currentCluster + 1#32) := by
  set lba := s.rootDirectory.currentCluster + 1#32 with hlba
  set t := s.setFile .root { s.rootDirectory with currentCluster := lba } with ht
  have hnext : fatNextSector disk .root s = fatReadBuffer disk .root lba t := rfl
  cases hfails : disk.fails s.requests lba 1 with
  | true =>
      rw [hnext, fatReadBuffer_of_fails (show disk.fails t.requests lba 1 = true from hfails)]
      exact ⟨rfl, rfl, rfl⟩
  | false =>
      rw [hnext, fatReadBuffer_of_not_fails (show disk.fails t.requests lba 1 = false from hfails)]
      exact ⟨rfl, rfl, rfl⟩

lemma currentCluster_walk_root (m : ℕ) :
    (walk disk .root s m).rootDirectory.currentCluster
      = s.rootDirectory.currentCluster + BitVec.ofNat 32 m := by
  induction m with
  | zero => exact (BitVec.add_zero _).symm
  | succ m ih => rw [walk, fatNextSector_root.1, ih, BitVec.ofNat_add, BitVec.add_assoc]

lemma lba_walk_root (m : ℕ) : (walk disk .root s m).rootDirectory.currentCluster + 1#32
    = s.rootDirectory.currentCluster + BitVec.ofNat 32 (m + 1) := by
  rw [currentCluster_walk_root, BitVec.ofNat_add, BitVec.add_assoc]

lemma buffer_walk_root (hstatic : ∀ h, disk.fails h = disk.fails []) (m : ℕ) :
    (walk disk .root s (m + 1)).rootDirectory.buffer
      = if disk.fails [] (s.rootDirectory.currentCluster + BitVec.ofNat 32 (m + 1)) 1 then
          (walk disk .root s m).rootDirectory.buffer
        else disk.bytesAt (s.rootDirectory.currentCluster + BitVec.ofNat 32 (m + 1)) := by
  rw [walk, fatNextSector_root.2.2, lba_walk_root, hstatic]

/-- The buffer holds a sector of the disk at any time. -/
lemma buffer_walk_root_mem (hstatic : ∀ h, disk.fails h = disk.fails [])
    (hbuffer : ∃ lba, disk.fails [] lba 1 = false ∧ s.rootDirectory.buffer = disk.bytesAt lba)
    (m : ℕ) : ∃ lba, disk.fails [] lba 1 = false ∧
      (walk disk .root s m).rootDirectory.buffer = disk.bytesAt lba := by
  induction m with
  | zero => exact hbuffer
  | succ m ih =>
      rw [buffer_walk_root hstatic]
      split_ifs with hfails
      · exact ih
      · exact ⟨_, Bool.eq_false_of_not_eq_true hfails, rfl⟩

/-- The sector `lba` holds an entry with the short name. -/
def SectorHolds (disk : Partition) (shortName : List Byte) (lba : Word) : Prop :=
  ∃ j < 16, ((List.range 11).map fun k => disk.sector lba (32 * j + k)) = shortName

lemma bytesAt_of_lt {lba : Word} {k : ℕ} (hk : k < 512) :
    disk.bytesAt lba k = disk.sector lba k := by
  rw [Partition.bytesAt, Nat.div_eq_of_lt hk, Nat.mod_eq_of_lt hk, BitVec.add_zero]

/-- Every sector of the disk comes up in the buffer of the root directory. -/
lemma exists_matchesAt_root_iff (hstatic : ∀ h, disk.fails h = disk.fails [])
    (hbuffer : ∃ lba, disk.fails [] lba 1 = false ∧ s.rootDirectory.buffer = disk.bytesAt lba)
    (hpos : s.rootDirectory.position = 0#32) {shortName : List Byte} :
    (∃ n, MatchesAt disk .root s shortName n) ↔
      ∃ lba, disk.fails [] lba 1 = false ∧ SectorHolds disk shortName lba := by
  have hzero : (s.file .root).position.toNat % 512 = 0 := by
    rw [FatState.file, hpos]
    rfl
  have hbyte : ∀ m j k, j < 16 → k < 11 → dirByte disk .root s (32 * (16 * m + j) + k)
      = (walk disk .root s m).rootDirectory.buffer (32 * j + k) := by
    intro m j k hj hk
    have hdiv : (32 * (16 * m + j) + k) / 512 = m := by omega
    have hmod : (32 * (16 * m + j) + k) % 512 = 32 * j + k := by omega
    rw [dirByte, hdiv, hmod]
    rfl
  constructor
  · rintro ⟨n, hn⟩
    obtain ⟨lba, hread, hlba⟩ := buffer_walk_root_mem hstatic hbuffer (n / 16)
    refine ⟨lba, hread, n % 16, Nat.mod_lt _ (by omega), ?_⟩
    rw [← hn]
    refine List.map_congr_left fun k hk => ?_
    have hk := List.mem_range.mp hk
    have hsplit : 0 + 32 * n + k = 32 * (16 * (n / 16) + n % 16) + k := by omega
    rw [hzero, hsplit, hbyte _ _ _ (Nat.mod_lt _ (by omega)) hk, hlba, bytesAt_of_lt (by omega)]
  · rintro ⟨lba, hread, j, hj, hname⟩
    -- the sector comes up after at most `2 ^ 32` more
    obtain ⟨m, hm⟩ : ∃ m, s.rootDirectory.currentCluster + BitVec.ofNat 32 (m + 1) = lba := by
      refine ⟨(lba - s.rootDirectory.currentCluster).toNat + (2 ^ 32 - 1), ?_⟩
      rw [← BitVec.toNat_inj, BitVec.toNat_add, BitVec.toNat_ofNat, BitVec.toNat_sub]
      have := lba.isLt
      have := s.rootDirectory.currentCluster.isLt
      omega
    have hbuf : (walk disk .root s (m + 1)).rootDirectory.buffer = disk.bytesAt lba := by
      rw [buffer_walk_root hstatic, hm, if_neg (by rw [hread]; exact Bool.false_ne_true)]
    refine ⟨16 * (m + 1) + j, ?_⟩
    rw [MatchesAt, ← hname]
    refine List.map_congr_left fun k hk => ?_
    have hk := List.mem_range.mp hk
    rw [hzero, Nat.zero_add, hbyte _ _ _ hj hk, hbuf, bytesAt_of_lt (by omega)]

/-- **A root directory of size zero**, as on FAT32: a search from its beginning returns exactly
if some sector of the disk that can be read holds the name, in the root directory or not. -/
theorem rootSearch_returns_iff (hstatic : ∀ h, disk.fails h = disk.fails [])
    (hbuffer : ∃ lba, disk.fails [] lba 1 = false ∧ s.rootDirectory.buffer = disk.bytesAt lba)
    (hdir : s.rootDirectory.isDirectory = true) (hsize : s.rootDirectory.size = 0#32)
    (hpos : s.rootDirectory.position = 0#32) (name : List Byte) :
    (∃ n, (fatFindFile disk n (some .root) name s).1 ≠ .endless) ↔
      ∃ lba, disk.fails [] lba 1 = false ∧ SectorHolds disk (fatGetShortName name) lba := by
  have hends : ¬DirectoryEnds disk .root s := by
    rintro ⟨m, hm⟩
    rw [FatState.file, hpos] at hm
    exact hm.1
  refine (@fatFindLoop_returns_iff disk .root s _ hdir (bounded_of_position_eq_zero hpos)).trans ?_
  rw [exists_matchesAt_root_iff hstatic hbuffer hpos]
  exact ⟨fun h => (h.resolve_left (not_not.mpr hsize)).resolve_right hends, fun h => .inr (.inl h)⟩

end

/-! ### A root directory without an end -/

/-- A FAT32 volume with an empty root directory, whose cluster chain ends. -/
def fat32Disk : Partition := Partition.image 5000 fat32Pieces

/-- The state after `FAT_Initialize`. -/
def fat32State : FatState := (fatInitialize fat32Disk blankState).2

lemma fat32Disk_initialized : fatInitialize fat32Disk blankState = (some true, fat32State) := by
  have hready : (fatInitialize fat32Disk blankState).1 = some true := by decide +kernel
  exact Prod.ext hready rfl

/-- **A search that never returns**: the name `boot` is not found in the root directory, and the
end of the cluster chain is not looked for. -/
theorem fatFindFile_endless :
    fatInitialize fat32Disk blankState = (some true, fat32State) ∧
      wordAt (fat32Disk.sector 32#32) 8 = 0x0FFFFFFF#32 ∧
        (∀ h lba n, fat32Disk.fails h lba n = decide (5000 < lba.toNat + n)) ∧
          ∀ fuel, (fatFindFile fat32Disk fuel (some .root) (ascii "boot") fat32State).1
            = .endless := by
  refine ⟨fat32Disk_initialized, by decide, fun _ _ _ => rfl, fun fuel => ?_⟩
  have hroot := (fatInitialize_ready fat32Disk_initialized).root
  have hbuffer : fat32State.rootDirectory.buffer
      = fat32Disk.bytesAt fat32State.rootDirectory.firstCluster := congrArg FatFileData.buffer hroot
  have hread : fat32Disk.fails [] fat32State.rootDirectory.firstCluster 1 = false := by
    decide +kernel
  by_contra hreturns
  obtain ⟨lba, -, j, -, hname⟩ := (rootSearch_returns_iff (fun _ => rfl) ⟨_, hread, hbuffer⟩
    (by decide +kernel) (by decide +kernel) (by decide +kernel) (ascii "boot")).mp ⟨fuel, hreturns⟩
  -- no byte of the disk is the first letter of the name
  have hfirst : fat32Disk.sector lba (32 * j + 0) = 0x42#8 := (List.cons.inj hname).1
  have hmem : fat32Disk.sector lba (32 * j + 0)
      ∈ 0#8 :: fat32Pieces.flatMap fun piece => piece.2.2 :=
    Partition.image_sector 5000 fat32Pieces lba _
  rw [hfirst] at hmem
  exact absurd hmem (by decide)

end MiqOSoft
