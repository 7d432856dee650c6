import MiqOSoft.Boot.FatRootDir

/-!
Which entry of a directory `FAT_FindFile` returns.

* `FirstHit r p n a`: of the values of a sequence that may end, number `n` is the first that meets
  `p`, and it is `a`.
* `dirRecord`: the records that `FAT_ReadEntry` delivers one after the other.
* `fatFindLoop_found_iff`: the search returns the first record with the name, whatever it is.
* `IsLive`: a record that is a file or directory.
* `findsLive_iff`: when the search returns the first live record with the name.
-/

namespace MiqOSoft

open Machine

/-! ### The first hit in a sequence -/

section firstHit

variable {α : Type*} {r : ℕ → Option α} {p : α → Prop} {n : ℕ} {a : α}

/-- Number `n` is the first value of the sequence that meets `p`, and it is `a`; the sequence does
not end before. -/
structure FirstHit (r : ℕ → Option α) (p : α → Prop) (n : ℕ) (a : α) : Prop where
  value : r n = some a
  hit : p a
  before : ∀ m < n, ∃ b, r m = some b ∧ ¬p b

/-- There is but one first hit. -/
lemma FirstHit.unique {n' : ℕ} {a' : α} (h : FirstHit r p n a) (h' : FirstHit r p n' a') :
    n = n' := by
  rcases Nat.lt_trichotomy n n' with hlt | heq | hgt
  · obtain ⟨b, hb, hpb⟩ := h'.before n hlt
    obtain rfl := Option.some.inj (h.value.symm.trans hb)
    exact absurd h.hit hpb
  · exact heq
  · obtain ⟨b, hb, hpb⟩ := h.before n' hgt
    obtain rfl := Option.some.inj (h'.value.symm.trans hb)
    exact absurd h'.hit hpb

lemma firstHit_zero (h : r 0 = some a) (hp : p a) : FirstHit r p 0 a :=
  ⟨h, hp, fun m hm => absurd hm (Nat.not_lt_zero m)⟩

/-- A sequence with a first hit does not end at once. -/
lemma FirstHit.exists_zero (h : FirstHit r p n a) : ∃ b, r 0 = some b := by
  cases n with
  | zero => exact ⟨a, h.value⟩
  | succ n =>
      obtain ⟨b, hb, -⟩ := h.before 0 (Nat.succ_pos n)
      exact ⟨b, hb⟩

/-- A value that meets `p` has a first one at it or further ahead. -/
lemma exists_firstHit_le (h : ∀ m < n, ∃ b, r m = some b) (ha : r n = some a) (hp : p a) :
    ∃ n' ≤ n, ∃ a', FirstHit r p n' a' := by
  induction n using Nat.strong_induction_on generalizing a with
  | _ n ih =>
      by_cases hfirst : ∀ m < n, ∃ b, r m = some b ∧ ¬p b
      · exact ⟨n, le_rfl, a, ha, hp, hfirst⟩
      · push Not at hfirst
        obtain ⟨m, hm, hb⟩ := hfirst
        obtain ⟨b, hrb⟩ := h m hm
        obtain ⟨n', hn', a', hfirst⟩ := ih m hm (fun k hk => h k (hk.trans hm)) hrb (hb b hrb)
        exact ⟨n', hn'.trans hm.le, a', hfirst⟩

/-- A first hit behind a value that is none. -/
lemma firstHit_succ_iff {b : α} (h : r 0 = some b) (hp : ¬p b) :
    FirstHit r p (n + 1) a ↔ FirstHit (fun m => r (m + 1)) p n a := by
  constructor
  · intro hfirst
    exact ⟨hfirst.value, hfirst.hit, fun m hm => hfirst.before (m + 1) (Nat.succ_lt_succ hm)⟩
  · intro hfirst
    refine ⟨hfirst.value, hfirst.hit, fun m hm => ?_⟩
    cases m with
    | zero => exact ⟨b, h, hp⟩
    | succ m => exact hfirst.before m (Nat.lt_of_succ_lt_succ hm)

end firstHit

/-! ### The search -/

/-- Record `n` of the directory that `file` stands in front of in state `s`. -/
def dirRecord (disk : Partition) (file : FatHandle) (s : FatState) (n : ℕ) :
    Option FatDirectoryEntry :=
  (fatReadEntry disk file (afterEntries disk file s n)).1

section search

variable {disk : Partition} {file : FatHandle} {s : FatState} {shortName : List Byte}
  {e : FatDirectoryEntry}

/-- A search from record `k` on. -/
lemma fatFindLoop_found (fuel k : ℕ) :
    (fatFindLoop disk file shortName fuel (afterEntries disk file s k)).1 = .found e ↔
      ∃ n < fuel, FirstHit (fun m => dirRecord disk file s (m + k)) (·.name = shortName) n e := by
  induction fuel generalizing k with
  | zero =>
      refine iff_of_false FindResult.noConfusion ?_
      rintro ⟨n, hn, -⟩
      exact Nat.not_lt_zero n hn
  | succ fuel ih =>
      have hread : fatReadEntry disk file (afterEntries disk file s k) =
          (dirRecord disk file s k, afterEntries disk file s (k + 1)) := rfl
      have hzero : dirRecord disk file s (0 + k) = dirRecord disk file s k :=
        congrArg (dirRecord disk file s) (Nat.zero_add k)
      rw [fatFindLoop, hread]
      cases hrec : dirRecord disk file s k with
      | none =>
          refine iff_of_false FindResult.noConfusion ?_
          rintro ⟨n, -, hfirst⟩
          obtain ⟨b, hb⟩ := hfirst.exists_zero
          rw [hzero, hrec] at hb
          exact Option.some_ne_none b hb.symm
      | some b =>
          rw [hrec] at hzero
          dsimp only
          by_cases hname : b.name = shortName
          · rw [if_pos hname, FindResult.found.injEq]
            have hfirst : FirstHit (fun m => dirRecord disk file s (m + k))
              (·.name = shortName) 0 b := firstHit_zero hzero hname
            constructor
            · rintro rfl
              exact ⟨0, Nat.succ_pos fuel, hfirst⟩
            · rintro ⟨n, -, h⟩
              obtain rfl := h.unique hfirst
              exact Option.some.inj (hzero.symm.trans h.value)
          · rw [if_neg hname, ih (k + 1)]
            have hshift : ∀ n, FirstHit (fun m => dirRecord disk file s (m + k))
                (·.name = shortName) (n + 1) e ↔
                  FirstHit (fun m => dirRecord disk file s (m + (k + 1)))
                    (·.name = shortName) n e := by
              intro n
              simp only [← Nat.add_assoc, Nat.add_right_comm _ k 1]
              exact firstHit_succ_iff (p := fun e : FatDirectoryEntry => e.name = shortName)
                hzero hname
            constructor
            · rintro ⟨n, hn, h⟩
              exact ⟨n + 1, Nat.succ_lt_succ hn, (hshift n).mpr h⟩
            · rintro ⟨n, hn, h⟩
              cases n with
              | zero =>
                  obtain rfl := Option.some.inj (hzero.symm.trans h.value)
                  exact absurd h.hit hname
              | succ n => exact ⟨n, Nat.lt_of_succ_lt_succ hn, (hshift n).mp h⟩

/-- **The search** returns the first record with the name. -/
theorem fatFindLoop_found_iff :
    (∃ fuel, (fatFindLoop disk file shortName fuel s).1 = .found e) ↔
      ∃ n, FirstHit (dirRecord disk file s) (·.name = shortName) n e := by
  constructor
  · rintro ⟨fuel, h⟩
    obtain ⟨n, -, hfirst⟩ := (fatFindLoop_found fuel 0).mp h
    exact ⟨n, hfirst⟩
  · rintro ⟨n, hfirst⟩
    exact ⟨n + 1, (fatFindLoop_found (n + 1) 0).mpr ⟨n, Nat.lt_succ_self n, hfirst⟩⟩

end search

/-! ### Live records -/

/-- `FAT_ATTRIBUTE_VOLUME_ID`. -/
def FAT_ATTRIBUTE_VOLUME_ID : Byte := 0x08#8

/-- `FAT_ATTRIBUTE_LFN`. -/
def FAT_ATTRIBUTE_LFN : Byte := 0x0F#8

/-- Record `n` of a directory is `e`, and `e` is a file or a directory: no record up to it ends the
directory, and it is neither deleted nor a volume label nor part of a long name. -/
structure IsLive (r : ℕ → Option FatDirectoryEntry) (n : ℕ) (e : FatDirectoryEntry) : Prop where
  record : r n = some e
  reached : ∀ m < n, ∃ e', r m = some e' ∧ e'.name.head? ≠ some 0#8
  notEnd : e.name.head? ≠ some 0#8
  notDeleted : e.name.head? ≠ some 0xE5#8
  notLabel : e.attributes &&& FAT_ATTRIBUTE_VOLUME_ID = 0#8
  notLongName : e.attributes ≠ FAT_ATTRIBUTE_LFN

/-- What a search through a directory should return: the first live record with the name, and
nothing else. -/
def FindsLive (disk : Partition) (file : FatHandle) (name : List Byte) (s : FatState) : Prop :=
  ∀ e, (∃ fuel, (fatFindFile disk fuel (some file) name s).1 = .found e) ↔
    ∃ n, IsLive (dirRecord disk file s) n e ∧ e.name = fatGetShortName name ∧
      ∀ m < n, ∀ e', IsLive (dirRecord disk file s) m e' → e'.name ≠ fatGetShortName name

section live

variable {r : ℕ → Option FatDirectoryEntry} {shortName : List Byte} {n : ℕ}
  {e : FatDirectoryEntry}

/-- A live record with the name stands in front of the first record with the name only if it is that
record. -/
lemma FirstHit.le_of_isLive {n' : ℕ} {e' : FatDirectoryEntry}
    (h : FirstHit r (·.name = shortName) n e) (hlive : IsLive r n' e')
    (hname : e'.name = shortName) : n ≤ n' := by
  by_contra hlt
  obtain ⟨b, hb, hne⟩ := h.before n' (not_le.mp hlt)
  obtain rfl := Option.some.inj (hlive.record.symm.trans hb)
  exact hne hname

/-- Whether a record is live does not change when an equal one stands further ahead. -/
lemma IsLive.mono {n' : ℕ} (h : IsLive r n' e) (hle : n ≤ n') (hrecord : r n = some e) :
    IsLive r n e :=
  ⟨hrecord, fun m hm => h.reached m (hm.trans_le hle), h.notEnd, h.notDeleted, h.notLabel,
    h.notLongName⟩

/-- The first record with the name stands at a live one or further ahead. -/
lemma IsLive.exists_firstHit (h : IsLive r n e) (hname : e.name = shortName) :
    ∃ n' ≤ n, ∃ e', FirstHit r (·.name = shortName) n' e' := by
  have hbefore : ∀ m < n, ∃ e', r m = some e' := fun m hm => by
    obtain ⟨e', he', -⟩ := h.reached m hm
    exact ⟨e', he'⟩
  exact exists_firstHit_le hbefore h.record hname

end live

/-- **When the search returns live records only**: exactly if the first record with the name, when
there is one, is live. -/
theorem findsLive_iff (disk : Partition) (file : FatHandle) (name : List Byte) (s : FatState) :
    FindsLive disk file name s ↔
      ∀ n e, FirstHit (dirRecord disk file s) (·.name = fatGetShortName name) n e →
        IsLive (dirRecord disk file s) n e := by
  have hfound : ∀ e, (∃ fuel, (fatFindFile disk fuel (some file) name s).1 = .found e) ↔
      ∃ n, FirstHit (dirRecord disk file s) (·.name = fatGetShortName name) n e :=
    fun e => fatFindLoop_found_iff
  simp only [FindsLive, hfound]
  constructor
  · intro hfinds n e hfirst
    obtain ⟨n', hlive, hname, -⟩ := (hfinds e).mp ⟨n, hfirst⟩
    exact hlive.mono (hfirst.le_of_isLive hlive hname) hfirst.value
  · intro hall e
    constructor
    · rintro ⟨n, hfirst⟩
      refine ⟨n, hall n e hfirst, hfirst.hit, fun m hm e' hlive hname => ?_⟩
      exact absurd hm (not_lt.mpr (hfirst.le_of_isLive hlive hname))
    · rintro ⟨n, hlive, hname, hbefore⟩
      obtain ⟨n', hle, e', hfirst⟩ := hlive.exists_firstHit hname
      have hlive' := hall n' e' hfirst
      rcases hle.lt_or_eq with hlt | rfl
      · exact absurd hfirst.hit (hbefore n' hlt e' hlive')
      · obtain rfl := Option.some.inj (hlive.record.symm.trans hlive'.record)
        exact ⟨n', hfirst⟩

/-- A FAT12 volume with the label `MQOS`, as the image builder makes it. -/
def labelDisk : Partition :=
  Partition.image 64 [
    (0, 11, [0x00#8, 0x02#8, 0x01#8, 0x01#8, 0x00#8, 0x01#8, 0x20#8, 0x00#8, 0x40#8, 0x00#8,
      0xF0#8, 0x01#8, 0x00#8]),
    (1, 0, [0xF0#8, 0xFF#8, 0xFF#8]),
    (2, 0, ascii "MQOS       "),
    (2, 11, [0x08#8])]

/-- The state after `FAT_Initialize`. -/
def labelState : FatState := (fatInitialize labelDisk blankState).2

/-- The record of the label. -/
def labelRecord : FatDirectoryEntry := ⟨ascii "MQOS       ", 0x08#8, 0#16, 0#16, 0#32⟩

/-- **A label found as a file**: the search for `mqos` in the root directory returns the volume
label. -/
theorem not_findsLive_labelDisk :
    fatInitialize labelDisk blankState = (some true, labelState) ∧
      (fatFindFile labelDisk 1 (some .root) (ascii "mqos") labelState).1 = .found labelRecord ∧
      ¬FindsLive labelDisk .root (ascii "mqos") labelState := by
  have hready : (fatInitialize labelDisk blankState).1 = some true := by decide +kernel
  have hfound : (fatFindFile labelDisk 1 (some .root) (ascii "mqos") labelState).1
      = .found labelRecord := by
    decide +kernel
  refine ⟨Prod.ext hready rfl, hfound, fun h => ?_⟩
  obtain ⟨n, hlive, -⟩ := (h labelRecord).mp ⟨1, hfound⟩
  exact absurd hlive.notLabel (by decide)

end MiqOSoft
