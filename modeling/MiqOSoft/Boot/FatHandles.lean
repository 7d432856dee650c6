import MiqOSoft.Boot.FatLockstep

/-!
The slots of `OpenedFiles` that `FAT_Open` and `FAT_Close` leave open.

* `Accounts inUse held`: the list `held` names every cell in use, and each of them once.
* `Borrowed base current s`: on its way through a path `FAT_Open` holds `current`; the slots that
  were open before are as they were.
* `borrowed_openLoop`: of a call that returns only the handle returned stays open.
* `FatClient`, `clientStep`: a caller of the driver with the handles it has not closed yet.
* `handles_accounted`: along a run of the caller the slots open are those of its handles.
-/

namespace MiqOSoft

open Machine Transition

/-! ### Cells in use -/

section accounts

variable {ι : Type*} {inUse : ι → Bool} {held : List ι} {i : ι}

/-- The list names every cell in use, each of them once. -/
structure Accounts (inUse : ι → Bool) (held : List ι) : Prop where
  nodup : held.Nodup
  mem_iff : ∀ i, i ∈ held ↔ inUse i = true

/-- There are as many cells in use as the list names. -/
lemma Accounts.card_eq [Fintype ι] (h : Accounts inUse held) :
    (Finset.univ.filter fun i => inUse i = true).card = held.length := by
  classical
  have hset : (Finset.univ.filter fun i => inUse i = true) = held.toFinset := by
    ext i
    rw [Finset.mem_filter, List.mem_toFinset, h.mem_iff i]
    exact and_iff_right (Finset.mem_univ i)
  rw [hset, List.toFinset_card_of_nodup h.nodup]

variable [DecidableEq ι]

/-- A cell not in use is lent. -/
lemma Accounts.lend (h : Accounts inUse held) (hfree : inUse i = false) :
    Accounts (Function.update inUse i true) (i :: held) where
  nodup := by
    refine List.nodup_cons.mpr ⟨fun hmem => ?_, h.nodup⟩
    rw [h.mem_iff i, hfree] at hmem
    exact Bool.false_ne_true hmem
  mem_iff j := by
    rw [List.mem_cons]
    by_cases hj : j = i
    · rw [hj, Function.update_self]
      exact iff_of_true (.inl rfl) rfl
    · rw [Function.update_of_ne hj, ← h.mem_iff j]
      exact or_iff_right hj

/-- A cell is given back. -/
lemma Accounts.giveBack (h : Accounts inUse held) :
    Accounts (Function.update inUse i false) (held.erase i) where
  nodup := h.nodup.erase i
  mem_iff j := by
    rw [h.nodup.mem_erase_iff]
    by_cases hj : j = i
    · rw [hj, Function.update_self]
      exact iff_of_false (fun hmem => hmem.1 rfl) Bool.false_ne_true
    · rw [Function.update_of_ne hj, ← h.mem_iff j]
      exact and_iff_right hj

end accounts

/-! ### What `FAT_Open` holds on its way -/

/-- `Opened` of a slot. -/
def FatState.inUse (s : FatState) (i : Fin MAX_FILE_HANDLES) : Bool := (s.openedFiles i).opened

/-- What leaves the other files alone and does not open or close this one. -/
lemma FrameOf.inUse {file : FatHandle} {s t : FatState} (h : FrameOf file s t)
    (i : Fin MAX_FILE_HANDLES) : t.inUse i = s.inUse i := by
  by_cases hi : FatHandle.slot i = file
  · subst hi
    exact h.opened
  · exact congrArg FatFileData.opened (h.others (.slot i) hi)

/-- Of the slots only that of `current` has been opened since `base`, and those that were open are
as they were. -/
structure Borrowed (base : FatState) (current : Option FatHandle) (s : FatState) : Prop where
  fresh : ∀ i, current = some (.slot i) → base.inUse i = false ∧ s.inUse i = true
  others : ∀ i, current ≠ some (.slot i) → s.inUse i = base.inUse i
  kept : ∀ i, base.inUse i = true → s.openedFiles i = base.openedFiles i

section borrowed

variable {disk : Partition} {base s : FatState} {current : Option FatHandle}

lemma borrowed_root (s : FatState) : Borrowed s (some .root) s where
  fresh _ h := nomatch h
  others _ _ := rfl
  kept _ _ := rfl

/-- A file that `FAT_Open` holds was not open before. -/
lemma Borrowed.ne_of_inUse (h : Borrowed base current s) {i : Fin MAX_FILE_HANDLES}
    (hbase : base.inUse i = true) : current ≠ some (.slot i) := fun hcurrent => by
  rw [(h.fresh i hcurrent).1] at hbase
  exact Bool.false_ne_true hbase

/-- A search through `current`. -/
lemma Borrowed.findFile (h : Borrowed base current s) (fuel : ℕ) (name : List Byte) :
    Borrowed base current (fatFindFile disk fuel current name s).2 := by
  cases current with
  | none => exact h
  | some file =>
      have hframe := frame_findLoop disk file (fatGetShortName name) fuel s
      have hinUse : ∀ i, (fatFindFile disk fuel (some file) name s).2.inUse i = s.inUse i :=
        hframe.inUse
      refine ⟨fun i hi => ?_, fun i hi => ?_, fun i hi => ?_⟩
      · rw [hinUse i]
        exact h.fresh i hi
      · rw [hinUse i]
        exact h.others i hi
      · have hne : FatHandle.slot i ≠ file := fun heq =>
          h.ne_of_inUse hi (congrArg some heq.symm)
        calc (fatFindFile disk fuel (some file) name s).2.openedFiles i
            = s.openedFiles i := hframe.others (.slot i) hne
          _ = base.openedFiles i := h.kept i hi

/-- Closing `current` gives back what was borrowed. -/
lemma Borrowed.closeCurrent (h : Borrowed base current s) :
    Borrowed base none (fatCloseCurrent current s) := by
  have hclosed : ∀ i, (fatCloseCurrent current s).inUse i = base.inUse i ∧
      (base.inUse i = true → (fatCloseCurrent current s).openedFiles i = base.openedFiles i) := by
    intro i
    by_cases hi : current = some (.slot i)
    · obtain ⟨hbase, -⟩ := h.fresh i hi
      refine ⟨?_, fun hopen => absurd hi (h.ne_of_inUse hopen)⟩
      rw [hi, hbase, fatCloseCurrent, fatClose, FatState.inUse,
        FatState.openedFiles_setFile_self]
    · have hsame : (fatCloseCurrent current s).openedFiles i = s.openedFiles i := by
        cases current with
        | none => rfl
        | some file =>
            cases file with
            | root => rfl
            | slot j =>
                exact FatState.file_setFile_of_ne s (.slot j) (.slot i) _
                  fun heq => hi (congrArg some heq.symm)
      rw [FatState.inUse, hsame]
      exact ⟨h.others i hi, h.kept i⟩
  exact ⟨fun _ hi => absurd hi.symm (Option.some_ne_none _),
    fun i _ => (hclosed i).1, fun i => (hclosed i).2⟩

/-- The slot that `FAT_OpenEntry` takes is free. -/
lemma inUse_freeHandle {i : Fin MAX_FILE_HANDLES} (h : freeHandle s = some i) :
    s.inUse i = false := by
  have hfound := List.find?_some h
  rwa [Bool.not_eq_true'] at hfound

/-- The read of its first sector does not open an entry. -/
lemma inUse_entryRead (entry : FatDirectoryEntry) (i j : Fin MAX_FILE_HANDLES) :
    (entryRead disk entry i s).2.inUse j = s.inUse j := by
  have hstate : (entryState entry i s).inUse j = s.inUse j := by
    by_cases hj : j = i
    · rw [hj, FatState.inUse, entryState, FatState.openedFiles_setFile_self]
      rfl
    · exact congrArg FatFileData.opened (FatState.file_setFile_of_ne s (.slot i) (.slot j) _
        fun heq => hj (FatHandle.slot.inj heq))
  exact ((frame_readBuffer disk (.slot i) (entryState entry i s) _).inUse j).trans hstate

/-- Opening an entry borrows the slot of the handle returned. -/
lemma Borrowed.openEntry (h : Borrowed base none s) (entry : FatDirectoryEntry) :
    Borrowed base (fatOpenEntry disk entry s).1 (fatOpenEntry disk entry s).2 := by
  have hinUse : ∀ j, s.inUse j = base.inUse j := fun j => h.others j (fun hj => nomatch hj)
  cases hfree : freeHandle s with
  | none =>
      rw [fatOpenEntry_full hfree]
      exact h
  | some i =>
      have hbase : base.inUse i = false := (hinUse i).symm.trans (inUse_freeHandle hfree)
      have hat : OpensAt i s (entryRead disk entry i s).2 := opensAt_entryRead
      have hread : ∀ j, (entryRead disk entry i s).2.inUse j = base.inUse j := fun j =>
        (inUse_entryRead entry i j).trans (hinUse j)
      -- the slot taken was free, so what was open is elsewhere
      have hne : ∀ j, base.inUse j = true → j ≠ i := by
        rintro j hj rfl
        exact Bool.false_ne_true (hbase.symm.trans hj)
      have hkept : ∀ j, base.inUse j = true →
          (entryRead disk entry i s).2.openedFiles j = base.openedFiles j := fun j hj =>
        (hat.others (.slot j) fun heq => hne j hj (FatHandle.slot.inj heq)).trans (h.kept j hj)
      cases heq : entryRead disk entry i s with
      | mk ok t =>
      rw [heq] at hread hkept
      cases ok with
      | false =>
          rw [fatOpenEntry_fails hfree heq]
          exact ⟨fun _ hj => (nomatch hj), fun j _ => hread j, hkept⟩
      | true =>
          rw [fatOpenEntry_opens hfree heq]
          have hother : ∀ j ≠ i, (t.setFile (.slot i) { t.openedFiles i with opened := true
              }).openedFiles j = t.openedFiles j := fun j hj =>
            FatState.file_setFile_of_ne t (.slot i) (.slot j) _
              fun heq => hj (FatHandle.slot.inj heq)
          refine ⟨fun j hj => ?_, fun j hj => ?_, fun j hj => ?_⟩
          · obtain rfl : i = j := FatHandle.slot.inj (Option.some.inj hj)
            exact ⟨hbase, by rw [FatState.inUse, FatState.openedFiles_setFile_self]⟩
          · have hji : j ≠ i := fun heq => hj (by rw [heq])
            rw [FatState.inUse, hother j hji]
            exact hread j
          · rw [hother j (hne j hj)]
            exact hkept j hj

lemma OpenResult.ofPointer_injective : Function.Injective OpenResult.ofPointer := by
  intro pointer pointer' h
  cases pointer with
  | none =>
      cases pointer' with
      | none => rfl
      | some file' => cases h
  | some file =>
      cases pointer' with
      | none => cases h
      | some file' => exact congrArg some (OpenResult.handle.inj h)

/-- **A call of `FAT_Open`** leaves open the handle that it returns, and nothing else that was not
open before. -/
theorem borrowed_openLoop {pointer : Option FatHandle} (fuel n : ℕ) (path : List Byte)
    (name : ℕ → Byte) (h : Borrowed base current s)
    (hresult : (fatOpenLoop disk fuel n path name current s).1 = .ofPointer pointer) :
    Borrowed base pointer (fatOpenLoop disk fuel n path name current s).2.2 := by
  induction n generalizing path name current s with
  | zero =>
      obtain rfl := OpenResult.ofPointer_injective hresult
      exact h
  | succ n ih =>
      by_cases hpath : path = []
      · rw [hpath, fatOpenLoop_nil] at hresult ⊢
        obtain rfl := OpenResult.ofPointer_injective hresult
        exact h
      have hfind : Borrowed base current
          (fatFindFile disk fuel current (passedName name path) s).2 :=
        h.findFile fuel (passedName name path)
      cases heq : fatFindFile disk fuel current (passedName name path) s with
      | mk result s₁ =>
      rw [heq] at hfind
      cases result with
      | found entry =>
          rw [fatOpenLoop_found hpath heq] at hresult ⊢
          exact ih (restPath path) (componentBuffer name path)
            (hfind.closeCurrent.openEntry entry) hresult
      | absent =>
          rw [fatOpenLoop_absent hpath heq] at hresult ⊢
          cases pointer with
          | none => exact hfind.closeCurrent
          | some file => cases hresult
      | endless =>
          rw [fatOpenLoop_endless hpath heq] at hresult
          cases pointer <;> cases hresult
      | nullHandle =>
          rw [fatOpenLoop_nullHandle hpath heq] at hresult
          cases pointer <;> cases hresult

lemma borrowed_open {pointer : Option FatHandle} {fuel : ℕ} {stack : ℕ → Byte} {path : CString}
    (hresult : (fatOpen disk fuel stack path s).1 = .ofPointer pointer) :
    Borrowed s pointer (fatOpen disk fuel stack path s).2.2 :=
  borrowed_openLoop fuel _ (skipSlash path.chars) stack (borrowed_root s) hresult

/-- The handle of the root directory is returned for a path without components only. -/
lemma openLoop_ne_root (fuel n : ℕ) (path : List Byte) (name : ℕ → Byte)
    (hcurrent : current = some .root → n ≠ 0 ∧ path ≠ []) :
    (fatOpenLoop disk fuel n path name current s).1 ≠ .handle .root := by
  have hend : n = 0 ∨ path = [] → OpenResult.ofPointer current ≠ .ofPointer (some .root) := by
    intro hdone
    refine OpenResult.ofPointer_injective.ne fun hroot => ?_
    obtain ⟨hn, hpath⟩ := hcurrent hroot
    exact hdone.elim hn hpath
  induction n generalizing path name current s with
  | zero => exact hend (.inl rfl)
  | succ n ih =>
      by_cases hpath : path = []
      · rw [hpath, fatOpenLoop_nil]
        exact hend (.inr hpath)
      cases heq : fatFindFile disk fuel current (passedName name path) s with
      | mk result s₁ =>
      cases result with
      | found entry =>
          rw [fatOpenLoop_found hpath heq]
          have hopened : (fatOpenEntry disk entry (fatCloseCurrent current s₁)).1
              ≠ some .root := fun hroot => by
            obtain ⟨i, hi⟩ := fatOpenEntry_slot hroot
            cases hi
          exact ih _ _ (fun hroot => absurd hroot hopened)
            fun _ => OpenResult.ofPointer_injective.ne hopened
      | absent =>
          rw [fatOpenLoop_absent hpath heq]
          exact fun h => nomatch h
      | endless =>
          rw [fatOpenLoop_endless hpath heq]
          exact fun h => nomatch h
      | nullHandle =>
          rw [fatOpenLoop_nullHandle hpath heq]
          exact fun h => nomatch h

lemma open_ne_root {fuel : ℕ} {stack : ℕ → Byte} {path : CString}
    (hpath : skipSlash path.chars ≠ []) :
    (fatOpen disk fuel stack path s).1 ≠ .handle .root :=
  openLoop_ne_root fuel _ _ stack fun _ => ⟨(List.length_pos_of_ne_nil hpath).ne', hpath⟩

/-- A path without a component is that of the root directory. -/
lemma open_root {fuel : ℕ} {stack : ℕ → Byte} {path : CString} (hpath : skipSlash path.chars = []) :
    fatOpen disk fuel stack path s = (.handle .root, [], s) := by
  rw [fatOpen, hpath]
  rfl

end borrowed

/-! ### A caller and its handles -/

/-- The driver and its caller: `held` are the handles that `FAT_Open` has returned and that are not
closed yet. -/
structure FatClient where
  fat : FatState
  held : List FatHandle

/-- The slot of a handle. -/
def FatHandle.slot? : FatHandle → Option (Fin MAX_FILE_HANDLES)
  | .root => none
  | .slot i => some i

namespace FatClient

/-- The slots of the handles other than that of the root directory. -/
def slots (w : FatClient) : List (Fin MAX_FILE_HANDLES) := w.held.filterMap FatHandle.slot?

/-- A call.  If `FAT_OpenEntry` fails on a component that is not the last, the search goes on
through `NULL`; what comes of that has no meaning in C, and there is no next state. -/
def step (disk : Partition) (fuel : ℕ) (w : FatClient) : FatCall → Option FatClient
  | .fatOpen stack path =>
      match fatOpen disk fuel stack path w.fat with
      | (.handle file, _, s) => some ⟨s, file :: w.held⟩
      | (.null, _, s) => some ⟨s, w.held⟩
      | (.endless, _, _) => none
      | (.nullHandle, _, _) => none
  | .fatRead file byteCount => some ⟨(fatRead disk file byteCount w.fat).2, w.held⟩
  | .fatClose file => some ⟨fatClose file w.fat, w.held.erase file⟩

/-- A caller reads and closes handles that `FAT_Open` returned, and closes each of them once. -/
def Entitled (w : FatClient) : FatCall → Prop
  | .fatOpen _ _ => True
  | .fatRead file _ => file ∈ w.held
  | .fatClose file => file ∈ w.held

/-- The slots open are those of the handles held. -/
def Settled (w : FatClient) : Prop := Accounts w.fat.inUse w.slots

end FatClient

/-- A run of calls of such a caller. -/
abbrev ClientRun (disk : Partition) (fuel : ℕ) := Run (FatClient.step disk fuel) FatClient.Entitled

section client

variable {disk : Partition} {fuel : ℕ} {w v : FatClient}

lemma mem_slots {i : Fin MAX_FILE_HANDLES} : i ∈ w.slots ↔ FatHandle.slot i ∈ w.held := by
  rw [FatClient.slots, List.mem_filterMap]
  constructor
  · rintro ⟨file, hmem, hslot⟩
    cases file with
    | root => cases hslot
    | slot j =>
        obtain rfl := Option.some.inj hslot
        exact hmem
  · intro hmem
    exact ⟨.slot i, hmem, rfl⟩

/-- The slots of a list of handles without one of them. -/
lemma filterMap_slot_erase (held : List FatHandle) (file : FatHandle) :
    (held.erase file).filterMap FatHandle.slot? = match file with
      | .root => held.filterMap FatHandle.slot?
      | .slot i => (held.filterMap FatHandle.slot?).erase i := by
  induction held with
  | nil => cases file <;> rfl
  | cons file' held ih =>
      by_cases heq : file' = file
      · subst heq
        rw [List.erase_cons_head]
        cases file' with
        | root => rfl
        | slot i => exact (List.erase_cons_head i _).symm
      · rw [List.erase_cons_tail (by rwa [beq_iff_eq])]
        cases file' with
        | root => exact ih
        | slot j =>
            cases file with
            | root => exact congrArg (j :: ·) ih
            | slot i =>
                have hji : j ≠ i := fun h => heq (congrArg FatHandle.slot h)
                calc (j :: (held.erase (.slot i)).filterMap FatHandle.slot?)
                    = j :: (held.filterMap FatHandle.slot?).erase i := congrArg (j :: ·) ih
                  _ = (j :: held.filterMap FatHandle.slot?).erase i :=
                      (List.erase_cons_tail (by rwa [beq_iff_eq])).symm

/-- A call that opens a file. -/
lemma FatClient.Settled.opened {pointer : Option FatHandle} {s : FatState} (h : w.Settled)
    (hborrowed : Borrowed w.fat pointer s) :
    FatClient.Settled ⟨s, pointer.toList ++ w.held⟩ := by
  by_cases hslot : ∃ i, pointer = some (.slot i)
  · obtain ⟨i, rfl⟩ := hslot
    obtain ⟨hbase, hopen⟩ := hborrowed.fresh i rfl
    have hinUse : s.inUse = Function.update w.fat.inUse i true := by
      funext j
      by_cases hj : j = i
      · rw [hj, Function.update_self, hopen]
      · rw [Function.update_of_ne hj]
        exact hborrowed.others j fun heq => hj (FatHandle.slot.inj (Option.some.inj heq)).symm
    rw [Settled, hinUse]
    exact h.lend hbase
  · have hinUse : s.inUse = w.fat.inUse := by
      funext j
      exact hborrowed.others j fun heq => hslot ⟨j, heq⟩
    rw [Settled, hinUse]
    cases pointer with
    | none => exact h
    | some file =>
        cases file with
        | root => exact h
        | slot i => exact absurd ⟨i, rfl⟩ hslot

/-- A call that closes a file. -/
lemma FatClient.Settled.closed (h : w.Settled) (file : FatHandle) :
    FatClient.Settled ⟨fatClose file w.fat, w.held.erase file⟩ := by
  rw [Settled, slots, filterMap_slot_erase]
  cases file with
  | root => exact h
  | slot i =>
      have hinUse : (fatClose (.slot i) w.fat).inUse
          = Function.update w.fat.inUse i false := by
        funext j
        by_cases hj : j = i
        · rw [hj, Function.update_self, FatState.inUse, fatClose,
            FatState.openedFiles_setFile_self]
        · rw [Function.update_of_ne hj]
          exact congrArg FatFileData.opened (FatState.file_setFile_of_ne w.fat (.slot i)
            (.slot j) _ fun heq => hj (FatHandle.slot.inj heq))
      rw [hinUse]
      exact h.giveBack

/-- **One call** keeps the account. -/
theorem FatClient.Settled.step {c : FatCall} (h : w.Settled)
    (hstep : w.step disk fuel c = some v) : v.Settled := by
  cases c with
  | fatOpen stack path =>
      cases heq : fatOpen disk fuel stack path w.fat with
      | mk result rest =>
      have hborrowed : ∀ pointer, result = .ofPointer pointer →
          Borrowed w.fat pointer rest.2 := fun pointer hpointer => by
        have hopen : Borrowed w.fat pointer (fatOpen disk fuel stack path w.fat).2.2 :=
          borrowed_open (by rw [heq, hpointer])
        rwa [heq] at hopen
      rw [FatClient.step, heq] at hstep
      cases result with
      | handle file =>
          obtain rfl := Option.some.inj hstep
          exact h.opened (hborrowed (some file) rfl)
      | null =>
          obtain rfl := Option.some.inj hstep
          exact h.opened (hborrowed none rfl)
      | endless => cases hstep
      | nullHandle => cases hstep
  | fatRead file byteCount =>
      obtain rfl := Option.some.inj hstep
      have hinUse : (fatRead disk file byteCount w.fat).2.inUse = w.fat.inUse :=
        funext (frame_read disk file byteCount w.fat).inUse
      rw [Settled, hinUse]
      exact h
  | fatClose file =>
      obtain rfl := Option.some.inj hstep
      exact h.closed file

/-- The slots open are as many as the handles other than that of the root directory. -/
lemma FatClient.Settled.card_eq (h : w.Settled) :
    (Finset.univ.filter fun i => w.fat.inUse i = true).card
      = (w.held.filter (· ≠ .root)).length := by
  have hslots : w.slots.length = (w.held.filter (· ≠ .root)).length := by
    rw [slots]
    induction w.held with
    | nil => rfl
    | cons file held ih =>
        cases file with
        | root => exact ih
        | slot i => exact congrArg Nat.succ ih
  exact (Accounts.card_eq h).trans hslots

/-- **Every run of a caller**: the slots open are as many as its handles other than that of the root
directory; a handle returned for a path with a component is not among them, and for a path without
one that of the root directory is returned; a call that returns `NULL` leaves the same slots open,
and their files as they were. -/
theorem handles_accounted {g s : FatState} {cs : List FatCall}
    (hinit : fatInitialize disk g = (some true, s))
    (hrun : ClientRun disk fuel ⟨s, []⟩ cs w) :
    (Finset.univ.filter fun i => w.fat.inUse i = true).card
        = (w.held.filter (· ≠ .root)).length ∧
      (∀ stack path file, skipSlash path.chars ≠ [] →
        (fatOpen disk fuel stack path w.fat).1 = .handle file → file ∉ w.held) ∧
      (∀ stack path, skipSlash path.chars = [] →
        fatOpen disk fuel stack path w.fat = (.handle .root, [], w.fat)) ∧
      ∀ stack path, (fatOpen disk fuel stack path w.fat).1 = .null → ∀ i,
        (fatOpen disk fuel stack path w.fat).2.2.inUse i = w.fat.inUse i ∧
          (w.fat.inUse i = true →
            (fatOpen disk fuel stack path w.fat).2.2.openedFiles i = w.fat.openedFiles i) := by
  have hstart : FatClient.Settled ⟨s, []⟩ := by
    refine ⟨List.nodup_nil, fun i => iff_of_false List.not_mem_nil ?_⟩
    rw [FatState.inUse, (fatInitialize_ready hinit).closed i]
    exact Bool.false_ne_true
  have hsettled : w.Settled := hrun.invariant (fun _ _ _ hu _ hstep => hu.step hstep) hstart
  refine ⟨hsettled.card_eq, fun stack path file hpath hopen hmem => ?_,
    fun stack path hpath => open_root hpath, fun stack path hnull i => ?_⟩
  · cases file with
    | root => exact open_ne_root hpath hopen
    | slot i =>
        have hborrowed : Borrowed w.fat (some (.slot i)) (fatOpen disk fuel stack path w.fat).2.2 :=
          borrowed_open hopen
        have hfree := (hborrowed.fresh i rfl).1
        rw [(hsettled.mem_iff i).mp (mem_slots.mpr hmem)] at hfree
        exact Bool.false_ne_true hfree.symm
  · have hborrowed : Borrowed w.fat none (fatOpen disk fuel stack path w.fat).2.2 :=
      borrowed_open hnull
    exact ⟨hborrowed.others i (fun h => nomatch h), hborrowed.kept i⟩

end client

/-! ### A volume with a directory -/

lemma notMem_rootPath : 0#8 ∉ ascii "/" := by decide

/-- The path of the root directory. -/
def rootPath : CString := ⟨ascii "/", notMem_rootPath⟩

/-- The path of a file that is not in the directory. -/
def missingPath : CString := ⟨ascii "boot/loader.bin", by decide⟩

/-- A run of one call that returns a handle. -/
lemma clientRun_directoryOpened {path : CString} {file : FatHandle}
    (h : (fatOpen directoryDisk 40 (fun _ => 0#8) path directoryState).1 = .handle file) :
    ClientRun directoryDisk 40 ⟨directoryState, []⟩ [.fatOpen (fun _ => 0#8) path]
      ⟨directoryOpened path, [file]⟩ := by
  refine .cons trivial ?_ (.nil _)
  rw [directoryOpened, FatClient.step]
  cases heq : fatOpen directoryDisk 40 (fun _ => 0#8) path directoryState with
  | mk result rest =>
  rw [heq] at h
  dsimp only at h
  subst h
  rfl

/-- With the directory open and a file in it looked up in vain, one slot is open. -/
theorem handles_accounted_directoryDisk :
    (Finset.univ.filter fun i => (directoryOpened directoryPath).inUse i = true).card = 1 ∧
      ∀ i, (fatOpen directoryDisk 40 (fun _ => 0#8) missingPath
        (directoryOpened directoryPath)).2.2.inUse i = (directoryOpened directoryPath).inUse i := by
  have hrun : ClientRun directoryDisk 40 ⟨directoryState, []⟩
      [.fatOpen (fun _ => 0#8) directoryPath] ⟨directoryOpened directoryPath, [.slot 0]⟩ :=
    clientRun_directoryOpened (by decide +kernel)
  obtain ⟨hcard, -, -, hnull⟩ := handles_accounted directoryDisk_initialized hrun
  exact ⟨hcard, fun i => (hnull (fun _ => 0#8) missingPath (by decide +kernel) i).1⟩

/-- **The root directory has one handle**, which is returned once more while it is open; and a
lookup that fails changes the file of a slot that is not open. -/
theorem open_root_again :
    fatInitialize directoryDisk blankState = (some true, directoryState) ∧
      ClientRun directoryDisk 40 ⟨directoryState, []⟩ [.fatOpen (fun _ => 0#8) rootPath]
        ⟨directoryOpened rootPath, [.root]⟩ ∧
      (fatOpen directoryDisk 40 (fun _ => 0#8) rootPath (directoryOpened rootPath)).1
        = .handle .root ∧
      (fatOpen directoryDisk 40 (fun _ => 0#8) missingPath directoryState).1 = .null ∧
      (directoryOpened missingPath).openedFiles ≠ directoryState.openedFiles := by
  refine ⟨directoryDisk_initialized, clientRun_directoryOpened (by decide +kernel),
    by decide +kernel, by decide +kernel, fun hsame => ?_⟩
  have hfirst : ((directoryOpened missingPath).openedFiles 0).firstCluster
      ≠ (directoryState.openedFiles 0).firstCluster := by decide +kernel
  exact hfirst (by rw [hsame])

end MiqOSoft
