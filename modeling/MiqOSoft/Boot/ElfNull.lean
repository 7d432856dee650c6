import MiqOSoft.Boot.Elf
import MiqOSoft.Boot.FatTurns

/-!
A `NULL` that `FAT_Open` returns, and what its callers do with it.

* `chunkLoop`: the loops that seek and load, as one.
* `FatDriver.watch`: a driver that notes whether `FAT_Open` has returned `NULL`, and whether `NULL`
  has been used.
* `elfRead_nullUsed`: `ELF_Read` uses every `NULL` that `FAT_Open` returns to it.
* `elfRead_forget`: as long as `NULL` is not used, `ELF_Read` runs as without the notes.
* `reportsNull_iff`, `nullAnswered_iff`: when a failure of `FAT_Open` is answered with a failure.
-/

namespace MiqOSoft

open Machine

/-! ### The inner loops of `ELF_Read` -/

section chunks

variable {σ Partition Path α : Type*} (D : FatDriver σ Partition Path) (part : Partition)
  (fd : Addr) (field : Memory → Word) (store : α → Word → Memory → Memory) (next : α → Word → α)

/-- The inner loops of `ELF_Read`, which read as many bytes as a field in memory says, chunk by
chunk; `store` is what a turn does with a chunk. -/
def chunkLoop : ℕ → α → BootState σ → Option (Bool × BootState σ)
  | 0, _, _ => none
  | fuel + 1, a, s =>
      if field s.mem = 0#32 then some (true, s)
      else
        let shouldRead := wordMin (field s.mem) MEMORY_LOAD_SIZE
        let (read, s) := D.fatRead part fd shouldRead MEMORY_LOAD_KERNEL s
        if read ≠ shouldRead then some (false, s)
        else chunkLoop fuel (next a read) { s with mem := store a read s.mem }

lemma seekLoop_eq (ph : Addr) (fuel : ℕ) (s : BootState σ) :
    seekLoop D part fd ph fuel s
      = chunkLoop D part fd (fun m => (progHeader m ph).offset)
          (fun _ read m => store32 m (ph + 4#32) ((progHeader m ph).offset - read))
          (fun a _ => a) fuel () s := by
  induction fuel generalizing s with
  | zero => rfl
  | succ fuel ih =>
      rw [seekLoop, chunkLoop]
      simp only [ih]

lemma loadLoop_eq (ph : Addr) (fuel : ℕ) (virtAddress : Addr) (s : BootState σ) :
    loadLoop D part fd ph fuel virtAddress s
      = chunkLoop D part fd (fun m => (progHeader m ph).fileSize)
          (fun a read m => memcpy a MEMORY_LOAD_KERNEL (len16 read)
            (store32 m (ph + 16#32) ((progHeader m ph).fileSize - read)))
          (fun a read => a + read) fuel virtAddress s := by
  induction fuel generalizing virtAddress s with
  | zero => rfl
  | succ fuel ih =>
      rw [loadLoop, chunkLoop]
      simp only [ih]

end chunks

/-! ### The watched driver -/

/-- The state of a driver, with the notes. -/
structure Watched (σ : Type*) where
  fat : σ
  nullOpened : Bool
  nullUsed : Bool

section watched

variable {σ Partition Path : Type*}

namespace BootState

/-- The machine without the notes. -/
def forget (s : BootState (Watched σ)) : BootState σ := ⟨s.fat.fat, s.mem⟩

/-- The machine with the notes of `s`. -/
def noted (s : BootState (Watched σ)) (t : BootState σ) : BootState (Watched σ) :=
  ⟨{ s.fat with fat := t.fat }, t.mem⟩

/-- The machine after `NULL` is used. -/
def useNull (s : BootState (Watched σ)) : BootState (Watched σ) :=
  ⟨{ s.fat with nullUsed := true }, s.mem⟩

/-- The machine at the start, with nothing noted. -/
def watch (s : BootState σ) : BootState (Watched σ) := ⟨⟨s.fat, false, false⟩, s.mem⟩

/-- Every `NULL` returned so far, unless it is `fd`, has been used. -/
def Pending (fd : Addr) (s : BootState (Watched σ)) : Prop :=
  s.fat.nullOpened = true → fd = 0#32 ∨ s.fat.nullUsed = true

/-- Every `NULL` returned so far has been used. -/
def NullUsed (s : BootState (Watched σ)) : Prop :=
  s.fat.nullOpened = true → s.fat.nullUsed = true

lemma NullUsed.pending {s : BootState (Watched σ)} (h : NullUsed s) (fd : Addr) :
    Pending fd s := fun hopened => .inr (h hopened)

end BootState

open BootState

/-- The driver with the notes.  What comes of a call through `NULL` has no meaning in C: from then
on every read comes back short, so that the loader gives up. -/
def FatDriver.watch (D : FatDriver σ Partition Path) : FatDriver (Watched σ) Partition Path where
  fatOpen part path s :=
    let (fd, t) := D.fatOpen part path s.forget
    (fd, ⟨⟨t.fat, s.fat.nullOpened || decide (fd = 0#32), s.fat.nullUsed⟩, t.mem⟩)
  fatRead part fd byteCount dst s :=
    if fd = 0#32 ∨ s.fat.nullUsed = true then (0#32, s.useNull)
    else
      let (read, t) := D.fatRead part fd byteCount dst s.forget
      (read, s.noted t)
  fatClose fd s :=
    if fd = 0#32 ∨ s.fat.nullUsed = true then s.useNull
    else s.noted (D.fatClose fd s.forget)

variable {D : FatDriver σ Partition Path} {part : Partition} {path : Path} {fd ph : Addr}
  {s t : BootState (Watched σ)} {ok : Bool} {α : Type*} {field : Memory → Word}
  {store : α → Word → Memory → Memory} {next : α → Word → α}

lemma watch_read_null {byteCount : Word} {dst : Addr} (h : fd = 0#32 ∨ s.fat.nullUsed = true) :
    D.watch.fatRead part fd byteCount dst s = (0#32, s.useNull) := if_pos h

lemma watch_read {byteCount : Word} {dst : Addr} (h : ¬(fd = 0#32 ∨ s.fat.nullUsed = true)) :
    D.watch.fatRead part fd byteCount dst s
      = ((D.fatRead part fd byteCount dst s.forget).1,
        s.noted (D.fatRead part fd byteCount dst s.forget).2) := if_neg h

lemma watch_close_null (h : fd = 0#32 ∨ s.fat.nullUsed = true) :
    D.watch.fatClose fd s = s.useNull := if_pos h

lemma watch_close (h : ¬(fd = 0#32 ∨ s.fat.nullUsed = true)) :
    D.watch.fatClose fd s = s.noted (D.fatClose fd s.forget) := if_neg h

/-! ### Every `NULL` is used -/

lemma pending_open (h : NullUsed s) :
    Pending (D.watch.fatOpen part path s).1 (D.watch.fatOpen part path s).2 := by
  intro hopened
  rcases Bool.or_eq_true_iff.mp hopened with hbefore | hnull
  · exact .inr (h hbefore)
  · exact .inl (of_decide_eq_true hnull)

lemma nullUsed_read (byteCount : Word) (dst : Addr) (h : Pending fd s) :
    NullUsed (D.watch.fatRead part fd byteCount dst s).2 := by
  intro hopened
  by_cases hnull : fd = 0#32 ∨ s.fat.nullUsed = true
  · rw [watch_read_null hnull]
    rfl
  · rw [watch_read hnull] at hopened
    exact absurd (h hopened) hnull

lemma nullUsed_close (h : Pending fd s) : NullUsed (D.watch.fatClose fd s) := by
  intro hopened
  by_cases hnull : fd = 0#32 ∨ s.fat.nullUsed = true
  · rw [watch_close_null hnull]
    rfl
  · rw [watch_close hnull] at hopened
    exact absurd (h hopened) hnull

/-- An inner loop fails after a read only. -/
lemma chunkLoop_nullUsed {fuel : ℕ} {a : α} (h : Pending fd s)
    (hrun : chunkLoop D.watch part fd field store next fuel a s = some (ok, t)) :
    Pending fd t ∧ (ok = false → NullUsed t) := by
  induction fuel generalizing a s with
  | zero => cases hrun
  | succ fuel ih =>
      rw [chunkLoop] at hrun
      by_cases h0 : field s.mem = 0#32
      · rw [if_pos h0] at hrun
        cases hrun
        exact ⟨h, fun hok => nomatch hok⟩
      rw [if_neg h0] at hrun
      have hread : NullUsed (D.watch.fatRead part fd (wordMin (field s.mem) MEMORY_LOAD_SIZE)
          MEMORY_LOAD_KERNEL s).2 := nullUsed_read _ _ h
      cases heq : D.watch.fatRead part fd (wordMin (field s.mem) MEMORY_LOAD_SIZE)
        MEMORY_LOAD_KERNEL s with
      | mk read u =>
      rw [heq] at hread
      simp only [heq] at hrun
      by_cases hshort : read ≠ wordMin (field s.mem) MEMORY_LOAD_SIZE
      · rw [if_pos hshort] at hrun
        cases hrun
        exact ⟨hread.pending fd, fun _ => hread⟩
      · rw [if_neg hshort] at hrun
        refine ih ?_ hrun
        exact hread.pending fd

/-- A segment is read or its file closed. -/
lemma loadSegment_nullUsed {fuel : ℕ} (h : NullUsed s)
    (hrun : loadSegment D.watch part path fuel ph s = some (ok, t)) : NullUsed t := by
  rw [loadSegment] at hrun
  generalize memset (progHeader s.mem ph).virtualAddress 0#32 (progHeader s.mem ph).memorySize
    s.mem = m at hrun
  have hopen : Pending (D.watch.fatOpen part path { s with mem := m }).1
      (D.watch.fatOpen part path { s with mem := m }).2 := pending_open h
  cases heq : D.watch.fatOpen part path { s with mem := m } with
  | mk fd u =>
  rw [heq] at hopen
  simp only [heq] at hrun
  obtain ⟨⟨ok₁, u₁⟩, hseek, hrest⟩ := Option.bind_eq_some_iff.mp hrun
  rw [seekLoop_eq] at hseek
  obtain ⟨hpending, hfailed⟩ := chunkLoop_nullUsed hopen hseek
  cases ok₁ with
  | false =>
      cases hrest
      exact hfailed rfl
  | true =>
      simp only [if_true] at hrest
      obtain ⟨⟨ok₂, u₂⟩, hload, hdone⟩ := Option.map_eq_some_iff.mp hrest
      rw [loadLoop_eq] at hload
      obtain ⟨hpending', hfailed'⟩ := chunkLoop_nullUsed hpending hload
      cases ok₂ with
      | false =>
          cases hdone
          exact hfailed' rfl
      | true =>
          cases hdone
          exact nullUsed_close hpending'

lemma entryLoop_nullUsed {fuel n : ℕ} {entrySize i : Word} (h : NullUsed s)
    (hrun : entryLoop D.watch part path fuel entrySize n i s = some (ok, t)) : NullUsed t := by
  induction n generalizing i s with
  | zero =>
      cases hrun
      exact h
  | succ n ih =>
      rw [entryLoop] at hrun
      by_cases htype : (progHeader s.mem (MEMORY_ELF_ADDR + i * entrySize)).type
          = ELF_PROGRAM_TYPE_LOAD
      · rw [if_pos htype] at hrun
        obtain ⟨⟨ok₁, u⟩, hsegment, hrest⟩ := Option.bind_eq_some_iff.mp hrun
        have hu := loadSegment_nullUsed h hsegment
        cases ok₁ with
        | false =>
            cases hrest
            exact hu
        | true => exact ih hu hrest
      · rw [if_neg htype] at hrun
        exact ih h hrun

/-- **`ELF_Read` uses every `NULL`** that `FAT_Open` returns to it. -/
theorem elfRead_nullUsed {fuel : ℕ} {entryPoint entryPoint' : Word} (h : NullUsed s)
    (hrun : elfRead D.watch part path fuel entryPoint s = some (ok, entryPoint', t)) :
    NullUsed t := by
  rw [elfRead] at hrun
  have hopen : Pending (D.watch.fatOpen part path s).1 (D.watch.fatOpen part path s).2 :=
    pending_open h
  cases heq : D.watch.fatOpen part path s with
  | mk fd s₁ =>
  rw [heq] at hopen
  simp only [heq] at hrun
  have hread : NullUsed (D.watch.fatRead part fd sizeofELFHeader MEMORY_ELF_ADDR s₁).2 :=
    nullUsed_read _ _ hopen
  cases heq₁ : D.watch.fatRead part fd sizeofELFHeader MEMORY_ELF_ADDR s₁ with
  | mk read s₂ =>
  rw [heq₁] at hread
  simp only [heq₁] at hrun
  by_cases hshort : read ≠ sizeofELFHeader
  · rw [if_pos hshort] at hrun
    cases hrun
    exact hread
  rw [if_neg hshort] at hrun
  have hseek : NullUsed (D.watch.fatRead part fd
      ((elfHeader s₂.mem MEMORY_ELF_ADDR).programHeaderTablePosition - read) MEMORY_ELF_ADDR
      s₂).2 := nullUsed_read _ _ (hread.pending fd)
  cases heq₂ : D.watch.fatRead part fd
    ((elfHeader s₂.mem MEMORY_ELF_ADDR).programHeaderTablePosition - read) MEMORY_ELF_ADDR s₂ with
  | mk read₂ s₃ =>
  rw [heq₂] at hseek
  simp only [heq₂] at hrun
  have htable : NullUsed (D.watch.fatRead part fd
      (elfHeader s₂.mem MEMORY_ELF_ADDR).programHeaderSize MEMORY_ELF_ADDR s₃).2 :=
    nullUsed_read _ _ (hseek.pending fd)
  cases heq₃ : D.watch.fatRead part fd
    (elfHeader s₂.mem MEMORY_ELF_ADDR).programHeaderSize MEMORY_ELF_ADDR s₃ with
  | mk read₃ s₄ =>
  rw [heq₃] at htable
  simp only [heq₃] at hrun
  by_cases hshort' : read₃ ≠ (elfHeader s₂.mem MEMORY_ELF_ADDR).programHeaderSize
  · rw [if_pos hshort'] at hrun
    cases hrun
    exact htable
  rw [if_neg hshort'] at hrun
  obtain ⟨⟨ok', u⟩, hloop, hdone⟩ := Option.map_eq_some_iff.mp hrun
  cases hdone
  exact entryLoop_nullUsed (nullUsed_close (htable.pending fd)) hloop

/-! ### Without the notes -/

lemma forget_open :
    D.fatOpen part path s.forget
      = ((D.watch.fatOpen part path s).1, (D.watch.fatOpen part path s).2.forget) := rfl

lemma forget_read {byteCount : Word} {dst : Addr}
    (h : (D.watch.fatRead part fd byteCount dst s).2.fat.nullUsed = false) :
    s.fat.nullUsed = false ∧ D.fatRead part fd byteCount dst s.forget
      = ((D.watch.fatRead part fd byteCount dst s).1,
        (D.watch.fatRead part fd byteCount dst s).2.forget) := by
  by_cases hnull : fd = 0#32 ∨ s.fat.nullUsed = true
  · rw [watch_read_null hnull] at h
    cases h
  · rw [watch_read hnull] at h ⊢
    exact ⟨h, rfl⟩

lemma forget_close (h : (D.watch.fatClose fd s).fat.nullUsed = false) :
    s.fat.nullUsed = false ∧ D.fatClose fd s.forget = (D.watch.fatClose fd s).forget := by
  by_cases hnull : fd = 0#32 ∨ s.fat.nullUsed = true
  · rw [watch_close_null hnull] at h
    cases h
  · rw [watch_close hnull] at h ⊢
    exact ⟨h, rfl⟩

lemma chunkLoop_forget {fuel : ℕ} {a : α}
    (hrun : chunkLoop D.watch part fd field store next fuel a s = some (ok, t))
    (ht : t.fat.nullUsed = false) :
    s.fat.nullUsed = false ∧
      chunkLoop D part fd field store next fuel a s.forget = some (ok, t.forget) := by
  induction fuel generalizing a s with
  | zero => cases hrun
  | succ fuel ih =>
      have hmem : s.forget.mem = s.mem := rfl
      rw [chunkLoop] at hrun ⊢
      rw [hmem]
      by_cases h0 : field s.mem = 0#32
      · rw [if_pos h0] at hrun ⊢
        cases hrun
        exact ⟨ht, rfl⟩
      rw [if_neg h0] at hrun ⊢
      have hread : (D.watch.fatRead part fd (wordMin (field s.mem) MEMORY_LOAD_SIZE)
          MEMORY_LOAD_KERNEL s).2.fat.nullUsed = false → _ := forget_read
      cases heq : D.watch.fatRead part fd (wordMin (field s.mem) MEMORY_LOAD_SIZE)
        MEMORY_LOAD_KERNEL s with
      | mk read u =>
      rw [heq] at hread
      simp only [heq] at hrun
      by_cases hshort : read ≠ wordMin (field s.mem) MEMORY_LOAD_SIZE
      · rw [if_pos hshort] at hrun
        cases hrun
        obtain ⟨hs, hcall⟩ := hread ht
        simp only [hcall]
        exact ⟨hs, if_pos hshort⟩
      · rw [if_neg hshort] at hrun
        obtain ⟨hu, hrest⟩ := ih hrun
        obtain ⟨hs, hcall⟩ := hread hu
        simp only [hcall]
        refine ⟨hs, ?_⟩
        rw [if_neg hshort]
        exact hrest

lemma loadSegment_forget {fuel : ℕ}
    (hrun : loadSegment D.watch part path fuel ph s = some (ok, t))
    (ht : t.fat.nullUsed = false) :
    s.fat.nullUsed = false ∧ loadSegment D part path fuel ph s.forget = some (ok, t.forget) := by
  have hmem : s.forget.mem = s.mem := rfl
  rw [loadSegment] at hrun ⊢
  rw [hmem]
  generalize memset (progHeader s.mem ph).virtualAddress 0#32 (progHeader s.mem ph).memorySize
    s.mem = m at hrun ⊢
  have hopen : D.fatOpen part path { s.forget with mem := m }
      = ((D.watch.fatOpen part path { s with mem := m }).1,
        (D.watch.fatOpen part path { s with mem := m }).2.forget) := rfl
  have hused : (D.watch.fatOpen part path { s with mem := m }).2.fat.nullUsed = s.fat.nullUsed :=
    rfl
  rw [hopen, ← hused]
  cases heq : D.watch.fatOpen part path { s with mem := m } with
  | mk fd u =>
  simp only [heq] at hrun
  dsimp only
  obtain ⟨⟨ok₁, u₁⟩, hseek, hrest⟩ := Option.bind_eq_some_iff.mp hrun
  rw [seekLoop_eq] at hseek ⊢
  cases ok₁ with
  | false =>
      cases hrest
      obtain ⟨hu, hcall⟩ := chunkLoop_forget hseek ht
      rw [hcall]
      exact ⟨hu, rfl⟩
  | true =>
      simp only [if_true] at hrest
      obtain ⟨⟨ok₂, u₂⟩, hload, hdone⟩ := Option.map_eq_some_iff.mp hrest
      rw [loadLoop_eq] at hload
      cases ok₂ with
      | false =>
          cases hdone
          obtain ⟨hu₁, hcall'⟩ := chunkLoop_forget hload ht
          obtain ⟨hu, hcall⟩ := chunkLoop_forget hseek hu₁
          rw [hcall, Option.bind_some]
          refine ⟨hu, ?_⟩
          simp only [if_true, loadLoop_eq, hcall', Option.map_some]
          rfl
      | true =>
          cases hdone
          obtain ⟨hu₂, hclose⟩ := forget_close ht
          obtain ⟨hu₁, hcall'⟩ := chunkLoop_forget hload hu₂
          obtain ⟨hu, hcall⟩ := chunkLoop_forget hseek hu₁
          rw [hcall, Option.bind_some]
          refine ⟨hu, ?_⟩
          simp only [if_true, loadLoop_eq, hcall', Option.map_some, hclose]

lemma entryLoop_forget {fuel n : ℕ} {entrySize i : Word}
    (hrun : entryLoop D.watch part path fuel entrySize n i s = some (ok, t))
    (ht : t.fat.nullUsed = false) :
    s.fat.nullUsed = false ∧
      entryLoop D part path fuel entrySize n i s.forget = some (ok, t.forget) := by
  induction n generalizing i s with
  | zero =>
      cases hrun
      exact ⟨ht, rfl⟩
  | succ n ih =>
      have hmem : s.forget.mem = s.mem := rfl
      rw [entryLoop] at hrun ⊢
      rw [hmem]
      by_cases htype : (progHeader s.mem (MEMORY_ELF_ADDR + i * entrySize)).type
          = ELF_PROGRAM_TYPE_LOAD
      · rw [if_pos htype] at hrun ⊢
        obtain ⟨⟨ok₁, u⟩, hsegment, hrest⟩ := Option.bind_eq_some_iff.mp hrun
        cases ok₁ with
        | false =>
            cases hrest
            obtain ⟨hs, hcall⟩ := loadSegment_forget hsegment ht
            rw [hcall]
            exact ⟨hs, rfl⟩
        | true =>
            obtain ⟨hu, hcall'⟩ := ih hrest
            obtain ⟨hs, hcall⟩ := loadSegment_forget hsegment hu
            rw [hcall]
            exact ⟨hs, hcall'⟩
      · rw [if_neg htype] at hrun ⊢
        exact ih hrun

/-- **As long as `NULL` is not used**, `ELF_Read` runs as without the notes. -/
theorem elfRead_forget {fuel : ℕ} {entryPoint entryPoint' : Word}
    (hrun : elfRead D.watch part path fuel entryPoint s = some (ok, entryPoint', t))
    (ht : t.fat.nullUsed = false) :
    elfRead D part path fuel entryPoint s.forget = some (ok, entryPoint', t.forget) := by
  rw [elfRead] at hrun ⊢
  rw [forget_open]
  cases heq : D.watch.fatOpen part path s with
  | mk fd s₁ =>
  simp only [heq] at hrun
  dsimp only
  have hheader : (D.watch.fatRead part fd sizeofELFHeader MEMORY_ELF_ADDR s₁).2.fat.nullUsed
      = false → _ := forget_read
  cases heq₁ : D.watch.fatRead part fd sizeofELFHeader MEMORY_ELF_ADDR s₁ with
  | mk read s₂ =>
  rw [heq₁] at hheader
  simp only [heq₁] at hrun
  by_cases hshort : read ≠ sizeofELFHeader
  · rw [if_pos hshort] at hrun
    cases hrun
    obtain ⟨-, hcall⟩ := hheader ht
    simp only [hcall]
    exact if_pos hshort
  rw [if_neg hshort] at hrun
  have hseek : (D.watch.fatRead part fd
      ((elfHeader s₂.mem MEMORY_ELF_ADDR).programHeaderTablePosition - read) MEMORY_ELF_ADDR
      s₂).2.fat.nullUsed = false → _ := forget_read
  cases heq₂ : D.watch.fatRead part fd
    ((elfHeader s₂.mem MEMORY_ELF_ADDR).programHeaderTablePosition - read) MEMORY_ELF_ADDR s₂ with
  | mk read₂ s₃ =>
  rw [heq₂] at hseek
  simp only [heq₂] at hrun
  have htable : (D.watch.fatRead part fd (elfHeader s₂.mem MEMORY_ELF_ADDR).programHeaderSize
      MEMORY_ELF_ADDR s₃).2.fat.nullUsed = false → _ := forget_read
  cases heq₃ : D.watch.fatRead part fd
    (elfHeader s₂.mem MEMORY_ELF_ADDR).programHeaderSize MEMORY_ELF_ADDR s₃ with
  | mk read₃ s₄ =>
  rw [heq₃] at htable
  simp only [heq₃] at hrun
  have hmem : s₂.forget.mem = s₂.mem := rfl
  by_cases hshort' : read₃ ≠ (elfHeader s₂.mem MEMORY_ELF_ADDR).programHeaderSize
  · rw [if_pos hshort'] at hrun
    cases hrun
    obtain ⟨h₃, hcall₃⟩ := htable ht
    obtain ⟨h₂, hcall₂⟩ := hseek h₃
    obtain ⟨-, hcall₁⟩ := hheader h₂
    simp only [hcall₁, if_neg hshort, hmem, hcall₂, hcall₃, if_pos hshort']
  rw [if_neg hshort'] at hrun
  obtain ⟨⟨ok', u⟩, hloop, hdone⟩ := Option.map_eq_some_iff.mp hrun
  cases hdone
  obtain ⟨hclosed, hentries⟩ := entryLoop_forget hloop ht
  obtain ⟨h₄, hclose⟩ := forget_close hclosed
  obtain ⟨h₃, hcall₃⟩ := htable h₄
  obtain ⟨h₂, hcall₂⟩ := hseek h₃
  obtain ⟨-, hcall₁⟩ := hheader h₂
  simp only [hcall₁, if_neg hshort, hmem, hcall₂, hcall₃, if_neg hshort', hclose, hentries,
    Option.map_some]

/-! ### The answer to `NULL` -/

/-- If `FAT_Open` returns `NULL` to it, `ELF_Read` returns false and does not read or close through
it. -/
def ReportsNull (D : FatDriver σ Partition Path) (part : Partition) (path : Path) (fuel : ℕ)
    (entryPoint : Word) (s : BootState σ) : Prop :=
  ∀ ok entryPoint' t,
    elfRead D.watch part path fuel entryPoint s.watch = some (ok, entryPoint', t) →
      t.fat.nullOpened = true → ok = false ∧ t.fat.nullUsed = false

/-- `ELF_Read` answers a `NULL` by using it, so it must not get one. -/
theorem reportsNull_iff (D : FatDriver σ Partition Path) (part : Partition) (path : Path)
    (fuel : ℕ) (entryPoint : Word) (s : BootState σ) :
    ReportsNull D part path fuel entryPoint s ↔
      ∀ ok entryPoint' t,
        elfRead D.watch part path fuel entryPoint s.watch = some (ok, entryPoint', t) →
          t.fat.nullOpened = false := by
  have hstart : NullUsed s.watch := fun hopened => nomatch hopened
  constructor
  · intro hreports ok entryPoint' t hrun
    by_contra hopened
    rw [Bool.not_eq_false] at hopened
    have hunused := (hreports ok entryPoint' t hrun hopened).2
    rw [elfRead_nullUsed hstart hrun hopened] at hunused
    cases hunused
  · intro hnever ok entryPoint' t hrun hopened
    rw [hnever ok entryPoint' t hrun] at hopened
    cases hopened

end watched

/-- **When a failure of `FAT_Open` is answered with a failure**: inside of it exactly if every
component that is found, with more of the path behind it, has a slot and a first sector that can be
read; in `ELF_Read` exactly if `FAT_Open` does not return `NULL` to it. -/
theorem nullAnswered_iff {σ Partition' Path : Type*} (disk : Partition) (fuel : ℕ)
    (stack : ℕ → Byte) (path : CString) (s : FatState) (D : FatDriver σ Partition' Path)
    (part : Partition') (kernel : Path) (turns : ℕ) (entryPoint : Word) (b : BootState σ) :
    (FailsCleanly disk fuel stack path s ↔
      ∀ t entry u, Reached disk fuel (openTurn stack path s) t →
        t.found disk fuel = some (entry, u) → restPath t.path ≠ [] →
          freeHandle s ≠ none ∧ FirstSectorReadable disk entry u) ∧
    (ReportsNull D part kernel turns entryPoint b ↔
      ∀ ok entryPoint' t,
        elfRead D.watch part kernel turns entryPoint b.watch = some (ok, entryPoint', t) →
          t.fat.nullOpened = false) :=
  ⟨failsCleanly_iff disk fuel stack path s, reportsNull_iff D part kernel turns entryPoint b⟩

/-- The volume with the directory `BOOT`, whose only sector cannot be read. -/
def badSectorDisk : Partition := { directoryDisk with fails := fun _ lba _ => decide (lba = 3#32) }

/-- The state after `FAT_Initialize`. -/
def badSectorState : FatState := (fatInitialize badSectorDisk blankState).2

/-- A driver of a volume without the file. -/
def absentDriver : FatDriver Unit Unit Unit where
  fatOpen _ _ s := (0#32, s)
  fatRead _ _ _ _ s := (0#32, s)
  fatClose _ s := s

/-- **A search through `NULL`**: the first sector of the directory cannot be read, and `FAT_Open`
looks for the file in it all the same; and `ELF_Read` reads through the `NULL` that it gets. -/
theorem not_failsCleanly_badSectorDisk :
    fatInitialize badSectorDisk blankState = (some true, badSectorState) ∧
      (fatOpen badSectorDisk 40 (fun _ => 0#8) missingPath badSectorState).1 = .nullHandle ∧
      ¬FailsCleanly badSectorDisk 40 (fun _ => 0#8) missingPath badSectorState ∧
      ¬ReportsNull absentDriver () () 1 0#32 ⟨(), fun _ => 0#8⟩ := by
  have hready : (fatInitialize badSectorDisk blankState).1 = some true := by decide +kernel
  have hnull : (fatOpen badSectorDisk 40 (fun _ => 0#8) missingPath badSectorState).1
      = .nullHandle := by
    decide +kernel
  have hentry : ((openTurn (fun _ => 0#8) missingPath badSectorState).found badSectorDisk 40).map
      (fun found => (fatOpenEntry badSectorDisk found.1 found.2).1) = some none := by
    decide +kernel
  refine ⟨Prod.ext hready rfl, hnull, fun hclean => ?_, fun hreports => ?_⟩
  · obtain ⟨⟨entry, u⟩, hfound, hnone⟩ := Option.map_eq_some_iff.mp hentry
    have hresult := (hclean ⟨_, ⟨0, rfl⟩, by decide, .inr ⟨entry, u, hfound, hnone⟩⟩).1
    rw [hnull] at hresult
    cases hresult
  · have hanswer := hreports false 0#32 ⟨⟨(), true, true⟩, fun _ => 0#8⟩ rfl rfl
    exact Bool.false_ne_true hanswer.2.symm

end MiqOSoft
