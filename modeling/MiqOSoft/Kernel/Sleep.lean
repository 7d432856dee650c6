import MiqOSoft.Kernel.Vfs
import MiqOSoft.Transition.Loop

/-!
`sys_handler_sleep` of `syscall.c`, over any sequence of readings of the clock.

* `sysHandlerSleep`: the handler, with the clock of `time_get_ticks` as the sequence of the values
  it returns, and the number of readings that are made.
* `StopsAt`, `sysHandlerSleep_eq`: the wait ends at the first turn that finds the deadline passed or
  the safety counter run out.
* `sleep_ends`: the handler always returns; unless the deadline runs over the 64-bit range, it has
  slept long enough or the safety counter has ended the wait.
* `sleep_cut_short`: a stopped clock, before the deadline and with a deadline that runs over.
-/

namespace MiqOSoft

open Machine Transition

/-! ### The handler -/

/-- The state of the waiting loop: how often the clock has been read, and `iteration`. -/
structure SleepState where
  readings : ℕ
  iteration : Word

/-- A turn of the waiting loop.  The pause and the delay, which leave no trace but in the clock, are
left out. -/
def sleepTurn (clock : ℕ → BitVec 64) (target_ticks : BitVec 64) (s : SleepState) :
    SleepState ⊕ SleepState :=
  let current_ticks := clock s.readings
  let s := { s with readings := s.readings + 1 }
  if current_ticks ≥ target_ticks then .inl s
  else
    let s := { s with iteration := s.iteration + 1#32 }
    if s.iteration % 100000#32 = 0#32 then
      if s.iteration > 100000000#32 then .inl s else .inr s
    else .inr s

/-- `sys_handler_sleep` with so many turns of its loop at most: the result, and how often the clock
has been read. -/
def sysHandlerSleep (clock : ℕ → BitVec 64) (ms : Word) (fuel : ℕ) : Option (Word × ℕ) :=
  if ms = 0#32 then some (SYSCALL_OK, 0)
  else do
    let start_ticks := clock 0
    let target_ticks := start_ticks + ms.setWidth 64
    let s ← exits (sleepTurn clock target_ticks) fuel ⟨1, 0#32⟩
    -- the last reading is only logged
    some (SYSCALL_OK, s.readings + 1)

/-! ### The turns of the loop -/

/-- After so many turns. -/
def sleepState (n : ℕ) : SleepState := ⟨n + 1, BitVec.ofNat 32 n⟩

/-- The safety counter has run out after so many turns. -/
def RunOut (n : ℕ) : Prop := n % 100000 = 0 ∧ 100000000 < n

instance (n : ℕ) : Decidable (RunOut n) := inferInstanceAs (Decidable (_ ∧ _))

/-- The loop is left in the turn behind so many others. -/
def StopsAt (clock : ℕ → BitVec 64) (target_ticks : BitVec 64) (n : ℕ) : Prop :=
  clock (n + 1) ≥ target_ticks ∨ RunOut (n + 1)

instance (clock : ℕ → BitVec 64) (target_ticks : BitVec 64) (n : ℕ) :
    Decidable (StopsAt clock target_ticks n) := inferInstanceAs (Decidable (_ ∨ _))

section Turns

variable {clock : ℕ → BitVec 64} {target_ticks : BitVec 64} {n : ℕ}

/-- A turn before the counter would wrap around. -/
lemma sleepTurn_sleepState (hn : n < 100100000) :
    sleepTurn clock target_ticks (sleepState n) =
      if clock (n + 1) ≥ target_ticks then .inl ⟨n + 2, BitVec.ofNat 32 n⟩
      else if RunOut (n + 1) then .inl (sleepState (n + 1)) else .inr (sleepState (n + 1)) := by
  have hsucc : BitVec.ofNat 32 n + 1#32 = BitVec.ofNat 32 (n + 1) :=
    (BitVec.ofNat_add n 1).symm
  have hval : (BitVec.ofNat 32 (n + 1)).toNat = n + 1 := toNat_ofNat_of_lt (by omega)
  have hmod : BitVec.ofNat 32 (n + 1) % 100000#32 = 0#32 ↔ (n + 1) % 100000 = 0 := by
    rw [← BitVec.toNat_inj, BitVec.toNat_umod, hval]
    rfl
  have hgt : BitVec.ofNat 32 (n + 1) > 100000000#32 ↔ 100000000 < n + 1 := by
    rw [gt_iff_lt, BitVec.lt_def, hval]
    rfl
  simp only [sleepTurn, sleepState, RunOut, hsucc, hmod, hgt]
  grind

lemma sleepTurn_of_not_stopsAt (hn : n < 100100000) (h : ¬StopsAt clock target_ticks n) :
    sleepTurn clock target_ticks (sleepState n) = .inr (sleepState (n + 1)) := by
  obtain ⟨htime, hcount⟩ := not_or.mp h
  rw [sleepTurn_sleepState hn, if_neg htime, if_neg hcount]

lemma sleepTurn_of_stopsAt (hn : n < 100100000) (h : StopsAt clock target_ticks n) :
    ∃ iteration, sleepTurn clock target_ticks (sleepState n) = .inl ⟨n + 2, iteration⟩ := by
  rw [sleepTurn_sleepState hn]
  by_cases htime : clock (n + 1) ≥ target_ticks
  · exact ⟨_, if_pos htime⟩
  · refine ⟨BitVec.ofNat 32 (n + 1), ?_⟩
    rw [if_neg htime, if_pos (h.resolve_left htime)]
    rfl

end Turns

/-- The counter runs out for the first time after 100100000 turns. -/
lemma runOut_first : RunOut 100100000 ∧ ∀ n < 100100000, ¬RunOut n := by
  refine ⟨by decide, fun n hn h => ?_⟩
  obtain ⟨hmod, hgt⟩ := h
  omega

/-- There is a first turn that leaves the loop. -/
lemma exists_first_stop (clock : ℕ → BitVec 64) (target_ticks : BitVec 64) :
    ∃ n < 100100000, StopsAt clock target_ticks n ∧ ∀ i < n, ¬StopsAt clock target_ticks i := by
  have hstop : StopsAt clock target_ticks 100099999 := Or.inr runOut_first.1
  have hex : ∃ n, StopsAt clock target_ticks n := ⟨_, hstop⟩
  have hle : Nat.find hex ≤ 100099999 := Nat.find_min' hex hstop
  exact ⟨Nat.find hex, by omega, Nat.find_spec hex, fun i hi => Nat.find_min hex hi⟩

/-- **The wait** ends in the first turn that leaves the loop, with a reading before the loop, one in
every turn and one behind it. -/
theorem sysHandlerSleep_eq {clock : ℕ → BitVec 64} {ms : Word} {n fuel : ℕ} (hms : ms ≠ 0#32)
    (hn : n < 100100000) (hfuel : n < fuel)
    (hstop : StopsAt clock (clock 0 + ms.setWidth 64) n)
    (hfirst : ∀ i < n, ¬StopsAt clock (clock 0 + ms.setWidth 64) i) :
    sysHandlerSleep clock ms fuel = some (SYSCALL_OK, n + 3) := by
  obtain ⟨iteration, hleave⟩ := sleepTurn_of_stopsAt hn hstop
  have hrun := exits_of_counts (t := sleepState) (k := 0) (m := n) (n := fuel)
    (fun i hi => by
      rw [Nat.zero_add]
      exact sleepTurn_of_not_stopsAt (by omega) (hfirst i hi))
    (by rwa [Nat.zero_add]) hfuel
  rw [sysHandlerSleep, if_neg hms]
  exact congrArg (fun s => s.bind fun s => some (SYSCALL_OK, s.readings + 1)) hrun

/-! ### How long it sleeps -/

/-- At least `ms` ticks lie between the first and the last of so many readings. -/
def Slept (clock : ℕ → BitVec 64) (ms : Word) (readings : ℕ) : Prop :=
  (clock 0).toNat + ms.toNat ≤ (clock (readings - 1)).toNat

/-- The safety counter has ended the wait: every reading of the loop was before the deadline. -/
def TimedOut (clock : ℕ → BitVec 64) (ms : Word) (readings : ℕ) : Prop :=
  readings = 100100002 ∧
    ∀ i, 0 < i → i ≤ 100100000 → (clock i).toNat < (clock 0).toNat + ms.toNat

/-- **Sleeping ends** with `SYSCALL_OK` within 100100000 turns.  If the deadline does not run over,
the time has passed or the safety counter has ended the wait. -/
theorem sleep_ends {clock : ℕ → BitVec 64} (hmono : ∀ i j, i ≤ j → clock i ≤ clock j) (ms : Word) :
    ∃ readings, (∀ fuel ≥ 100100000, sysHandlerSleep clock ms fuel = some (SYSCALL_OK, readings)) ∧
      ((clock 0).toNat + ms.toNat < 2 ^ 64 →
        Slept clock ms readings ∨ TimedOut clock ms readings) := by
  by_cases hms : ms = 0#32
  · refine ⟨0, fun fuel _ => by rw [sysHandlerSleep, if_pos hms], fun _ => Or.inl ?_⟩
    rw [hms]
    exact le_rfl
  obtain ⟨n, hn, hstop, hfirst⟩ := exists_first_stop clock (clock 0 + ms.setWidth 64)
  refine ⟨n + 3, fun fuel hfuel => sysHandlerSleep_eq hms hn (by omega) hstop hfirst,
    fun hfit => ?_⟩
  have htarget : (clock 0 + ms.setWidth 64).toNat = (clock 0).toNat + ms.toNat := by
    have hwide : (ms.setWidth 64).toNat = ms.toNat := BitVec.toNat_setWidth_of_le (by decide)
    rw [BitVec.toNat_add, hwide, Nat.mod_eq_of_lt hfit]
  by_cases htime : clock (n + 1) ≥ clock 0 + ms.setWidth 64
  · left
    have hlast : clock (n + 1) ≤ clock (n + 2) := hmono _ _ (Nat.le_succ _)
    rw [ge_iff_le, BitVec.le_def, htarget] at htime
    exact htime.trans hlast
  · right
    have hlate : ¬n + 1 < 100100000 := fun h => runOut_first.2 _ h (hstop.resolve_left htime)
    refine ⟨by omega, fun i hpos hle => ?_⟩
    obtain ⟨i, rfl⟩ := Nat.exists_eq_succ_of_ne_zero (Nat.ne_of_gt hpos)
    have hbefore : ¬clock (i + 1) ≥ clock 0 + ms.setWidth 64 := by
      rcases Nat.lt_or_ge i n with hlt | hge
      · exact fun h => hfirst i hlt (Or.inl h)
      · obtain rfl : i = n := by omega
        exact htime
    rw [← htarget]
    exact BitVec.not_le.mp hbefore

/-- The handler's clock never goes back, and still it returns `SYSCALL_OK` too early: on a stopped
clock the safety counter ends the wait, and a deadline that runs over has passed at once. -/
theorem sleep_cut_short :
    (sysHandlerSleep (fun _ => 0#64) 1#32 100100000 = some (SYSCALL_OK, 100100002) ∧
      ¬Slept (fun _ => 0#64) 1#32 100100002) ∧
    sysHandlerSleep (fun _ => BitVec.allOnes 64) 1#32 100100000 = some (SYSCALL_OK, 3) ∧
      ¬Slept (fun _ => BitVec.allOnes 64) 1#32 3 := by
  refine ⟨⟨?_, by rw [Slept]; decide⟩, ?_, by rw [Slept]; decide⟩
  · have hbefore : ¬(0#64 ≥ 0#64 + (1#32).setWidth 64) := by decide
    refine sysHandlerSleep_eq (n := 100099999) (by decide) (by decide) (by decide)
      (Or.inr runOut_first.1) fun i hi => ?_
    exact not_or.mpr ⟨hbefore, runOut_first.2 (i + 1) (by omega)⟩
  · exact sysHandlerSleep_eq (n := 0) (by decide) (by decide) (by decide)
      (Or.inl (by decide)) fun i hi => absurd hi (Nat.not_lt_zero i)

/-- A clock that jumps behind its first reading. -/
theorem sleep_ends_jump : ∃ readings,
    (∀ fuel ≥ 100100000, sysHandlerSleep (fun i => if i = 0 then 0#64 else 7#64) 5#32 fuel
      = some (SYSCALL_OK, readings)) ∧
    (Slept (fun i => if i = 0 then 0#64 else 7#64) 5#32 readings ∨
      TimedOut (fun i => if i = 0 then 0#64 else 7#64) 5#32 readings) := by
  have hmono : ∀ i j : ℕ, i ≤ j →
      (if i = 0 then 0#64 else 7#64) ≤ (if j = 0 then 0#64 else 7#64) := fun i j hij => by
    by_cases hi : i = 0
    · rw [if_pos hi]
      split_ifs <;> decide
    · rw [if_neg hi, if_neg (by omega)]
      exact BitVec.le_refl _
  obtain ⟨readings, hrun, hslept⟩ := sleep_ends hmono 5#32
  exact ⟨readings, hrun, hslept (by decide)⟩

end MiqOSoft
