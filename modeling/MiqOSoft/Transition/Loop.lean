import Mathlib.Tactic

/-!
Loops that need not end.

* `turns body n s`: the state after `n` turns of a loop, or `none` when the loop is left before.
* `turns_invariant`: what a turn keeps holds after every number of turns.
* `foldl_range'_invariant`: the same for a loop that counts.
* `Halts body s`: the loop is left at some time.
* `leaves body n s`: the state in which the loop is left, if it is left within `n` turns.
* `leaves_of_counts`, `leaves_eq_none`: a loop that counts up to its end, and one that goes on.
* `exits body n s`: the value with which a loop is left, if it is left within `n` turns.
* `exits_of_counts`: the value of a loop that counts, with any number of turns that is enough.
* `halts_iff_exists`: if the loop follows a sequence of states until an event, and halts from
  every event on, then it halts exactly if there is an event.
-/

namespace Transition

variable {σ : Type*} {body : σ → Option σ}

/-- The state after `n` turns of the loop with the given body, which is undefined where it leaves
the loop. -/
def turns (body : σ → Option σ) : ℕ → σ → Option σ
  | 0, s => some s
  | n + 1, s => (body s).bind (turns body n)

/-- **What a turn keeps** holds of every state that the loop comes through. -/
theorem turns_invariant {P : σ → Prop} (hbody : ∀ s t, P s → body s = some t → P t) {n : ℕ}
    {s t : σ} (hs : P s) (h : turns body n s = some t) : P t := by
  induction n generalizing s with
  | zero =>
      obtain rfl := Option.some.inj h
      exact hs
  | succ n ih =>
      rw [turns] at h
      obtain ⟨u, hu, hrest⟩ := Option.bind_eq_some_iff.mp h
      exact ih (hbody s u hs hu) hrest

/-- **A loop that counts** keeps what each turn takes from one number to the next. -/
theorem foldl_range'_invariant {P : ℕ → σ → Prop} {turn : σ → ℕ → σ} {start n : ℕ} {s : σ}
    (hturn : ∀ i s, start ≤ i → i < start + n → P i s → P (i + 1) (turn s i)) (hs : P start s) :
    P (start + n) ((List.range' start n).foldl turn s) := by
  induction n generalizing start s with
  | zero => exact hs
  | succ n ih =>
      have hfirst : P (start + 1) (turn s start) := hturn start s le_rfl (by omega) hs
      have hrest := ih (fun i t hle hlt => hturn i t (by omega) (by omega)) hfirst
      rwa [List.range'_succ, List.foldl_cons, Nat.add_comm n 1, ← Nat.add_assoc]

/-- The state in which the loop is left, which is undefined if `n` turns do not leave it. -/
def leaves (body : σ → Option σ) : ℕ → σ → Option σ
  | 0, _ => none
  | n + 1, s =>
      match body s with
      | none => some s
      | some t => leaves body n t

/-- **A loop that counts** through a sequence of states is left in the last one. -/
theorem leaves_of_counts {t : ℕ → σ} {k m : ℕ} (hgo : ∀ n < m, body (t (k + n)) =
    some (t (k + n + 1))) (hstop : body (t (k + m)) = none) :
    leaves body (m + 1) (t k) = some (t (k + m)) := by
  induction m generalizing k with
  | zero =>
      rw [Nat.add_zero] at hstop
      rw [leaves, hstop, Nat.add_zero]
  | succ m ih =>
      have hfirst : body (t k) = some (t (k + 1)) := hgo 0 (Nat.succ_pos m)
      have hnext : ∀ n, k + 1 + n = k + (n + 1) := fun n => by omega
      have hrest := ih (k := k + 1)
        (fun n hn => by rw [hnext]; exact hgo (n + 1) (Nat.succ_lt_succ hn))
        (by rwa [hnext])
      rw [leaves, hfirst]
      rwa [hnext] at hrest

/-- **A loop that always goes on** is not left. -/
theorem leaves_eq_none (hgo : ∀ s, body s ≠ none) (n : ℕ) (s : σ) : leaves body n s = none := by
  induction n generalizing s with
  | zero => rfl
  | succ n ih =>
      obtain ⟨t, ht⟩ := Option.ne_none_iff_exists'.mp (hgo s)
      rw [leaves, ht]
      exact ih t

/-- The value with which a loop is left, which is undefined if `n` turns do not leave it.  A turn
leaves the loop with a value or goes on from a state. -/
def exits {α : Type*} (body : σ → α ⊕ σ) : ℕ → σ → Option α
  | 0, _ => none
  | n + 1, s =>
      match body s with
      | .inl a => some a
      | .inr t => exits body n t

/-- **A loop that counts** through a sequence of states is left with the value of the last one. -/
theorem exits_of_counts {α : Type*} {body : σ → α ⊕ σ} {t : ℕ → σ} {k m n : ℕ} {a : α}
    (hgo : ∀ i < m, body (t (k + i)) = .inr (t (k + i + 1))) (hstop : body (t (k + m)) = .inl a)
    (hn : m < n) : exits body n (t k) = some a := by
  induction m generalizing k n with
  | zero =>
      obtain ⟨n, rfl⟩ := Nat.exists_eq_succ_of_ne_zero (Nat.ne_of_gt hn)
      rw [Nat.add_zero] at hstop
      rw [exits, hstop]
  | succ m ih =>
      obtain ⟨n, rfl⟩ := Nat.exists_eq_succ_of_ne_zero (n := n) (by omega)
      have hfirst : body (t k) = .inr (t (k + 1)) := hgo 0 (Nat.succ_pos m)
      have hnext : ∀ i, k + 1 + i = k + (i + 1) := fun i => by omega
      rw [exits, hfirst]
      exact ih (fun i hi => by rw [hnext]; exact hgo (i + 1) (Nat.succ_lt_succ hi))
        (by rwa [hnext]) (by omega)

/-- The loop is left. -/
def Halts (body : σ → Option σ) (s : σ) : Prop := ∃ n, turns body n s = none

lemma halts_of_none {s : σ} (h : body s = none) : Halts body s :=
  ⟨1, by rw [turns, h]; rfl⟩

/-- A turn of the loop does not change whether it halts. -/
lemma halts_iff_of_some {s t : σ} (h : body s = some t) : Halts body s ↔ Halts body t := by
  constructor
  · rintro ⟨n, hn⟩
    cases n with
    | zero => exact absurd hn (Option.some_ne_none s)
    | succ n =>
        rw [turns, h] at hn
        exact ⟨n, hn⟩
  · rintro ⟨n, hn⟩
    exact ⟨n + 1, by rw [turns, h]; exact hn⟩

variable {t : ℕ → σ} {stops : ℕ → Prop}

/-- Without an event the loop follows the sequence. -/
lemma turns_eq (hgo : ∀ n, body (t n) = some (t (n + 1))) (n k : ℕ) :
    turns body n (t k) = some (t (k + n)) := by
  induction n generalizing k with
  | zero => rfl
  | succ n ih =>
      rw [turns, hgo, Option.bind_some, ih]
      congr 2
      omega

lemma halts_of_stops (hgo : ∀ n, ¬stops n → body (t n) = some (t (n + 1)))
    (hstop : ∀ n, stops n → Halts body (t n)) {n k : ℕ} (h : stops (k + n)) :
    Halts body (t k) := by
  induction n generalizing k with
  | zero => exact hstop k h
  | succ n ih =>
      by_cases hk : stops k
      · exact hstop k hk
      · have hnext : Halts body (t (k + 1)) := ih (by rwa [Nat.add_right_comm])
        exact (halts_iff_of_some (hgo k hk)).mpr hnext

/-- **A loop that follows a sequence of states until an event** halts exactly if there is one. -/
theorem halts_iff_exists (hgo : ∀ n, ¬stops n → body (t n) = some (t (n + 1)))
    (hstop : ∀ n, stops n → Halts body (t n)) : Halts body (t 0) ↔ ∃ n, stops n := by
  constructor
  · rintro ⟨n, hn⟩
    by_contra hnone
    rw [turns_eq (fun k => hgo k fun hk => hnone ⟨k, hk⟩) n 0] at hn
    exact Option.some_ne_none _ hn
  · rintro ⟨n, hn⟩
    exact halts_of_stops (n := n) (k := 0) hgo hstop (by rwa [Nat.zero_add])

end Transition
