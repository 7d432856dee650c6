import Mathlib.Tactic

/-!
Runs of a partial step function.

* `Run step ok w cs w'`: from `w` the calls `cs`, each permitted by `ok` in the state it is
  made in, lead to `w'`.  A call on which `step` is undefined never returns, so no run
  passes it.
* `Run.invariant`: a property kept by every permitted step holds at the end of a run.
* `Run.forall_prefix_iff`: if a condition on the steps keeps an invariant, and a step that
  breaks the condition leaves the invariant's consequence false, then along a run the
  condition holds at every step exactly when the consequence holds in every state.
* `Run.exists_change`: if only certain steps change a value, then a run at whose end the value
  differs makes such a step.
* `Trace step w os w'`: the steps of a relation, each with what is observed of it.
* `Run.forall_step_iff`: a law of steps that is met exactly under a condition is met by all steps
  of a run exactly when the condition holds at each of them.
-/

namespace Transition

variable {σ α : Type*} {step : σ → α → Option σ} {ok ok' : σ → α → Prop}

/-- The calls `cs` lead from one state to another, every call being permitted by `ok`. -/
inductive Run (step : σ → α → Option σ) (ok : σ → α → Prop) : σ → List α → σ → Prop
  | nil (w : σ) : Run step ok w [] w
  | cons {w u v : σ} {c : α} {cs : List α} (hok : ok w c) (hstep : step w c = some u)
      (hrun : Run step ok u cs v) : Run step ok w (c :: cs) v

namespace Run

/-- **The invariant rule.** -/
theorem invariant {P : σ → Prop} {w v : σ} {cs : List α}
    (hP : ∀ w c u, P w → ok w c → step w c = some u → P u)
    (hrun : Run step ok w cs v) (hw : P w) : P v := by
  induction hrun with
  | nil w => exact hw
  | cons hok hstep _ ih => exact ih (hP _ _ _ hw hok hstep)

lemma mono (h : ∀ w c, ok w c → ok' w c) {w v : σ} {cs : List α} (hrun : Run step ok w cs v) :
    Run step ok' w cs v := by
  induction hrun with
  | nil w => exact nil w
  | cons hok hstep _ ih => exact cons (h _ _ hok) hstep ih

/-- What holds of all calls of a run can be asked for with each. -/
lemma and_of_forall {Q : α → Prop} {w v : σ} {cs : List α} (hrun : Run step ok w cs v)
    (hQ : ∀ c ∈ cs, Q c) : Run step (fun w c => ok w c ∧ Q c) w cs v := by
  induction hrun with
  | nil w => exact nil w
  | cons hok hstep _ ih =>
      exact cons ⟨hok, hQ _ List.mem_cons_self⟩ hstep
        (ih fun c hc => hQ c (List.mem_cons_of_mem _ hc))

/-- A run of a system is one of the system it is projected to. -/
lemma map {τ : Type*} {step' : τ → α → Option τ} {ok' : τ → α → Prop} (f : σ → τ)
    (h : ∀ w c u, ok w c → step w c = some u → ok' (f w) c ∧ step' (f w) c = some (f u))
    {w v : σ} {cs : List α} (hrun : Run step ok w cs v) : Run step' ok' (f w) cs (f v) := by
  induction hrun with
  | nil w => exact nil (f w)
  | cons hok hstep _ ih =>
      obtain ⟨hok', hstep'⟩ := h _ _ _ hok hstep
      exact cons hok' hstep' ih

/-- One more call at the end. -/
lemma snoc {w u v : σ} {c : α} {cs : List α} (hrun : Run step ok w cs u) (hok : ok u c)
    (hstep : step u c = some v) : Run step ok w (cs ++ [c]) v := by
  induction hrun with
  | nil w => exact cons hok hstep (nil v)
  | cons hok' hstep' _ ih => exact cons hok' hstep' (ih hok hstep)

/-- A run behind a run. -/
lemma append {w u v : σ} {cs ds : List α} (hcs : Run step ok w cs u) (hds : Run step ok u ds v) :
    Run step ok w (cs ++ ds) v := by
  induction hcs with
  | nil w => exact hds
  | cons hok hstep _ ih => exact cons hok hstep (ih hds)

/-- A call of a run is permitted and returns. -/
lemma cons_inv {w v : σ} {c : α} {cs : List α} (hrun : Run step ok w (c :: cs) v) :
    ok w c ∧ ∃ u, step w c = some u ∧ Run step ok u cs v := by
  cases hrun with
  | cons hok hstep h => exact ⟨hok, _, hstep, h⟩

/-- The state reached is computed by folding the calls. -/
lemma foldlM_eq {w v : σ} {cs : List α} (hrun : Run step ok w cs v) :
    cs.foldlM step w = some v := by
  induction hrun with
  | nil w => rfl
  | cons hok hstep _ ih =>
      rw [List.foldlM_cons, hstep]
      exact ih

/-- Calls that all return make a run. -/
lemma of_foldlM {w v : σ} {cs : List α} (h : cs.foldlM step w = some v) :
    Run step (fun _ _ => True) w cs v := by
  induction cs generalizing w with
  | nil =>
      obtain rfl := Option.some.inj h
      exact nil w
  | cons c cs ih =>
      rw [List.foldlM_cons] at h
      obtain ⟨u, hstep, hrest⟩ := Option.bind_eq_some_iff.mp h
      exact cons trivial hstep (ih hrest)

/-- The calls determine the state reached. -/
lemma unique {w u v : σ} {cs : List α} (hu : Run step ok w cs u) (hv : Run step ok w cs v) :
    u = v :=
  Option.some.inj (hu.foldlM_eq.symm.trans hv.foldlM_eq)

/-- A run passes through a state between any two of its calls. -/
lemma append_inv {w v : σ} {cs ds : List α} (hrun : Run step ok w (cs ++ ds) v) :
    ∃ u, Run step ok w cs u ∧ Run step ok u ds v := by
  induction cs generalizing w with
  | nil => exact ⟨w, nil w, hrun⟩
  | cons c cs ih =>
      obtain ⟨hok, u, hstep, hrest⟩ := hrun.cons_inv
      obtain ⟨u', hcs, hds⟩ := ih hrest
      exact ⟨u', cons hok hstep hcs, hds⟩

/-- **Laws of single steps**: if under an invariant a step meets `law` exactly when `cond` holds
before it, then every step of a run does exactly when `cond` holds throughout. -/
theorem forall_step_iff {P : σ → Prop} {law : σ → α → σ → Prop} {cond : σ → α → Prop} {w v : σ}
    {cs : List α} (hP : ∀ u c u', P u → ok u c → step u c = some u' → P u')
    (hlaw : ∀ u c u', P u → ok u c → step u c = some u' → (law u c u' ↔ cond u c))
    (hw : P w) (hrun : Run step ok w cs v) :
    (∀ pre c post u u', cs = pre ++ c :: post → Run step ok w pre u → step u c = some u' →
        law u c u') ↔
      ∀ pre c post u, cs = pre ++ c :: post → Run step ok w pre u → cond u c := by
  have hstep : ∀ pre c post u, cs = pre ++ c :: post → Run step ok w pre u →
      P u ∧ ok u c ∧ ∃ u', step u c = some u' := by
    rintro pre c post u rfl hu
    obtain ⟨u₁, hu₁, hrest⟩ := hrun.append_inv
    obtain rfl := hu.unique hu₁
    obtain ⟨hok, u', hs, -⟩ := hrest.cons_inv
    exact ⟨invariant hP hu hw, hok, u', hs⟩
  constructor
  · intro h pre c post u hcs hu
    obtain ⟨hPu, hok, u', hs⟩ := hstep pre c post u hcs hu
    exact (hlaw u c u' hPu hok hs).mp (h pre c post u u' hcs hu hs)
  · intro h pre c post u u' hcs hu hs
    obtain ⟨hPu, hok, -⟩ := hstep pre c post u hcs hu
    exact (hlaw u c u' hPu hok hs).mpr (h pre c post u hcs hu)

/-- **What changes in a run is changed by a step of it** that `changes` holds of. -/
theorem exists_change {β : Type*} {P : σ → Prop} {w v : σ} {cs : List α} (f : σ → β)
    (changes : σ → α → Prop) (hP : ∀ u c u', P u → ok u c → step u c = some u' → P u')
    (hkeep : ∀ u c u', P u → ok u c → step u c = some u' → ¬changes u c → f u' = f u)
    (hw : P w) (hrun : Run step ok w cs v) (hne : f v ≠ f w) :
    ∃ pre c post u, cs = pre ++ c :: post ∧ Run step ok w pre u ∧ changes u c := by
  induction hrun with
  | nil w => exact absurd rfl hne
  | @cons w u v c cs hok hs _ ih =>
      by_cases hc : changes w c
      · exact ⟨[], c, cs, w, rfl, nil w, hc⟩
      · have hu : f u = f w := hkeep w c u hw hok hs hc
        obtain ⟨pre, d, post, u', rfl, hpre, hd⟩ := ih (hP w c u hw hok hs) (by rwa [hu])
        exact ⟨c :: pre, d, post, u', rfl, cons hok hs hpre, hd⟩

/-- **The condition that an invariant rests on, read back from the run**: if every step that
meets `cond` keeps `P`, and a step that does not leaves a state violating `Q`, a consequence
of `P`, then `cond` holds throughout a run exactly when `Q` does. -/
theorem forall_prefix_iff {P Q : σ → Prop} {cond : σ → α → Prop} {w v : σ} {cs : List α}
    (hPQ : ∀ u, P u → Q u)
    (hstep : ∀ u c u', P u → ok u c → cond u c → step u c = some u' → P u')
    (hbad : ∀ u c u', P u → ok u c → ¬cond u c → step u c = some u' → ¬Q u')
    (hw : P w) (hrun : Run step ok w cs v) :
    (∀ pre c post u, cs = pre ++ c :: post → Run step ok w pre u → cond u c) ↔
      ∀ pre post u, cs = pre ++ post → Run step ok w pre u → Q u := by
  induction hrun with
  | nil w =>
      refine ⟨?_, ?_⟩
      · rintro - pre post u hcs hu
        obtain ⟨rfl, rfl⟩ := List.append_eq_nil_iff.mp hcs.symm
        cases hu
        exact hPQ _ hw
      · intro _ pre c post u hcs
        simp at hcs
  | @cons w u v c cs hok hs _ ih =>
      constructor
      · intro hcond pre post u' hcs hu'
        have hc : cond w c := hcond [] c cs w rfl (nil w)
        have hu : P u := hstep w c u hw hok hc hs
        match pre, hcs, hu' with
        | [], _, hu' =>
            cases hu'
            exact hPQ _ hw
        | c' :: pre, hcs, hu' =>
            obtain ⟨rfl, rfl⟩ := List.cons.inj hcs
            obtain ⟨-, u₁, hu₁, hu'⟩ := hu'.cons_inv
            obtain rfl := Option.some.inj (hs.symm.trans hu₁)
            refine (ih hu).mp (fun pre' d post' u₂ hcs' hu₂ => ?_) pre post u' rfl hu'
            exact hcond (c :: pre') d post' u₂ (by rw [hcs']; rfl) (cons hok hs hu₂)
      · intro hQ pre d post u' hcs hu'
        have hQu : Q u := hQ [c] cs u rfl (cons hok hs (nil u))
        have hc : cond w c := by
          by_contra hne
          exact hbad w c u hw hok hne hs hQu
        have hu : P u := hstep w c u hw hok hc hs
        match pre, hcs, hu' with
        | [], hcs, hu' =>
            obtain ⟨rfl, rfl⟩ := List.cons.inj hcs
            cases hu'
            exact hc
        | c' :: pre, hcs, hu' =>
            obtain ⟨rfl, rfl⟩ := List.cons.inj hcs
            obtain ⟨-, u₁, hu₁, hu'⟩ := hu'.cons_inv
            obtain rfl := Option.some.inj (hs.symm.trans hu₁)
            refine (ih hu).mpr (fun pre' post' u₂ hcs' hu₂ => ?_) pre d post u' rfl hu'
            exact hQ (c :: pre') post' u₂ (by rw [hcs']; rfl) (cons hok hs hu₂)

end Run

/-- The steps of a relation lead from one state to another, each with its observation. -/
inductive Trace (step : σ → α → σ → Prop) : σ → List α → σ → Prop
  | nil (w : σ) : Trace step w [] w
  | cons {w u v : σ} {o : α} {os : List α} (hstep : step w o u) (hrest : Trace step u os v) :
      Trace step w (o :: os) v

/-- Steps behind steps. -/
lemma Trace.append {step : σ → α → σ → Prop} {w u v : σ} {os ps : List α}
    (hos : Trace step w os u) (hps : Trace step u ps v) : Trace step w (os ++ ps) v := by
  induction hos with
  | nil w => exact hps
  | cons hstep _ ih => exact cons hstep (ih hps)

end Transition
