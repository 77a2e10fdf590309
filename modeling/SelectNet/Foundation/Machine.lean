import Mathlib.Data.List.Basic

/-!
# State machines

Steps carry a label: who moves, and what the environment answers. Safety
results are invariants of the reachable states; a result that holds only of
runs whose steps meet a condition is one of the restricted machine. Two runs on
the same labels are compared by a simulation.
-/

universe u v w

/-- Initial states and labelled steps. -/
structure Machine (σ : Type u) (ℓ : Type v) where
  initial : σ → Prop
  step : σ → ℓ → σ → Prop

namespace Machine

variable {σ : Type u} {ℓ : Type v}

/-- States that some run from an initial state ends in. -/
inductive Reachable (machine : Machine σ ℓ) : σ → Prop where
  | start {state : σ} (hinitial : machine.initial state) : Reachable machine state
  | next {state next : σ} {label : ℓ} (hreach : Reachable machine state)
      (hstep : machine.step state label next) : Reachable machine next

/-- The same machine, taking only the steps that meet a condition on the state
before and the label. -/
def restrict (machine : Machine σ ℓ) (allowed : σ → ℓ → Prop) : Machine σ ℓ where
  initial := machine.initial
  step state label next := allowed state label ∧ machine.step state label next

variable {machine : Machine σ ℓ} {holds : σ → Prop} {state : σ}

/-- What holds initially and is preserved by every step holds of every
reachable state. -/
theorem Reachable.invariant (hinitial : ∀ state, machine.initial state → holds state)
    (hstep : ∀ state label next, holds state →
      machine.step state label next → holds next)
    (hreach : machine.Reachable state) : holds state := by
  induction hreach with
  | start hstart => exact hinitial _ hstart
  | next _ hmove ih => exact hstep _ _ _ ih hmove

/-- A step that is named by its label. -/
theorem Reachable.step {next : σ} (hreach : machine.Reachable state) (label : ℓ)
    (hstep : machine.step state label next) : machine.Reachable next :=
  .next hreach hstep

theorem Reachable.of_restrict {allowed : σ → ℓ → Prop}
    (hreach : (machine.restrict allowed).Reachable state) : machine.Reachable state := by
  induction hreach with
  | start hstart => exact .start hstart
  | next _ hmove ih => exact .next ih (And.right hmove)

theorem Reachable.step_restrict {allowed : σ → ℓ → Prop} {next : σ}
    (hreach : (machine.restrict allowed).Reachable state) (label : ℓ)
    (hallowed : allowed state label) (hstep : machine.step state label next) :
    (machine.restrict allowed).Reachable next :=
  .next hreach ⟨hallowed, hstep⟩

/-- The invariant rule for runs whose steps all meet the condition. -/
theorem Reachable.invariant_restrict {allowed : σ → ℓ → Prop}
    (hinitial : ∀ state, machine.initial state → holds state)
    (hstep : ∀ state label next, holds state → allowed state label →
      machine.step state label next → holds next)
    (hreach : (machine.restrict allowed).Reachable state) : holds state := by
  induction hreach with
  | start hstart => exact hinitial _ hstart
  | next _ hmove ih => exact hstep _ _ _ ih (And.left hmove) (And.right hmove)

/-! ## Runs on given labels -/

section Runs

variable {step : σ → ℓ → σ → Prop} {next : σ} {labels : List ℓ}

/-- Steps that took these labels, in this order. -/
inductive Runs (step : σ → ℓ → σ → Prop) (state : σ) : List ℓ → σ → Prop where
  | start : Runs step state [] state
  | next {labels : List ℓ} {middle next : σ} {label : ℓ} (hruns : Runs step state labels middle)
      (hstep : step middle label next) : Runs step state (labels ++ [label]) next

theorem Runs.single {label : ℓ} (hstep : step state label next) :
    Runs step state [label] next :=
  Runs.start.next hstep

/-- Steps lead from reachable states to reachable states. -/
theorem Runs.reachable {machine : Machine σ ℓ} (hreach : machine.Reachable state)
    (hruns : Runs machine.step state labels next) : machine.Reachable next := by
  induction hruns with
  | start => exact hreach
  | next _ hmove ih => exact .next ih hmove

/-- The simulation rule: if related states stay related under each step of the
one, then the other, perhaps of another machine, can take the same labels. -/
theorem Runs.simulate {τ : Type w} {step' : τ → ℓ → τ → Prop} {related : σ → τ → Prop} {other : τ}
    (hstep : ∀ state other label next, related state other → step state label next →
      ∃ next', step' other label next' ∧ related next next')
    (hstart : related state other) (hruns : Runs step state labels next) :
    ∃ next', Runs step' other labels next' ∧ related next next' := by
  induction hruns with
  | start => exact ⟨other, .start, hstart⟩
  | next _ hmove ih =>
      obtain ⟨middle, hruns, hmiddle⟩ := ih
      obtain ⟨next', hmove', hnext⟩ := hstep _ _ _ _ hmiddle hmove
      exact ⟨next', hruns.next hmove', hnext⟩

theorem Runs.nil_iff : Runs step state [] next ↔ next = state := by
  constructor
  · intro hruns
    generalize hlabels : ([] : List ℓ) = labels at hruns
    cases hruns with
    | start => rfl
    | next =>
        exact absurd hlabels.symm
          (List.append_ne_nil_of_right_ne_nil _ (List.cons_ne_nil _ _))
  · rintro rfl
    exact .start

theorem Runs.snoc_iff {label : ℓ} : Runs step state (labels ++ [label]) next ↔
    ∃ middle, Runs step state labels middle ∧ step middle label next := by
  constructor
  · intro hruns
    generalize hlabels : labels ++ [label] = all at hruns
    cases hruns with
    | start => exact absurd hlabels (List.append_ne_nil_of_right_ne_nil _ (List.cons_ne_nil _ _))
    | next hbefore hmove =>
        obtain ⟨rfl, hlast⟩ := List.append_inj' hlabels rfl
        cases hlast
        exact ⟨_, hbefore, hmove⟩
  · rintro ⟨middle, hbefore, hmove⟩
    exact hbefore.next hmove

theorem Runs.single_iff {label : ℓ} :
    Runs step state [label] next ↔ step state label next := by
  refine ⟨fun hruns => ?_, Runs.single⟩
  rw [← List.nil_append [label]] at hruns
  obtain ⟨middle, hbefore, hstep⟩ := Runs.snoc_iff.mp hruns
  cases Runs.nil_iff.mp hbefore
  exact hstep

end Runs

end Machine
