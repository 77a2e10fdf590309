import Mathlib.Logic.Relation

/-!
# Loops that may not end

A `while (true)` body is a function from the state at the head of a pass to its
decision: go round again, or leave with a result. Running a body for a bounded
number of passes is executable; whether the loop ends at all is the existence
of a bound that suffices.
-/

universe u v u' v'

/-- The decision at the end of one pass: another pass, or a result. -/
inductive Pass (σ : Type u) (ρ : Type v) where
  | again (next : σ)
  | leave (result : ρ)

namespace Loop

variable {σ : Type u} {ρ : Type v}

/-- Run at most `fuel` passes. The result is `none` when none of them left. -/
def run (body : σ → Pass σ ρ) : Nat → σ → Option ρ
  | 0, _ => none
  | fuel + 1, state =>
      match body state with
      | .leave result => some result
      | .again next => run body fuel next

/-- The loop leaves with this result after finitely many passes. -/
def Yields (body : σ → Pass σ ρ) (state : σ) (result : ρ) : Prop :=
  ∃ fuel, run body fuel state = some result

/-- The loop leaves at all. -/
def Ends (body : σ → Pass σ ρ) (state : σ) : Prop :=
  ∃ result, Yields body state result

/-- States at the head of some pass of the loop, the first pass included. -/
def Visits (body : σ → Pass σ ρ) : σ → σ → Prop :=
  Relation.ReflTransGen fun state next => body state = .again next

variable {body : σ → Pass σ ρ} {state next : σ} {result other : ρ}

theorem run_of_leave (hleave : body state = .leave result) (fuel : Nat) :
    run body (fuel + 1) state = some result := by
  simp only [run, hleave]

theorem run_of_again (hagain : body state = .again next) (fuel : Nat) :
    run body (fuel + 1) state = run body fuel next := by
  simp only [run, hagain]

/-- More fuel never changes a result. -/
theorem run_mono {fuel more : Nat} (hrun : run body fuel state = some result)
    (hle : fuel ≤ more) : run body more state = some result := by
  induction fuel generalizing state more with
  | zero => cases hrun
  | succ fuel ih =>
      obtain ⟨more, rfl⟩ : ∃ n, more = n + 1 := ⟨more - 1, by omega⟩
      cases hbody : body state with
      | leave left =>
          rw [run_of_leave hbody] at hrun ⊢
          exact hrun
      | again next =>
          rw [run_of_again hbody] at hrun ⊢
          exact ih hrun (by omega)

theorem Yields.unique (hfirst : Yields body state result)
    (hsecond : Yields body state other) : result = other := by
  obtain ⟨first, hfirst⟩ := hfirst
  obtain ⟨second, hsecond⟩ := hsecond
  have hleft := run_mono hfirst (Nat.le_max_left first second)
  have hright := run_mono hsecond (Nat.le_max_right first second)
  exact Option.some.inj (hleft.symm.trans hright)

/-- What a caller makes of the result of a loop that ends. -/
theorem exists_map_run_iff {γ : Type*} (finish : ρ → γ) (out : γ) :
    (∃ fuel, (run body fuel state).map finish = some out) ↔
      ∃ result, Yields body state result ∧ finish result = out := by
  simp only [Option.map_eq_some_iff, Yields]
  constructor
  · rintro ⟨fuel, result, hrun, hout⟩
    exact ⟨result, ⟨fuel, hrun⟩, hout⟩
  · rintro ⟨result, ⟨fuel, hrun⟩, hout⟩
    exact ⟨fuel, result, hrun, hout⟩

theorem Yields.of_leave (hleave : body state = .leave result) : Yields body state result :=
  ⟨1, run_of_leave hleave 0⟩

theorem Yields.of_again (hagain : body state = .again next)
    (hnext : Yields body next result) : Yields body state result := by
  obtain ⟨fuel, hrun⟩ := hnext
  exact ⟨fuel + 1, (run_of_again hagain fuel).trans hrun⟩

theorem yields_iff_of_again (hagain : body state = .again next) :
    Yields body state result ↔ Yields body next result := by
  refine ⟨?_, Yields.of_again hagain⟩
  rintro ⟨fuel, hrun⟩
  cases fuel with
  | zero => cases hrun
  | succ fuel => exact ⟨fuel, (run_of_again hagain fuel).symm.trans hrun⟩

theorem ends_iff_of_again (hagain : body state = .again next) :
    Ends body state ↔ Ends body next := by
  simp only [Ends, yields_iff_of_again hagain]

/-- The invariant rule: what every pass preserves, and what leaving establishes
from it, holds of every result. -/
theorem Yields.induction {invariant : σ → Prop} {post : ρ → Prop}
    (hagain : ∀ state next, invariant state → body state = .again next → invariant next)
    (hleave : ∀ state result, invariant state → body state = .leave result → post result)
    (hstart : invariant state) (hyields : Yields body state result) : post result := by
  obtain ⟨fuel, hrun⟩ := hyields
  induction fuel generalizing state with
  | zero => cases hrun
  | succ fuel ih =>
      cases hbody : body state with
      | leave left =>
          rw [run_of_leave hbody] at hrun
          exact Option.some.inj hrun ▸ hleave state left hstart hbody
      | again next =>
          rw [run_of_again hbody] at hrun
          exact ih (hagain state next hstart hbody) hrun

/-- The variant rule: a measure that every pass decreases bounds the passes. -/
theorem exists_run_of_variant {invariant : σ → Prop} (variant : σ → Nat)
    (hagain : ∀ state next, invariant state → body state = .again next →
      invariant next ∧ variant next < variant state)
    (hstart : invariant state) {fuel : Nat} (hfuel : variant state < fuel) :
    ∃ result, run body fuel state = some result := by
  induction fuel generalizing state with
  | zero => omega
  | succ fuel ih =>
      cases hbody : body state with
      | leave left => exact ⟨left, run_of_leave hbody fuel⟩
      | again next =>
          obtain ⟨hnext, hlt⟩ := hagain state next hstart hbody
          rw [run_of_again hbody]
          exact ih hnext (by omega)

theorem Ends.of_variant {invariant : σ → Prop} (variant : σ → Nat)
    (hagain : ∀ state next, invariant state → body state = .again next →
      invariant next ∧ variant next < variant state)
    (hstart : invariant state) : Ends body state := by
  obtain ⟨result, hrun⟩ := exists_run_of_variant variant hagain hstart (Nat.lt_succ_self _)
  exact ⟨result, _, hrun⟩

/-- A set of states from which every pass goes round again into the set is
never left. -/
theorem not_ends_of_trap {trap : σ → Prop}
    (hagain : ∀ state, trap state → ∃ next, body state = .again next ∧ trap next)
    (hstart : trap state) : ¬ Ends body state := by
  rintro ⟨result, fuel, hrun⟩
  induction fuel generalizing state with
  | zero => cases hrun
  | succ fuel ih =>
      obtain ⟨next, hbody, hnext⟩ := hagain state hstart
      rw [run_of_again hbody] at hrun
      exact ih hnext hrun

theorem Visits.invariant {invariant : σ → Prop}
    (hagain : ∀ state next, invariant state → body state = .again next → invariant next)
    (hstart : invariant state) (hvisits : Visits body state next) : invariant next := by
  induction hvisits with
  | refl => exact hstart
  | tail _ hbody ih => exact hagain _ _ ih hbody

/-- Leaving later means having visited everything on the way. -/
theorem Visits.ends_iff (hvisits : Visits body state next) :
    Ends body state ↔ Ends body next := by
  induction hvisits with
  | refl => exact Iff.rfl
  | tail _ hbody ih => exact ih.trans (ends_iff_of_again hbody)

theorem Visits.yields (hvisits : Visits body state next) (hnext : Yields body next result) :
    Yields body state result := by
  induction hvisits with
  | refl => exact hnext
  | tail _ hbody ih => exact ih (hnext.of_again hbody)

/-- A loop leaves from a state it has visited. -/
theorem Yields.visits (hyields : Yields body state result) :
    ∃ last, Visits body state last ∧ body last = .leave result := by
  obtain ⟨fuel, hrun⟩ := hyields
  induction fuel generalizing state with
  | zero => cases hrun
  | succ fuel ih =>
      cases hbody : body state with
      | leave left =>
          rw [run_of_leave hbody, Option.some.injEq] at hrun
          exact ⟨state, .refl, hrun ▸ hbody⟩
      | again next =>
          rw [run_of_again hbody] at hrun
          obtain ⟨last, hvisits, hleave⟩ := ih hrun
          exact ⟨last, .head hbody hvisits, hleave⟩

theorem Visits.again {later : σ} (hagain : body state = .again next)
    (hvisits : Visits body next later) : Visits body state later :=
  Relation.ReflTransGen.head hagain hvisits

theorem Visits.eq_of_leave {later : σ} (hleave : body state = .leave result)
    (hvisits : Visits body state later) : later = state := by
  rcases Relation.ReflTransGen.cases_head hvisits with hsame | ⟨middle, hagain, _⟩
  · exact hsame.symm
  · cases hleave.symm.trans hagain

theorem Visits.cases_of_again {later : σ} (hagain : body state = .again next)
    (hvisits : Visits body state later) : later = state ∨ Visits body next later := by
  rcases Relation.ReflTransGen.cases_head hvisits with hsame | ⟨middle, hbody, hrest⟩
  · exact Or.inl hsame.symm
  · cases hagain.symm.trans hbody
    exact Or.inr hrest

/-! ## Two loops side by side -/

section Simulation

variable {σ' : Type u'} {ρ' : Type v'} {body' : σ' → Pass σ' ρ'} {state' : σ'}
  {related : σ → σ' → Prop} {agree : ρ → ρ' → Prop}

/-- The same decision about images of the states and results. -/
def mapPass (f : σ → σ') (g : ρ → ρ') : Pass σ ρ → Pass σ' ρ'
  | .again next => .again (f next)
  | .leave result => .leave (g result)

/-- A body that decides alike about images runs alike. -/
theorem run_map {f : σ → σ'} {g : ρ → ρ'}
    (hbody : ∀ state, body' (f state) = mapPass f g (body state)) (fuel : Nat) (state : σ) :
    run body' fuel (f state) = (run body fuel state).map g := by
  induction fuel generalizing state with
  | zero => rfl
  | succ fuel ih =>
      simp only [run, hbody]
      cases body state with
      | leave result => rfl
      | again next => exact ih next

/-- It visits the images of what the other visits. -/
theorem visits_map_iff {f : σ → σ'} {g : ρ → ρ'}
    (hbody : ∀ state, body' (f state) = mapPass f g (body state)) {next' : σ'} :
    Visits body' (f state) next' ↔ ∃ next, Visits body state next ∧ next' = f next := by
  constructor
  · intro hvisits
    induction hvisits with
    | refl => exact ⟨state, .refl, rfl⟩
    | tail _ hpass ih =>
        obtain ⟨middle, hvisits, rfl⟩ := ih
        rw [hbody] at hpass
        cases hdecision : body middle with
        | leave result => simp [hdecision, mapPass] at hpass
        | again next =>
            simp only [hdecision, mapPass, Pass.again.injEq] at hpass
            exact ⟨next, hvisits.tail hdecision, hpass.symm⟩
  · rintro ⟨next, hvisits, rfl⟩
    induction hvisits with
    | refl => exact .refl
    | tail _ hpass ih => exact ih.tail (by rw [hbody, hpass, mapPass])

/-- Two passes that decide alike: to go round again in related states, or to
leave with results that agree. -/
def Alike (related : σ → σ' → Prop) (agree : ρ → ρ' → Prop) : Pass σ ρ → Pass σ' ρ' → Prop
  | .again next, .again next' => related next next'
  | .leave result, .leave result' => agree result result'
  | _, _ => False

/-- The simulation rule: if related states decide alike, then what the one loop
yields the other does. -/
theorem Yields.simulate
    (hbody : ∀ state state', related state state' → Alike related agree (body state) (body' state'))
    (hstart : related state state') (hyields : Yields body state result) :
    ∃ result', Yields body' state' result' ∧ agree result result' := by
  obtain ⟨fuel, hrun⟩ := hyields
  induction fuel generalizing state state' with
  | zero => cases hrun
  | succ fuel ih =>
      have halike := hbody state state' hstart
      cases hpass : body state with
      | leave left =>
          rw [run_of_leave hpass, Option.some.injEq] at hrun
          rw [hpass] at halike
          cases hpass' : body' state' with
          | leave left' =>
              rw [hpass'] at halike
              exact ⟨left', .of_leave hpass', hrun ▸ halike⟩
          | again next' => rw [hpass'] at halike; exact halike.elim
      | again next =>
          rw [run_of_again hpass] at hrun
          rw [hpass] at halike
          cases hpass' : body' state' with
          | leave left' => rw [hpass'] at halike; exact halike.elim
          | again next' =>
              rw [hpass'] at halike
              obtain ⟨result', hresult, hagree⟩ := ih halike hrun
              exact ⟨result', hresult.of_again hpass', hagree⟩

/-- What the one loop visits the other does. -/
theorem Visits.simulate
    (hbody : ∀ state state', related state state' → Alike related agree (body state) (body' state'))
    (hstart : related state state') (hvisits : Visits body state next) :
    ∃ next', Visits body' state' next' ∧ related next next' := by
  induction hvisits with
  | refl => exact ⟨state', .refl, hstart⟩
  | tail _ hpass ih =>
      obtain ⟨middle', hvisits', hmiddle⟩ := ih
      have halike := hbody _ _ hmiddle
      rw [hpass] at halike
      cases hpass' : body' middle' with
      | leave left' => rw [hpass'] at halike; exact halike.elim
      | again next' =>
          rw [hpass'] at halike
          exact ⟨next', hvisits'.tail hpass', halike⟩

end Simulation

end Loop
