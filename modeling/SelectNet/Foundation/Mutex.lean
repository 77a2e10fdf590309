import SelectNet.Foundation.Loop
import SelectNet.Foundation.Machine

/-!
# Critical sections

Threads share a state behind a lock. A call takes the lock, changes the state in
small steps between which the others may look at it, and gives the lock back with
its answer. Every run is one of whole calls, in the order in which they took the
lock, and of the beginning of at most one more.
-/

universe u v w x

namespace Mutex

/-- A shared state, who is inside with which call and where, and the calls that
have returned, in this order. -/
structure State (σ : Type u) (point : Type v) (call : Type w) (answer : Type x) where
  shared : σ
  inside : Option (Nat × call × point)
  returned : List (Nat × call × answer)

/-- A thread takes the lock for a call, or the one inside takes a small step. -/
inductive Label (call : Type w) where
  | lock (thread : Nat) (call : call)
  | move (thread : Nat)

variable {σ : Type u} {point : Type v} {call : Type w} {answer : Type x}

section

variable (enter : call → point) (body : point × σ → Pass (point × σ) (Option (answer × σ)))

/-- A small step of the call inside, its last one if it returns. There is none where
the code has no meaning. -/
def move (thread : Nat) (s : State σ point call answer) : Option (State σ point call answer) :=
  match s.inside with
  | none => none
  | some (owner, call, at_) =>
      if owner = thread then
        match body (at_, s.shared) with
        | .again (next, shared) => some { s with shared, inside := some (thread, call, next) }
        | .leave none => none
        | .leave (some (answer, shared)) => some { s with
            shared
            inside := none
            returned := s.returned ++ [(thread, call, answer)] }
      else none

/-- Threads call in any order, each call if it is allowed in the state it finds. -/
def machine (initial : σ → Prop) (allowed : σ → call → Prop) :
    Machine (State σ point call answer) (Label call) where
  initial s := initial s.shared ∧ s.inside = none ∧ s.returned = []
  step s label next :=
    match label with
    | .lock thread call => s.inside = none ∧ allowed s.shared call ∧
        next = { s with inside := some (thread, call, enter call) }
    | .move thread => move body thread s = some next

/-- A whole call, with nobody else there. -/
def Whole (allowed : σ → call → Prop) (state : σ) (label : call × answer) (next : σ) : Prop :=
  allowed state label.1 ∧ Loop.Yields body (enter label.1, state) (some (label.2, next))

/-- The call inside, if there is one, has come to its point from this state. -/
def Begun (allowed : σ → call → Prop) (start : σ) (s : State σ point call answer) : Prop :=
  match s.inside with
  | none => s.shared = start
  | some (_, call, at_) => allowed start call ∧
      Loop.Visits body (enter call, start) (at_, s.shared)

end

variable {enter : call → point} {body : point × σ → Pass (point × σ) (Option (answer × σ))}
  {initial : σ → Prop} {allowed : σ → call → Prop} {s next : State σ point call answer}

/-- The ways in which the call inside takes a small step. -/
theorem move_cases {thread : Nat} (hmove : move body thread s = some next) :
    ∃ call at_, s.inside = some (thread, call, at_) ∧
      ((∃ at' shared, body (at_, s.shared) = .again (at', shared) ∧
        next = { s with shared, inside := some (thread, call, at') }) ∨
      ∃ answer shared, body (at_, s.shared) = .leave (some (answer, shared)) ∧
        next = ⟨shared, none, s.returned ++ [(thread, call, answer)]⟩) := by
  unfold move at hmove
  split at hmove
  next => cases hmove
  next owner call at_ hinside =>
    split at hmove
    next howner =>
      subst howner
      refine ⟨call, at_, hinside, ?_⟩
      split at hmove
      next at' shared hbody =>
        cases hmove
        exact Or.inl ⟨at', shared, hbody, rfl⟩
      next => cases hmove
      next answer shared hbody =>
        cases hmove
        exact Or.inr ⟨answer, shared, hbody, rfl⟩
    next => cases hmove

/-- Every run is one of whole calls in the order of the lock, with the beginning of
the call that is inside. -/
theorem exists_runs_of_reachable (hreach : (machine enter body initial allowed).Reachable s) :
    ∃ start last, initial start ∧
      Machine.Runs (Whole enter body allowed) start (s.returned.map Prod.snd) last ∧
      Begun enter body allowed last s := by
  induction hreach with
  | @start s hinitial =>
      obtain ⟨hstart, hinside, hreturned⟩ := hinitial
      refine ⟨s.shared, s.shared, hstart, ?_, ?_⟩
      · rw [hreturned]
        exact .start
      · rw [Begun, hinside]
  | @next s next label _ hstep ih =>
      obtain ⟨start, last, hstart, hruns, hbegun⟩ := ih
      cases label with
      | lock thread call =>
          obtain ⟨hinside, hallowed, rfl⟩ := hstep
          simp only [Begun, hinside] at hbegun
          exact ⟨start, last, hstart, hruns, hbegun ▸ hallowed, hbegun ▸ .refl⟩
      | move thread =>
          obtain ⟨call, at_, hinside, hmoved⟩ := move_cases hstep
          simp only [Begun, hinside] at hbegun
          obtain ⟨hallowed, hvisits⟩ := hbegun
          rcases hmoved with ⟨at', shared, hbody, rfl⟩ | ⟨answer, shared, hbody, rfl⟩
          · exact ⟨start, last, hstart, hruns, hallowed, hvisits.tail hbody⟩
          · refine ⟨start, shared, hstart, ?_, rfl⟩
            rw [List.map_append]
            exact hruns.next ⟨hallowed, hvisits.yields (.of_leave hbody)⟩

/-- A call that always returns is never stuck inside. -/
theorem move_of_ends {call : call} {at_ : point} {thread : Nat} {start : σ} {result : answer × σ}
    (hinside : s.inside = some (thread, call, at_))
    (hvisits : Loop.Visits body (enter call, start) (at_, s.shared))
    (hwhole : Loop.Yields body (enter call, start) (some result)) :
    ∃ next, move body thread s = some next := by
  cases hbody : body (at_, s.shared) with
  | again next =>
      exact ⟨{ s with shared := next.2, inside := some (thread, call, next.1) },
        by simp only [move, hinside, if_true, hbody]⟩
  | leave outcome =>
      have hsame := (hvisits.yields (.of_leave hbody)).unique hwhole
      subst hsame
      exact ⟨⟨result.2, none, s.returned ++ [(thread, call, result.1)]⟩,
        by simp only [move, hinside, if_true, hbody]⟩

/-- The first call to return is the one inside. -/
theorem returned_of_runs {call : call} {at_ : point} {thread : Nat} {later : State σ point _ answer}
    {labels : List (Label _)} (hinside : s.inside = some (thread, call, at_))
    (hruns : Machine.Runs (machine enter body initial allowed).step s labels later) :
    (∃ at', later.returned = s.returned ∧ later.inside = some (thread, call, at')) ∨
      ∃ answer rest, later.returned = s.returned ++ (thread, call, answer) :: rest := by
  induction hruns with
  | start => exact Or.inl ⟨at_, rfl, hinside⟩
  | @next _ middle next label _ hstep ih =>
      cases label with
      | lock other call' =>
          obtain ⟨hnobody, _, rfl⟩ := hstep
          rcases ih with ⟨at', _, hstill⟩ | hfirst
          · cases hnobody.symm.trans hstill
          · exact Or.inr hfirst
      | move other =>
          obtain ⟨call', at', hsome, hmoved⟩ := move_cases hstep
          rcases ih with ⟨at'', hsame, hstill⟩ | ⟨answer, rest, hfirst⟩
          · cases hsome.symm.trans hstill
            rcases hmoved with ⟨next', shared, _, rfl⟩ | ⟨answer, shared, _, rfl⟩
            · exact Or.inl ⟨next', hsame, rfl⟩
            · exact Or.inr ⟨answer, [], by rw [hsame]⟩
          · rcases hmoved with ⟨_, _, _, rfl⟩ | ⟨answer', shared, _, rfl⟩
            · exact Or.inr ⟨answer, rest, hfirst⟩
            · refine Or.inr ⟨answer, rest ++ [(other, call', answer')], ?_⟩
              rw [hfirst, List.append_assoc, List.cons_append]

/-- A whole call can be made in small steps by any thread that finds nobody inside. -/
theorem exists_runs_of_whole {call : call} {answer : answer} {shared : σ} (thread : Nat)
    (hinside : s.inside = none) (hwhole : Whole enter body allowed s.shared (call, answer) shared) :
    ∃ labels, Machine.Runs (machine enter body initial allowed).step s labels
      ⟨shared, none, s.returned ++ [(thread, call, answer)]⟩ := by
  obtain ⟨hallowed, hyields⟩ := hwhole
  obtain ⟨⟨last, before⟩, hvisits, hleave⟩ := hyields.visits
  have hlock : Machine.Runs (machine enter body initial allowed).step s [.lock thread call]
      { s with inside := some (thread, call, enter call) } := .single ⟨hinside, hallowed, rfl⟩
  have hinto : ∀ state : point × σ, Loop.Visits body (enter call, s.shared) state →
      ∃ labels, Machine.Runs (machine enter body initial allowed).step s labels
        { s with shared := state.2, inside := some (thread, call, state.1) } := by
    intro state hstate
    induction hstate with
    | refl => exact ⟨_, hlock⟩
    | tail _ hbody ih =>
        obtain ⟨labels, hruns⟩ := ih
        refine ⟨labels ++ [.move thread], hruns.next ?_⟩
        change move body thread _ = _
        simp only [move, if_true, hbody]
  obtain ⟨labels, hruns⟩ := hinto _ hvisits
  refine ⟨labels ++ [.move thread], hruns.next ?_⟩
  change move body thread _ = _
  simp only [move, if_true, hleave]

end Mutex
