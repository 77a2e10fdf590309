import Mathlib.Data.List.Basic
import Mathlib.Data.List.Nodup

/-!
# Lifetimes

Identifiers are acquired and released, and a released identifier may be acquired
again. A record of these events says what is live: acquired and not released
since. `ReleasedOnce` says that each release ends a lifetime, so that none is
ended twice.
-/

universe u v

namespace Lifetimes

variable {κ : Type u} {α : Type v}

inductive Event (κ : Type u) (α : Type v) where
  | acquired (kind : κ) (id : α)
  | released (id : α)

variable [DecidableEq α]

/-- What is live after an event. -/
def after (held : List (κ × α)) : Event κ α → List (κ × α)
  | .acquired kind id => held ++ [(kind, id)]
  | .released id => held.filter fun owner => owner.2 ≠ id

/-- What is live after the events, with the kind it was acquired as. -/
def live (events : List (Event κ α)) : List (κ × α) :=
  events.foldl after []

/-- The identifiers that are live. -/
def ids (events : List (Event κ α)) : List α :=
  (live events).map Prod.snd

/-- Whatever is released is live until then. -/
def ReleasedOnce (events : List (Event κ α)) : Prop :=
  ∀ before id rest, events = before ++ .released id :: rest → id ∈ ids before

/-- No identifier is acquired while it is live. -/
def Distinct (events : List (Event κ α)) : Prop :=
  (ids events).Nodup

variable {events : List (Event κ α)} {kind other : κ} {id new : α} {given : List α}

theorem live_concat (events : List (Event κ α)) (event : Event κ α) :
    live (events ++ [event]) = after (live events) event := by
  rw [live, List.foldl_append]
  rfl

theorem mem_ids : id ∈ ids events ↔ ∃ kind, (kind, id) ∈ live events := by
  simp [ids]

theorem mem_ids_of_live (hlive : (kind, id) ∈ live events) : id ∈ ids events :=
  mem_ids.mpr ⟨kind, hlive⟩

/-- While identifiers are distinct, one that is live has one kind. -/
theorem Distinct.kind_unique (hdistinct : Distinct events) (hlive : (kind, id) ∈ live events)
    (hother : (other, id) ∈ live events) : kind = other :=
  congrArg Prod.fst (List.inj_on_of_nodup_map hdistinct hlive hother rfl)

/-! ## Acquiring -/

theorem mem_live_acquired :
    (other, id) ∈ live (events ++ [.acquired kind new]) ↔
      (other, id) ∈ live events ∨ (other = kind ∧ id = new) := by
  rw [live_concat, after, List.mem_append, List.mem_singleton, Prod.mk.injEq]

theorem ids_acquired : ids (events ++ [.acquired kind new]) = ids events ++ [new] := by
  rw [ids, live_concat, after, List.map_append]
  rfl

theorem Distinct.acquired (hdistinct : Distinct events) (hnew : new ∉ ids events) :
    Distinct (events ++ [.acquired kind new]) := by
  rw [Distinct, ids_acquired, List.nodup_append]
  refine ⟨hdistinct, List.nodup_singleton new, ?_⟩
  intro id hid last hlast hsame
  rw [List.mem_singleton.mp hlast] at hsame
  exact hnew (hsame ▸ hid)

/-! ## Releasing -/

theorem mem_live_released :
    (other, id) ∈ live (events ++ given.map .released) ↔
      (other, id) ∈ live events ∧ id ∉ given := by
  induction given generalizing events with
  | nil => simp
  | cons first given ih =>
      rw [List.map_cons, List.append_cons, ih, live_concat, after, List.mem_filter,
        List.mem_cons, not_or, and_assoc]
      simp

theorem mem_ids_released :
    id ∈ ids (events ++ given.map .released) ↔ id ∈ ids events ∧ id ∉ given := by
  simp only [mem_ids, mem_live_released, exists_and_right]

theorem Distinct.released (hdistinct : Distinct events) (given : List α) :
    Distinct (events ++ given.map .released) := by
  induction given generalizing events with
  | nil => simpa using hdistinct
  | cons first given ih =>
      rw [List.map_cons, List.append_cons]
      apply ih
      rw [Distinct, ids, live_concat, after]
      exact hdistinct.sublist (List.filter_sublist.map Prod.snd)

/-! ## Ending each lifetime once -/

theorem ReleasedOnce.nil : ReleasedOnce ([] : List (Event κ α)) := by
  intro before id rest hevents
  exact absurd hevents.symm (List.append_ne_nil_of_right_ne_nil before (List.cons_ne_nil _ rest))

theorem releasedOnce_concat {event : Event κ α} :
    ReleasedOnce (events ++ [event]) ↔
      ReleasedOnce events ∧ ∀ id, event = .released id → id ∈ ids events := by
  constructor
  · intro honce
    refine ⟨?_, fun id hevent => honce events id [] (by rw [hevent])⟩
    rintro before id rest rfl
    exact honce before id (rest ++ [event]) (by simp)
  · rintro ⟨honce, hlast⟩ before id rest hevents
    rcases List.eq_nil_or_concat rest with rfl | ⟨inner, last, rfl⟩
    · obtain ⟨rfl, hevent⟩ := List.append_inj' hevents rfl
      exact hlast id (List.singleton_inj.mp hevent)
    · have hinner : before ++ .released id :: inner.concat last =
          (before ++ .released id :: inner) ++ [last] := by simp
      rw [hinner] at hevents
      exact honce before id inner (List.append_inj' hevents rfl).1

theorem releasedOnce_acquired :
    ReleasedOnce (events ++ [.acquired kind id]) ↔ ReleasedOnce events := by
  rw [releasedOnce_concat]
  exact and_iff_left fun _ hevent => nomatch hevent

/-- Identifiers are released once if they differ and are live. -/
theorem releasedOnce_released :
    ReleasedOnce (events ++ given.map .released) ↔
      ReleasedOnce events ∧ given.Nodup ∧ ∀ id ∈ given, id ∈ ids events := by
  induction given generalizing events with
  | nil => simp
  | cons first given ih =>
      have hfirst : ∀ id, id ∈ ids (events ++ [.released first]) ↔
          id ∈ ids events ∧ id ≠ first := by
        intro id
        have hone : id ∈ ids (events ++ [first].map .released) ↔ id ∈ ids events ∧ id ∉ [first] :=
          mem_ids_released
        rwa [List.mem_singleton] at hone
      rw [List.map_cons, List.append_cons, ih, releasedOnce_concat, List.nodup_cons]
      simp only [hfirst, List.forall_mem_cons]
      constructor
      · rintro ⟨⟨honce, hlive⟩, hnodup, hall⟩
        exact ⟨honce, ⟨fun hmem => (hall first hmem).2 rfl, hnodup⟩, hlive first rfl,
          fun id hid => (hall id hid).1⟩
      · rintro ⟨honce, ⟨hnot, hnodup⟩, hlive, hall⟩
        refine ⟨⟨honce, ?_⟩, hnodup, fun id hid => ⟨hall id hid, ?_⟩⟩
        · rintro _ ⟨⟩
          exact hlive
        · rintro rfl
          exact hnot hid

end Lifetimes
