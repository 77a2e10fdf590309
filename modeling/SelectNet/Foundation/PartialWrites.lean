import Mathlib.Data.List.Basic
import Mathlib.Logic.Nontrivial.Defs

/-!
# Partial writes to a stream

Each write offers a payload, of which the stream accepts the first so many cells,
maybe none. A write of which it accepts none was refused outright and leaves
nothing due. The stream is whole while what it has accepted is a prefix of the
payloads due; behind a write that breaks off in the middle it stays so only if
what comes is what was missing.
-/

universe u

/-- A payload and how much of it was accepted. -/
structure PartialWrite (α : Type u) where
  payload : List α
  accepted : Nat
  le : accepted ≤ payload.length

namespace PartialWrite

variable {α : Type u} {write later : PartialWrite α} {writes front rest : List (PartialWrite α)}

def sent (write : PartialWrite α) : List α := write.payload.take write.accepted

def unsent (write : PartialWrite α) : List α := write.payload.drop write.accepted

def due (write : PartialWrite α) : List α := if write.accepted = 0 then [] else write.payload

/-- Some of the payload was accepted, and not all. -/
def BreaksOff (write : PartialWrite α) : Prop :=
  0 < write.accepted ∧ write.accepted < write.payload.length

/-- What the stream has accepted. -/
def sentAll (writes : List (PartialWrite α)) : List α := writes.flatMap sent

def dueAll (writes : List (PartialWrite α)) : List α := writes.flatMap due

@[simp] theorem sentAll_nil : sentAll ([] : List (PartialWrite α)) = [] := rfl

@[simp] theorem dueAll_nil : dueAll ([] : List (PartialWrite α)) = [] := rfl

@[simp] theorem sentAll_cons : sentAll (write :: rest) = write.sent ++ sentAll rest :=
  List.flatMap_cons

@[simp] theorem dueAll_cons : dueAll (write :: rest) = write.due ++ dueAll rest :=
  List.flatMap_cons

@[simp] theorem sentAll_append : sentAll (front ++ rest) = sentAll front ++ sentAll rest :=
  List.flatMap_append

@[simp] theorem dueAll_append : dueAll (front ++ rest) = dueAll front ++ dueAll rest :=
  List.flatMap_append

theorem sent_of_accepted_zero (hnone : write.accepted = 0) : write.sent = [] := by
  rw [sent, hnone, List.take_zero]

theorem due_of_accepted_pos (hsome : 0 < write.accepted) : write.due = write.payload :=
  if_neg (Nat.ne_of_gt hsome)

theorem sent_append_unsent (write : PartialWrite α) : write.sent ++ write.unsent = write.payload :=
  List.take_append_drop _ _

theorem due_of_breaksOff (hbreaks : write.BreaksOff) :
    write.due = write.sent ++ write.unsent := by
  rw [due_of_accepted_pos hbreaks.1, sent_append_unsent]

/-- A write that does not break off sends just what is due. -/
theorem due_of_not_breaksOff (hwhole : ¬ write.BreaksOff) : write.due = write.sent := by
  by_cases hnone : write.accepted = 0
  · rw [due, if_pos hnone, sent_of_accepted_zero hnone]
  · have hsome : 0 < write.accepted := Nat.pos_of_ne_zero hnone
    have hall : write.accepted = write.payload.length :=
      Nat.le_antisymm write.le (Nat.le_of_not_lt fun hlt => hwhole ⟨hsome, hlt⟩)
    rw [due_of_accepted_pos hsome, sent, hall, List.take_length]

theorem sent_prefix_due (write : PartialWrite α) : write.sent <+: write.due := by
  by_cases hbreaks : write.BreaksOff
  · rw [due_of_breaksOff hbreaks]
    exact List.prefix_append _ _
  · have hsame := due_of_not_breaksOff hbreaks
    exact ⟨[], by rw [List.append_nil, hsame]⟩

theorem length_sentAll_le (writes : List (PartialWrite α)) :
    (sentAll writes).length ≤ (dueAll writes).length := by
  induction writes with
  | nil => exact Nat.le_refl _
  | cons write rest ih =>
      have hfirst := write.sent_prefix_due.length_le
      simp only [sentAll_cons, dueAll_cons, List.length_append]
      omega

/-! ## When the stream is whole -/

/-- Behind the first write that breaks off, what is sent is what was still due. -/
def Continues : List (PartialWrite α) → Prop
  | [] => True
  | write :: rest =>
      (write.BreaksOff → sentAll rest <+: write.unsent ++ dueAll rest) ∧
      (¬ write.BreaksOff → Continues rest)

theorem sentAll_prefix_iff : sentAll writes <+: dueAll writes ↔ Continues writes := by
  induction writes with
  | nil => exact ⟨fun _ => trivial, fun _ => List.nil_prefix⟩
  | cons write rest ih =>
      rw [sentAll_cons, dueAll_cons, Continues]
      by_cases hbreaks : write.BreaksOff
      · rw [due_of_breaksOff hbreaks, List.append_assoc, List.prefix_append_right_inj]
        simp [hbreaks]
      · rw [due_of_not_breaksOff hbreaks, List.prefix_append_right_inj, ih]
        simp [hbreaks]

/-- A stream that is whole in the end has been whole all the time. -/
theorem sentAll_prefix_of_append (hwhole : sentAll (front ++ rest) <+: dueAll (front ++ rest)) :
    sentAll front <+: dueAll front := by
  rw [sentAll_append, dueAll_append] at hwhole
  exact List.prefix_of_prefix_length_le ((List.prefix_append _ _).trans hwhole)
    (List.prefix_append _ _) (length_sentAll_le front)

/-- Nothing is accepted behind a write that breaks off. -/
def Stops (writes : List (PartialWrite α)) : Prop :=
  writes.Pairwise fun write later => write.BreaksOff → later.accepted = 0

theorem sentAll_of_accepted_zero (hnone : ∀ write ∈ writes, write.accepted = 0) :
    sentAll writes = [] := by
  apply List.flatMap_eq_nil_iff.mpr
  intro write hwrite
  exact sent_of_accepted_zero (hnone write hwrite)

theorem Stops.continues (hstops : Stops writes) : Continues writes := by
  induction writes with
  | nil => trivial
  | cons write rest ih =>
      obtain ⟨hbehind, hrest⟩ := List.pairwise_cons.mp hstops
      refine ⟨?_, fun _ => ih hrest⟩
      intro hbreaks
      have hnone : sentAll rest = [] := by
        apply sentAll_of_accepted_zero
        intro later hlater
        exact hbehind later hlater hbreaks
      rw [hnone]
      exact List.nil_prefix

/-! ## Other payloads -/

/-- The same write of another payload of the same length. -/
def refill (write : PartialWrite α) (cell : α) : PartialWrite α where
  payload := List.replicate write.payload.length cell
  accepted := write.accepted
  le := by
    rw [List.length_replicate]
    exact write.le

/-- What the payloads' cells have no part in. -/
def shape (write : PartialWrite α) : Nat × Nat := (write.payload.length, write.accepted)

theorem shape_refill (write : PartialWrite α) (cell : α) :
    (write.refill cell).shape = write.shape :=
  Prod.ext List.length_replicate rfl

theorem sent_refill (write : PartialWrite α) (cell : α) :
    (write.refill cell).sent = List.replicate write.accepted cell := by
  rw [sent, refill, List.take_replicate, Nat.min_eq_left write.le]

theorem unsent_refill (write : PartialWrite α) (cell : α) :
    (write.refill cell).unsent =
      List.replicate (write.payload.length - write.accepted) cell := by
  rw [unsent, refill, List.drop_replicate]

/-- Where a write sends something, the refilled writes send this cell first. -/
theorem sentAll_refill {cell : α} (hsome : ∃ write ∈ writes, write.accepted ≠ 0) :
    ∃ more, sentAll (writes.map fun write => write.refill cell) = cell :: more := by
  induction writes with
  | nil =>
      obtain ⟨write, hwrite, _⟩ := hsome
      cases hwrite
  | cons write rest ih =>
      rw [List.map_cons, sentAll_cons, sent_refill]
      cases haccepted : write.accepted with
      | zero =>
          obtain ⟨other, hother, hother'⟩ := hsome
          cases hother with
          | head => exact absurd haccepted hother'
          | tail _ hrest => exact ih ⟨other, hrest, hother'⟩
      | succ count => exact ⟨_, rfl⟩

theorem stops_of_accepted_zero (hnone : ∀ write ∈ writes, write.accepted = 0) : Stops writes := by
  refine List.Pairwise.imp_of_mem (R := fun _ _ => True) ?_
    (List.pairwise_of_forall fun _ _ => trivial)
  intro write later _ hlater _ _
  exact hnone later hlater

/-- A stream that is whole whatever the payloads hold is one that stops. -/
theorem stops_of_forall_continues [Nontrivial α]
    (hall : ∀ others : List (PartialWrite α),
      others.map shape = writes.map shape → Continues others) : Stops writes := by
  obtain ⟨first, second, hne⟩ := exists_pair_ne α
  induction writes with
  | nil => exact List.Pairwise.nil
  | cons write rest ih =>
      by_cases hbreaks : write.BreaksOff
      · -- what is missing is one cell over and over, what comes would be another
        have hnone : ∀ later ∈ rest, later.accepted = 0 := by
          by_contra hsome
          have hsends : ∃ later ∈ rest, later.accepted ≠ 0 := by simpa using hsome
          obtain ⟨more, hsent⟩ : ∃ more,
              sentAll (rest.map fun later => later.refill second) = second :: more :=
            sentAll_refill hsends
          have hprefix := (hall (write.refill first :: rest.map fun later => later.refill second)
            (by simp [shape_refill, Function.comp_def])).1
            (by simpa [BreaksOff, refill] using hbreaks)
          obtain ⟨count, hcount⟩ := Nat.exists_eq_add_of_lt hbreaks.2
          have hmissing : write.payload.length - write.accepted = count + 1 := by omega
          rw [hsent, unsent_refill, hmissing, List.replicate_succ, List.cons_append,
            List.cons_prefix_cons] at hprefix
          exact hne hprefix.1.symm
        exact List.pairwise_cons.mpr
          ⟨fun later hlater _ => hnone later hlater, stops_of_accepted_zero hnone⟩
      · refine List.pairwise_cons.mpr ⟨fun _ _ hthis => absurd hthis hbreaks, ih ?_⟩
        intro others hshape
        exact (hall (write :: others) (by simp [hshape])).2 hbreaks

end PartialWrite
