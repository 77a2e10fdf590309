import Mathlib.Data.List.Infix

/-!
# Splitting at a mark

The leftmost split of a list at a mark: every field ends where the mark next
occurs, and the search goes on behind that occurrence. The fields contain no
mark, and the list is their concatenation with a mark between any two.
-/

universe u

namespace Splitting

section Tokens

variable {α : Type u} {mark cells : List α}

/-- The fields that are not empty. -/
def nonempty (fields : List (List α)) : List (List α) :=
  fields.filter fun field => !field.isEmpty

@[simp] theorem nonempty_nil : nonempty ([] : List (List α)) = [] := rfl

@[simp] theorem nonempty_cons_nil (fields : List (List α)) :
    nonempty ([] :: fields) = nonempty fields := rfl

theorem nonempty_cons {field : List α} (hfield : field ≠ []) (fields : List (List α)) :
    nonempty (field :: fields) = field :: nonempty fields := by
  cases field with
  | nil => exact absurd rfl hfield
  | cons cell cells => rfl

theorem nonempty_cons_append (field : List α) (rest : List (List α)) :
    nonempty (field :: rest) = nonempty [field] ++ nonempty rest :=
  List.filter_append [field] rest

theorem mem_nonempty {fields : List (List α)} {field : List α} :
    field ∈ nonempty fields ↔ field ∈ fields ∧ field ≠ [] := by
  simp [nonempty]

theorem nonempty_eq_nil_iff {fields : List (List α)} :
    nonempty fields = [] ↔ ∀ field ∈ fields, field = [] := by
  simp [nonempty]

/-- So many marks in a row. -/
def marks (mark : List α) : Nat → List α
  | 0 => []
  | count + 1 => mark ++ marks mark count

/-- Tokens with at least one mark between any two, and any number behind the last. -/
inductive Woven (mark : List α) : List (List α) → List α → Prop where
  | last (token : List α) (after : Nat) : Woven mark [token] (token ++ marks mark after)
  | next {tokens : List (List α)} {cells : List α} (token : List α) (gap : Nat) (hgap : 1 ≤ gap)
      (hrest : Woven mark tokens cells) :
      Woven mark (token :: tokens) (token ++ marks mark gap ++ cells)

/-- The list is made of the tokens, with any number of marks in front. -/
def Joins (mark : List α) (tokens : List (List α)) (cells : List α) : Prop :=
  ∃ before rest, cells = marks mark before ++ rest ∧
    (tokens = [] ∧ rest = [] ∨ Woven mark tokens rest)

/-- A field in front, with the mark that ends it. -/
theorem Joins.cons {tokens : List (List α)} (hjoins : Joins mark tokens cells)
    (field : List α) : Joins mark (field :: tokens) (field ++ mark ++ cells) := by
  obtain ⟨before, rest, rfl, hcases⟩ := hjoins
  have hmarks : field ++ mark ++ (marks mark before ++ rest) =
      field ++ marks mark (before + 1) ++ rest := by
    simp only [marks, List.append_assoc]
  rw [hmarks]
  rcases hcases with ⟨rfl, rfl⟩ | hwoven
  · refine ⟨0, field ++ marks mark (before + 1), ?_, Or.inr (.last field (before + 1))⟩
    rw [List.append_nil]
    rfl
  · exact ⟨0, _, rfl, Or.inr (.next field (before + 1) (Nat.le_add_left 1 before) hwoven)⟩

theorem Joins.skip {tokens : List (List α)} (hjoins : Joins mark tokens cells) :
    Joins mark tokens (mark ++ cells) := by
  obtain ⟨before, rest, rfl, hcases⟩ := hjoins
  exact ⟨before + 1, rest, by simp only [marks, List.append_assoc], hcases⟩

/-- The length of fields with a mark of a given length between any two. -/
def extent (skip : Nat) : List (List α) → Nat
  | [] => 0
  | [field] => field.length
  | field :: rest => field.length + skip + extent skip rest

/-- Fields with the positions they start at. -/
def placed (skip : Nat) : Nat → List (List α) → List (Nat × List α)
  | _, [] => []
  | pos, field :: rest => (pos, field) :: placed skip (pos + field.length + skip) rest

theorem extent_cons (skip : Nat) (field : List α) {rest : List (List α)} (hrest : rest ≠ []) :
    extent skip (field :: rest) = field.length + skip + extent skip rest := by
  cases rest with
  | nil => exact absurd rfl hrest
  | cons next rest => rfl

theorem placed_ne_nil {skip pos : Nat} {fields : List (List α)} (hfields : fields ≠ []) :
    placed skip pos fields ≠ [] := by
  cases fields with
  | nil => exact absurd rfl hfields
  | cons field rest => exact List.cons_ne_nil _ _

/-- Every field starts at or behind the position where the first one does. -/
theorem le_of_mem_placed {skip pos : Nat} {fields : List (List α)} {entry : Nat × List α}
    (hentry : entry ∈ placed skip pos fields) : pos ≤ entry.1 ∧ entry.2 ∈ fields := by
  induction fields generalizing pos with
  | nil => cases hentry
  | cons field rest ih =>
      rcases List.mem_cons.mp hentry with rfl | hrest
      · exact ⟨Nat.le_refl _, List.mem_cons_self⟩
      · obtain ⟨hle, hmem⟩ := ih hrest
        exact ⟨by omega, List.mem_cons_of_mem field hmem⟩

theorem exists_mem_placed {skip pos : Nat} {fields : List (List α)} {field : List α}
    (hfield : field ∈ fields) : ∃ start, (start, field) ∈ placed skip pos fields := by
  induction fields generalizing pos with
  | nil => cases hfield
  | cons other rest ih =>
      rcases List.mem_cons.mp hfield with rfl | hrest
      · exact ⟨pos, List.mem_cons_self⟩
      · obtain ⟨start, hmem⟩ := ih hrest
        exact ⟨start, List.mem_cons_of_mem _ hmem⟩

end Tokens

variable {α : Type u} [DecidableEq α]

/-! ## The first occurrence -/

/-- Where a mark first occurs. -/
def first (mark : List α) : List α → Option Nat
  | [] => if mark = [] then some 0 else none
  | cell :: cells => if mark <+: cell :: cells then some 0 else (first mark cells).map (· + 1)

variable {mark cells : List α} {n : Nat}

theorem prefix_of_first (hfirst : first mark cells = some n) : mark <+: cells.drop n := by
  induction cells generalizing n with
  | nil =>
      obtain ⟨rfl, hzero⟩ := Option.ite_none_right_eq_some.mp hfirst
      exact List.nil_prefix
  | cons cell cells ih =>
      rw [first] at hfirst
      split at hfirst
      next hhere =>
        cases hfirst
        exact hhere
      next =>
        obtain ⟨m, hrest, rfl⟩ := Option.map_eq_some_iff.mp hfirst
        exact ih hrest

theorem first_le_length (hfirst : first mark cells = some n) : n ≤ cells.length := by
  induction cells generalizing n with
  | nil =>
      obtain ⟨_, hzero⟩ := Option.ite_none_right_eq_some.mp hfirst
      cases hzero
      exact Nat.le_refl 0
  | cons cell cells ih =>
      rw [first] at hfirst
      split at hfirst
      next =>
        cases hfirst
        exact Nat.zero_le _
      next =>
        obtain ⟨m, hrest, rfl⟩ := Option.map_eq_some_iff.mp hfirst
        exact Nat.succ_le_succ (ih hrest)

/-- There is no occurrence before the first one. -/
theorem not_prefix_of_lt_first (hfirst : first mark cells = some n) {m : Nat} (hlt : m < n) :
    ¬ mark <+: cells.drop m := by
  induction cells generalizing n m with
  | nil =>
      obtain ⟨_, hzero⟩ := Option.ite_none_right_eq_some.mp hfirst
      cases hzero
      exact absurd hlt (Nat.not_lt_zero m)
  | cons cell cells ih =>
      rw [first] at hfirst
      split at hfirst
      next =>
        cases hfirst
        exact absurd hlt (Nat.not_lt_zero m)
      next hnot =>
        obtain ⟨n', hrest, rfl⟩ := Option.map_eq_some_iff.mp hfirst
        cases m with
        | zero => exact hnot
        | succ m => exact ih hrest (Nat.lt_of_succ_lt_succ hlt)

theorem first_eq_none_iff : first mark cells = none ↔ ¬ mark <:+: cells := by
  induction cells with
  | nil => simp [first]
  | cons cell cells ih =>
      rw [first, List.infix_cons_iff]
      split
      next hhere => simp [hhere]
      next hnot => simp [hnot, ih]

/-- A list around the first occurrence. -/
theorem eq_append_of_first (hfirst : first mark cells = some n) :
    cells = cells.take n ++ mark ++ cells.drop (n + mark.length) := by
  obtain ⟨rest, hrest⟩ := prefix_of_first hfirst
  have hdrop : cells.drop (n + mark.length) = rest := by
    rw [← List.drop_drop, ← hrest, List.drop_left]
  rw [hdrop, List.append_assoc, hrest, List.take_append_drop]

theorem length_of_first (hfirst : first mark cells = some n) :
    n + mark.length ≤ cells.length := by
  have hlen := congrArg List.length (eq_append_of_first hfirst)
  have hle := first_le_length hfirst
  simp only [List.length_append, List.length_take, List.length_drop] at hlen
  omega

/-- From further on, but not beyond it, the first occurrence is the same. -/
theorem first_drop (hfirst : first mark cells = some n) {m : Nat} (hle : m ≤ n) :
    first mark (cells.drop m) = some (n - m) := by
  induction m generalizing cells n with
  | zero => exact hfirst
  | succ m ih =>
      cases cells with
      | nil =>
          obtain ⟨_, hzero⟩ := Option.ite_none_right_eq_some.mp hfirst
          cases hzero
          exact absurd hle (Nat.not_succ_le_zero m)
      | cons cell cells =>
          rw [first] at hfirst
          split at hfirst
          next =>
            cases hfirst
            exact absurd hle (Nat.not_succ_le_zero m)
          next =>
            obtain ⟨n', hrest, rfl⟩ := Option.map_eq_some_iff.mp hfirst
            rw [List.drop_succ_cons, ih hrest (Nat.le_of_succ_le_succ hle), Nat.succ_sub_succ]

/-- What is in front of the first occurrence contains none. -/
theorem not_infix_take_of_first (hmark : mark ≠ []) (hfirst : first mark cells = some n) :
    ¬ mark <:+: cells.take n := by
  rintro ⟨front, back, htake⟩
  have hlen := congrArg List.length htake
  have hpos := List.length_pos_iff.mpr hmark
  simp only [List.length_append, List.length_take] at hlen
  apply not_prefix_of_lt_first hfirst (m := front.length) (by omega)
  have hcells : front ++ (mark ++ (back ++ cells.drop n)) = cells := by
    rw [← List.append_assoc, ← List.append_assoc, htake, List.take_append_drop]
  rw [← hcells, List.drop_left]
  exact List.prefix_append _ _

/-! ## The fields -/

/-- The fields of the leftmost split. An empty mark does not split. -/
def fields (mark cells : List α) : List (List α) :=
  match _hfirst : first mark cells with
  | none => [cells]
  | some n =>
      if _hmark : mark = [] then [cells]
      else cells.take n :: fields mark (cells.drop (n + mark.length))
termination_by cells.length
decreasing_by
  have hlen := length_of_first _hfirst
  have hpos := List.length_pos_iff.mpr _hmark
  rw [List.length_drop]
  omega

theorem fields_of_none (hfirst : first mark cells = none) : fields mark cells = [cells] := by
  rw [fields]
  split
  next => rfl
  next hsome => cases hfirst.symm.trans hsome

theorem fields_of_some (hmark : mark ≠ []) (hfirst : first mark cells = some n) :
    fields mark cells = cells.take n :: fields mark (cells.drop (n + mark.length)) := by
  rw [fields]
  split
  next hnone => cases hnone.symm.trans hfirst
  next m hsome =>
    cases hsome.symm.trans hfirst
    rw [dif_neg hmark]

/-- The induction rule of the split: over the rest behind the first mark. -/
theorem fields_induction (holds : List α → List (List α) → Prop) (hmark : mark ≠ [])
    (hlast : ∀ cells, first mark cells = none → holds cells [cells])
    (hfield : ∀ cells n, first mark cells = some n →
      holds (cells.drop (n + mark.length)) (fields mark (cells.drop (n + mark.length))) →
      holds cells (cells.take n :: fields mark (cells.drop (n + mark.length))))
    (cells : List α) : holds cells (fields mark cells) := by
  induction hlen : cells.length using Nat.strong_induction_on generalizing cells with
  | h length ih =>
      cases hfirst : first mark cells with
      | none =>
          rw [fields_of_none hfirst]
          exact hlast cells hfirst
      | some n =>
          have hle := length_of_first hfirst
          have hpos := List.length_pos_iff.mpr hmark
          rw [fields_of_some hmark hfirst]
          refine hfield cells n hfirst (ih _ ?_ _ rfl)
          rw [List.length_drop]
          omega

theorem fields_ne_nil (hmark : mark ≠ []) (cells : List α) : fields mark cells ≠ [] := by
  cases hfirst : first mark cells with
  | none =>
      rw [fields_of_none hfirst]
      exact List.cons_ne_nil _ _
  | some n =>
      rw [fields_of_some hmark hfirst]
      exact List.cons_ne_nil _ _

/-- No field contains a mark. -/
theorem not_infix_of_mem_fields (hmark : mark ≠ []) (cells : List α) :
    ∀ field ∈ fields mark cells, ¬ mark <:+: field := by
  apply fields_induction (fun _ fs => ∀ field ∈ fs, ¬ mark <:+: field) hmark
  · intro cells hfirst
    simpa using first_eq_none_iff.mp hfirst
  · intro cells n hfirst ih
    rw [List.forall_mem_cons]
    exact ⟨not_infix_take_of_first hmark hfirst, ih⟩

/-- The fields that are not empty make up the list, with marks in between. -/
theorem joins_fields (hmark : mark ≠ []) (cells : List α) :
    Joins mark (nonempty (fields mark cells)) cells := by
  apply fields_induction (fun cells fields => Joins mark (nonempty fields) cells) hmark
  · intro cells _
    by_cases hempty : cells = []
    · subst hempty
      exact ⟨0, [], rfl, Or.inl ⟨rfl, rfl⟩⟩
    · have hwoven : Woven mark [cells] (cells ++ marks mark 0) := .last cells 0
      rw [marks, List.append_nil] at hwoven
      rw [nonempty_cons hempty]
      exact ⟨0, cells, rfl, Or.inr hwoven⟩
  · intro cells n hfirst ih
    have hcells := eq_append_of_first hfirst
    by_cases hempty : cells.take n = []
    · have hjoins := ih.skip
      rw [hempty, List.nil_append] at hcells
      rw [← hcells] at hjoins
      rwa [hempty]
    · have hjoins := ih.cons (cells.take n)
      rw [← hcells] at hjoins
      rwa [nonempty_cons hempty]

/-- The fields and the marks between them are as long as the list. -/
theorem extent_fields (hmark : mark ≠ []) (cells : List α) :
    extent mark.length (fields mark cells) = cells.length := by
  apply fields_induction (fun cells fields => extent mark.length fields = cells.length) hmark
  · intro cells _
    rfl
  · intro cells n hfirst ih
    have hle := length_of_first hfirst
    rw [extent_cons _ _ (fields_ne_nil hmark _), ih, List.length_take, List.length_drop]
    omega

/-! ## A mark of one cell -/

theorem first_single {cell : α} {front : List α} (hfree : cell ∉ front) (back : List α) :
    first [cell] (front ++ cell :: back) = some front.length := by
  induction front with
  | nil => simp [first]
  | cons other front ih =>
      rw [List.mem_cons, not_or] at hfree
      have hnot : ¬ [cell] <+: other :: (front ++ cell :: back) := by
        rw [List.cons_prefix_cons]
        exact fun hsame => hfree.1 hsame.1
      rw [List.cons_append, first, if_neg hnot, ih hfree.2, Option.map_some, List.length_cons]

theorem first_single_eq_none {cell : α} (hfree : cell ∉ cells) : first [cell] cells = none := by
  rw [first_eq_none_iff, List.singleton_infix_iff]
  exact hfree

theorem fields_single {cell : α} {front : List α} (hfree : cell ∉ front) (back : List α) :
    fields [cell] (front ++ cell :: back) = front :: fields [cell] back := by
  have hdrop : (front ++ cell :: back).drop (front.length + [cell].length) = back := by
    rw [← List.drop_drop, List.drop_left]
    rfl
  rw [fields_of_some (List.cons_ne_nil _ _) (first_single hfree back), List.take_left, hdrop]

end Splitting
