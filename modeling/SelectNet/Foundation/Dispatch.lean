import Mathlib.Data.List.Perm.Basic
import Mathlib.Data.List.Range

/-!
# Items dealt out to receivers

A record of items, each with the number of the receiver it went to. The items of
all receivers together are the items of the record; dealing to a receiver that
has fewest keeps the receivers balanced.
-/

universe u v

namespace Dispatch

variable {α : Type u} {β : Type v}

/-- The items dealt to one receiver, in order. -/
def dealtTo (items : List (Nat × α)) (id : Nat) : List α :=
  (items.filter fun item => item.1 = id).map Prod.snd

variable {items : List (Nat × α)} {count id other : Nat}

theorem dealtTo_push_self (items : List (Nat × α)) (id : Nat) (item : α) :
    dealtTo (items ++ [(id, item)]) id = dealtTo items id ++ [item] := by
  simp [dealtTo]

theorem dealtTo_push_of_ne (items : List (Nat × α)) (item : α) (hne : id ≠ other) :
    dealtTo (items ++ [(id, item)]) other = dealtTo items other := by
  simp [dealtTo, hne]

/-- Leaving out the items of one receiver does not touch those of another. -/
theorem dealtTo_filter_ne (hne : id ≠ other) :
    dealtTo (items.filter fun item => ¬ item.1 = id) other = dealtTo items other := by
  simp only [dealtTo, List.filter_filter]
  congr 1
  apply List.filter_congr
  intro item _
  by_cases hitem : item.1 = other
  · simp [hitem, hne.symm]
  · simp [hitem]

/-- Every item went to one receiver. -/
theorem perm_flatMap_dealtTo (hids : ∀ item ∈ items, item.1 < count) :
    (items.map Prod.snd).Perm ((List.range count).flatMap (dealtTo items)) := by
  induction count generalizing items with
  | zero =>
      have hnone : items = [] := by
        apply List.eq_nil_iff_forall_not_mem.mpr
        intro item hitem
        exact Nat.not_lt_zero _ (hids item hitem)
      subst items
      simp
  | succ count ih =>
      have hrest : ∀ item ∈ items.filter fun item => ¬ item.1 = count, item.1 < count := by
        intro item hitem
        simp only [List.mem_filter, decide_not, Bool.not_eq_eq_eq_not, Bool.not_true,
          decide_eq_false_iff_not] at hitem
        have hlt := hids item hitem.1
        omega
      have hsame : (List.range count).flatMap
            (dealtTo (items.filter fun item => ¬ item.1 = count)) =
          (List.range count).flatMap (dealtTo items) := by
        apply List.flatMap_congr
        intro id hid
        exact dealtTo_filter_ne (Nat.ne_of_gt (List.mem_range.mp hid))
      have hsplit := (List.filter_append_perm (fun item : Nat × α => item.1 = count) items).map
        Prod.snd
      rw [List.map_append] at hsplit
      have hbehind : ((items.filter fun item => !decide (item.1 = count)).map Prod.snd).Perm
          ((List.range count).flatMap (dealtTo items)) := by
        have hpart := ih hrest
        rw [hsame] at hpart
        simpa only [decide_not] using hpart
      rw [List.range_succ, List.flatMap_append, List.flatMap_singleton]
      apply hsplit.symm.trans
      exact List.perm_append_comm.trans (hbehind.append_right _)

/-- One account of a list of accounts replaced. -/
theorem count_flatMap_set [BEq α] {list : List β} {position : Nat} {owner : β}
    (owned : β → List α) (hat : list[position]? = some owner) (next : β) (item : α) :
    ((list.set position next).flatMap owned).count item + (owned owner).count item =
      (list.flatMap owned).count item + (owned next).count item := by
  induction list generalizing position with
  | nil => simp at hat
  | cons first list ih =>
      cases position with
      | zero =>
          cases hat
          simp only [List.set_cons_zero, List.flatMap_cons, List.count_append]
          omega
      | succ position =>
          have hrest := @ih position hat
          simp only [List.set_cons_succ, List.flatMap_cons, List.count_append]
          omega

/-- The other accounts stay when one is replaced. -/
theorem exists_perm_flatMap_set {list : List β} {position : Nat} {owner : β}
    (owned : β → List α) (hat : list[position]? = some owner) :
    ∃ others, (list.flatMap owned).Perm (owned owner ++ others) ∧
      ∀ next, ((list.set position next).flatMap owned).Perm (owned next ++ others) := by
  induction list generalizing position with
  | nil => simp at hat
  | cons first list ih =>
      cases position with
      | zero =>
          cases hat
          exact ⟨list.flatMap owned, .refl _, fun next => .refl _⟩
      | succ position =>
          obtain ⟨others, hbefore, hafter⟩ := @ih position hat
          have hbehind : ∀ next, (owned first ++ (owned next ++ others)).Perm
              (owned next ++ (owned first ++ others)) := by
            intro next
            rw [← List.append_assoc, ← List.append_assoc]
            exact List.perm_append_comm.append_right others
          refine ⟨owned first ++ others, ?_, fun next => ?_⟩
          · exact (hbefore.append_left (owned first)).trans (hbehind owner)
          · exact ((hafter next).append_left (owned first)).trans (hbehind next)

/-- No receiver has been dealt more than one item above another. -/
def Balanced (items : List (Nat × α)) (count : Nat) : Prop :=
  ∀ id < count, ∀ other < count,
    (dealtTo items id).length ≤ (dealtTo items other).length + 1

theorem Balanced.nil (count : Nat) : Balanced ([] : List (Nat × α)) count := by
  intro id _ other _
  simp [dealtTo]

/-- Dealing to a receiver with fewest items keeps the balance. -/
theorem Balanced.push (hbalanced : Balanced items count)
    (hleast : ∀ other < count, (dealtTo items id).length ≤ (dealtTo items other).length)
    (item : α) : Balanced (items ++ [(id, item)]) count := by
  intro first hfirst second hsecond
  have hgrown : (dealtTo items second).length ≤
      (dealtTo (items ++ [(id, item)]) second).length := by
    by_cases hid : id = second
    · simp [hid, dealtTo_push_self]
    · rw [dealtTo_push_of_ne items item hid]
  by_cases hid : id = first
  · subst first
    rw [dealtTo_push_self, List.length_append, List.length_singleton]
    have hless := hleast second hsecond
    omega
  · rw [dealtTo_push_of_ne items item hid]
    exact (hbalanced first hfirst second hsecond).trans (Nat.succ_le_succ hgrown)

end Dispatch
