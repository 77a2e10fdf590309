import Mathlib.Data.List.Iterate
import Mathlib.Data.List.Nodup

/-!
# Linked nodes

Three ways nodes are threaded: a doubly linked list, given by where each node
says its predecessor and its successor are, a singly linked list that ends
where no successor is given, and a free chain, which is walked from its first
node a counted number of times. Operations on the links are described by what
every node points at afterwards.
-/

universe u

variable {α : Type u} {pre next pre' next' : α → Option α} {before : Option α}
  {node first : α} {front back nodes : List α}

/-- Every node of the list points at the node behind it, and back at the node
in front of it; `before` is what stands in front of the first. -/
def LinkedFrom (pre next : α → Option α) : Option α → List α → Prop
  | _, [] => True
  | before, node :: rest =>
      pre node = before ∧ next node = rest.head? ∧ LinkedFrom pre next (some node) rest

namespace LinkedFrom

theorem congr (hlinked : LinkedFrom pre next before nodes)
    (hpre : ∀ node ∈ nodes, pre' node = pre node)
    (hnext : ∀ node ∈ nodes, next' node = next node) : LinkedFrom pre' next' before nodes := by
  induction nodes generalizing before with
  | nil => trivial
  | cons node rest ih =>
      obtain ⟨hbefore, hafter, hrest⟩ := hlinked
      rw [List.forall_mem_cons] at hpre hnext
      exact ⟨hpre.1.trans hbefore, hnext.1.trans hafter, ih hrest hpre.2 hnext.2⟩

theorem next_eq (hlinked : LinkedFrom pre next before (front ++ node :: back)) :
    next node = back.head? := by
  induction front generalizing before with
  | nil => exact hlinked.2.1
  | cons head rest ih => exact ih hlinked.2.2

theorem pre_eq (hlinked : LinkedFrom pre next before (front ++ node :: back)) :
    pre node = front.getLast?.or before := by
  induction front generalizing before with
  | nil => exact hlinked.1
  | cons head rest ih =>
      rw [ih hlinked.2.2, List.getLast?_cons]
      cases rest.getLast? <;> rfl

/-- The links lead through one list only. -/
theorem unique {before' : Option α} {nodes' : List α} (hlinked : LinkedFrom pre next before nodes)
    (hlinked' : LinkedFrom pre next before' nodes') (hhead : nodes.head? = nodes'.head?) :
    nodes = nodes' := by
  induction nodes generalizing before before' nodes' with
  | nil => exact (List.head?_eq_none_iff.mp hhead.symm).symm
  | cons node rest ih =>
      cases nodes' with
      | nil => cases hhead
      | cons node' rest' =>
          obtain rfl := Option.some.inj hhead
          obtain ⟨_, hnext, hrest⟩ := hlinked
          obtain ⟨_, hnext', hrest'⟩ := hlinked'
          rw [ih hrest hrest' (hnext.symm.trans hnext')]

variable [DecidableEq α]

/-- Taking a node out: its neighbours are made to point at each other. -/
theorem unlink (hlinked : LinkedFrom pre next before (front ++ node :: back))
    (hnodup : (front ++ node :: back).Nodup)
    (hbefore : ∀ other ∈ front ++ node :: back, before ≠ some other)
    (hpre : ∀ other ∈ front ++ back,
      pre' other = if next node = some other then pre node else pre other)
    (hnext : ∀ other ∈ front ++ back,
      next' other = if pre node = some other then next node else next other) :
    LinkedFrom pre' next' before (front ++ back) := by
  induction front generalizing before with
  -- the node is in front: the one behind it becomes the first
  | nil =>
      obtain ⟨hnode, hafter, hback⟩ := hlinked
      obtain ⟨hfresh, hnodup⟩ := List.nodup_cons.mp hnodup
      cases back with
      | nil => trivial
      | cons head rest =>
          obtain ⟨hhead, hsecond, hrest⟩ := hback
          have hdistinct : ∀ other ∈ rest, head ≠ other := by
            rintro other hother rfl
            exact (List.nodup_cons.mp hnodup).1 hother
          rw [List.head?_cons] at hafter
          have hkeep : ∀ other ∈ head :: rest, next' other = next other := by
            intro other hother
            rw [hnext other hother, hnode, if_neg (hbefore other (List.mem_cons_of_mem _ hother))]
          refine ⟨?_, (hkeep head List.mem_cons_self).trans hsecond, hrest.congr ?_ ?_⟩
          · rw [hpre head List.mem_cons_self, if_pos hafter, hnode]
          · intro other hother
            rw [hpre other (List.mem_cons_of_mem _ hother), hafter, if_neg]
            exact fun hsame => hdistinct other hother (Option.some.inj hsame)
          · exact fun other hother => hkeep other (List.mem_cons_of_mem _ hother)
  | cons head rest ih =>
      have hnodeNext : next node = back.head? := hlinked.next_eq
      obtain ⟨hhead, hsecond, hrest⟩ := hlinked
      obtain ⟨hfresh, hnodup⟩ := List.nodup_cons.mp hnodup
      rw [List.cons_append, List.forall_mem_cons] at hpre hnext
      -- the links of `head` change only if it stands right in front of the node
      have hnodePre : pre node = rest.getLast?.or (some head) := hrest.pre_eq
      refine ⟨?_, ?_, ih hrest hnodup ?_ hpre.2 hnext.2⟩
      · rw [hpre.1, if_neg, hhead]
        rw [hnodeNext]
        intro hback
        exact hfresh (List.mem_append_right _ (List.mem_cons_of_mem _ (List.mem_of_head? hback)))
      · rw [hnext.1, hnodePre]
        cases rest with
        | nil => simpa using hnodeNext
        | cons second more =>
            have hlast : (second :: more).getLast? = some ((second :: more).getLast (by simp)) :=
              List.getLast?_eq_some_getLast _
            rw [hlast, Option.some_or, if_neg, hsecond]
            · rfl
            · rw [Option.some.injEq]
              intro hsame
              exact hfresh (List.mem_append_left _ (hsame ▸ List.getLast_mem _))
      · rintro other hother hsame
        cases hsame
        exact hfresh hother

/-- Putting a new node in front. -/
theorem pushFront (hlinked : LinkedFrom pre next none nodes) (hfresh : node ∉ nodes)
    (hnodup : nodes.Nodup) (hpre : pre' node = none) (hnext : next' node = nodes.head?)
    (hpreOld : ∀ other ∈ nodes,
      pre' other = if nodes.head? = some other then some node else pre other)
    (hnextOld : ∀ other ∈ nodes, next' other = next other) :
    LinkedFrom pre' next' none (node :: nodes) := by
  refine ⟨hpre, hnext, ?_⟩
  cases nodes with
  | nil => trivial
  | cons head rest =>
      obtain ⟨_, hsecond, hrest⟩ := hlinked
      rw [List.forall_mem_cons] at hpreOld hnextOld
      refine ⟨?_, hnextOld.1.trans hsecond, hrest.congr ?_ hnextOld.2⟩
      · rw [hpreOld.1, List.head?_cons, if_pos rfl]
      · intro other hother
        rw [hpreOld.2 other hother, List.head?_cons, if_neg]
        intro hsame
        cases hsame
        exact (List.nodup_cons.mp hnodup).1 hother

end LinkedFrom

/-- Every node of the list points at the node behind it, the last at none. -/
def LinkedTo (next : α → Option α) : List α → Prop
  | [] => True
  | node :: rest => next node = rest.head? ∧ LinkedTo next rest

namespace LinkedTo

theorem congr (hlinked : LinkedTo next nodes) (hnext : ∀ node ∈ nodes, next' node = next node) :
    LinkedTo next' nodes := by
  induction nodes with
  | nil => trivial
  | cons node rest ih =>
      rw [List.forall_mem_cons] at hnext
      exact ⟨hnext.1.trans hlinked.1, ih hlinked.2 hnext.2⟩

/-- Putting a node at the end: what was the last one is made to point at it. -/
theorem snoc {last : α} (hlinked : LinkedTo next (front ++ [last])) (hfresh : last ∉ front)
    (hold : ∀ other ∈ front, next' other = next other) (hlast : next' last = some node)
    (hnode : next' node = none) : LinkedTo next' (front ++ [last, node]) := by
  induction front with
  | nil => exact ⟨hlast, hnode, trivial⟩
  | cons head rest ih =>
      rw [List.forall_mem_cons] at hold
      refine ⟨?_, ih hlinked.2 (fun hmem => hfresh (List.mem_cons_of_mem _ hmem)) hold.2⟩
      rw [hold.1, hlinked.1]
      cases rest with
      | nil => rfl
      | cons second more => rfl

end LinkedTo

namespace List

/-- Walking on from nodes that both maps send alike gives the same chain. -/
theorem iterate_congr {f g : α → α} {first : α} {count : Nat}
    (hagree : ∀ node ∈ List.iterate f first count, g node = f node) :
    List.iterate g first count = List.iterate f first count := by
  induction count generalizing first with
  | zero => rfl
  | succ count ih =>
      rw [List.iterate, List.forall_mem_cons] at hagree
      rw [List.iterate, List.iterate, hagree.1, ih hagree.2]

end List
