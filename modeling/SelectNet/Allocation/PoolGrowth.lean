import SelectNet.Allocation.PoolSteps

/-!
# When a pool grows

`Alloc` looks at the head of the list only, and relies on a block with space
being there if there is one. `Alloc` itself breaks that when it uses up a head
in front of other blocks with space, and `Free` when it gives back the head.
-/

namespace SelectNet

open MemoryPool Heap

namespace PoolState

/-- The blocks the links lead to from the head on. -/
inductive Listed (s : PoolState) : Nat → Prop where
  | head {base : Nat} (hhead : s.pool.pBlock = some base) : Listed s base
  | next {base other : Nat} (hlisted : Listed s base) (hnext : s.heap.next base = some other) :
      Listed s other

/-- The block at `base` has no free unit. -/
def Spent (s : PoolState) (base : Nat) : Prop :=
  (s.heap.block base).map MemoryBlock.nFree = some 0

/-- If there is space, it is in front. -/
def SpaceInFront (s : PoolState) : Prop :=
  s.pool.Full s.heap → ∀ base, s.Listed base → s.Spent base

/-- When `Alloc` allocates a block, no block of the list has space. -/
def GrowsWhenFull (s : PoolState) : Prop :=
  ∀ fresh p pool heap, s.pool.CanGrow s.heap fresh →
    s.pool.alloc s.heap fresh = some (p, pool, heap) → heap.sizes ≠ s.heap.sizes →
    ∀ base, s.Listed base → s.Spent base

/-- A step that does not put a spent block in front of one with space: `Alloc`
takes the last unit of the head only if the blocks behind it are spent; `Free`
gives the head back only if the block behind it has space or all behind it are
spent. -/
def KeepsSpaceInFront (s : PoolState) : PoolOp → Prop
  | .alloc _ => ∀ head header, s.pool.pBlock = some head → s.heap.block head = some header →
      header.nFree = 1 → ∀ base, s.Listed base → base ≠ head → s.Spent base
  | .free p => ∀ head header next, s.pool.pBlock = some head →
      s.pool.findBlock s.heap p = some head → some head ≠ s.pool.initHead →
      s.heap.block head = some header → header.nFree + 1 = header.nUnitNum →
      header.pNext = some next → s.Spent next →
      ∀ base, s.Listed base → base ≠ head → s.Spent base
  | _ => True

end PoolState

/-- The same, said about the chunks. -/
def FrontFirst : List Chunk → Prop
  | [] => True
  | head :: rest => head.free = [] → ∀ other ∈ rest, other.free = []

section Chunks

variable {initHead : Option Nat} {chunk : Chunk} {front back rest : List Chunk} {unit : Nat}

theorem FrontFirst.sublist (hfront : FrontFirst (chunk :: rest)) (hsub : back.Sublist rest) :
    FrontFirst (chunk :: back) := fun hfree other hother => hfront hfree other (hsub.subset hother)

/-- A unit that comes back keeps space in front, unless its block is the head
and goes. -/
theorem frontFirst_settled (hfront : FrontFirst (front ++ chunk :: back)) :
    FrontFirst (settled initHead front (chunk.push unit) back) ↔
      (front = [] → chunk.free.length + 1 = chunk.num → some chunk.base ≠ initHead →
        FrontFirst back) := by
  -- the three ways of `settle`: the block is dropped, moved to the front, or left
  by_cases hdrop : (chunk.push unit).free.length = (chunk.push unit).num ∧
    some (chunk.push unit).base ≠ initHead
  · have hsettled : settled initHead front (chunk.push unit) back = front ++ back := if_pos hdrop
    rw [hsettled]
    cases front with
    | nil => exact ⟨fun hback _ _ _ => hback, fun hback => hback rfl hdrop.1 hdrop.2⟩
    | cons head rest =>
        have hkept : FrontFirst (head :: (rest ++ back)) :=
          FrontFirst.sublist hfront ((List.sublist_cons_self _ _).append_left _)
        exact iff_of_true hkept fun hnil => absurd hnil (List.cons_ne_nil _ _)
  · have hno : ¬ (chunk.free.length + 1 = chunk.num ∧ some chunk.base ≠ initHead) := hdrop
    have hright : front = [] → chunk.free.length + 1 = chunk.num → some chunk.base ≠ initHead →
        FrontFirst back := fun _ hcount hne => absurd ⟨hcount, hne⟩ hno
    refine iff_of_true ?_ hright
    cases front with
    | nil =>
        have hsettled : settled initHead [] (chunk.push unit) back = chunk.push unit :: back :=
          if_neg hdrop
        rw [hsettled]
        exact fun hfree => absurd hfree (List.cons_ne_nil _ _)
    | cons head rest =>
        by_cases hempty : head.free = []
        · have hsettled : settled initHead (head :: rest) (chunk.push unit) back =
              chunk.push unit :: (head :: rest ++ back) := (if_neg hdrop).trans (if_pos hempty)
          rw [hsettled]
          exact fun hfree => absurd hfree (List.cons_ne_nil _ _)
        · have hsettled : settled initHead (head :: rest) (chunk.push unit) back =
              head :: rest ++ chunk.push unit :: back := (if_neg hdrop).trans (if_neg hempty)
          rw [hsettled]
          exact fun hfree => absurd hfree hempty

end Chunks

namespace PoolState.Inv

variable {s next : PoolState} {chunk : Chunk} {front back rest chunks chunks' : List Chunk}
  {base unit : Nat} {op : PoolOp} {live' : List (Nat × Nat)}

/-- The links lead to the blocks of the chunks. -/
theorem listed_iff (hinv : s.Inv chunks) : s.Listed base ↔ base ∈ bases chunks := by
  have hlinked := hinv.stores.linked
  have hhead := hinv.stores.head
  constructor
  · intro hlisted
    induction hlisted with
    | head hbase => exact List.mem_of_head? (hhead.symm.trans hbase)
    | @next base other _ hnext ih =>
        obtain ⟨front, back, hsplit⟩ := List.append_of_mem ih
        rw [hsplit] at hlinked ⊢
        have hback : back.head? = some other := hlinked.next_eq.symm.trans hnext
        exact List.mem_append_right _ (List.mem_cons_of_mem _ (List.mem_of_head? hback))
  · intro hmem
    obtain ⟨front, back, hsplit⟩ := List.append_of_mem hmem
    rw [hsplit] at hlinked hhead
    clear hsplit hmem
    -- by induction on how many blocks stand in front
    induction front using List.reverseRecOn generalizing base back with
    | nil => exact .head hhead
    | append_singleton front last ih =>
        rw [List.append_assoc, List.singleton_append] at hlinked hhead
        have hnext : s.heap.next last = some base := hlinked.next_eq
        exact .next (ih _ hhead hlinked) hnext

theorem spent_iff (hinv : s.Inv chunks) (hmem : chunk ∈ chunks) :
    s.Spent chunk.base ↔ chunk.free = [] := by
  obtain ⟨header, hfound, hdescribes, _⟩ := (hinv.stores.holds chunk hmem).found
  rw [Spent, hfound, Option.map_some, Option.some.injEq, hdescribes.nFree,
    List.length_eq_zero_iff]

/-- The blocks behind the head are those of the other chunks. -/
theorem behind_spent_iff (hinv : s.Inv (chunk :: rest)) :
    (∀ base, s.Listed base → base ≠ chunk.base → s.Spent base) ↔
      ∀ other ∈ rest, other.free = [] := by
  have hnodup := hinv.stores.nodup
  rw [bases_cons, List.nodup_cons] at hnodup
  constructor
  · intro hspent other hother
    have hmem : other ∈ chunk :: rest := List.mem_cons_of_mem _ hother
    rw [← hinv.spent_iff hmem]
    apply hspent _ (hinv.listed_iff.mpr (mem_bases hmem))
    intro hsame
    exact hnodup.1 (hsame ▸ mem_bases hother)
  · intro hspent base hlisted hne
    obtain ⟨other, hmem, rfl⟩ := List.mem_map.mp (hinv.listed_iff.mp hlisted)
    rw [hinv.spent_iff hmem]
    rcases List.mem_cons.mp hmem with rfl | hother
    · exact absurd rfl hne
    · exact hspent other hother

theorem spaceInFront_iff (hinv : s.Inv chunks) : s.SpaceInFront ↔ FrontFirst chunks := by
  obtain ⟨chunk, rest, rfl⟩ := hinv.stores.exists_head
  constructor
  · intro hspace hfree
    rw [← hinv.behind_spent_iff]
    intro base hlisted _
    exact hspace (hinv.stores.full hfree) base hlisted
  · intro hfront hfull base hlisted
    have hfree := hinv.stores.free_eq_nil_of_full hfull
    by_cases hsame : base = chunk.base
    · rw [hsame, hinv.spent_iff List.mem_cons_self]
      exact hfree
    · exact hinv.behind_spent_iff.mpr (hfront hfree) base hlisted hsame

theorem keeps_alloc_iff (hinv : s.Inv (chunk :: rest)) {fresh : Nat} :
    s.KeepsSpaceInFront (.alloc fresh) ↔
      (chunk.free.length = 1 → ∀ other ∈ rest, other.free = []) := by
  obtain ⟨header, hfound, hdescribes, _⟩ := (hinv.stores.holds chunk List.mem_cons_self).found
  rw [← hinv.behind_spent_iff, ← hdescribes.nFree]
  constructor
  · intro hkeeps hlast
    exact hkeeps _ header hinv.stores.head hfound hlast
  · intro hkeeps head header' hhead hfound' hlast
    obtain rfl : chunk.base = head := Option.some.inj (hinv.stores.head.symm.trans hhead)
    obtain rfl : header = header' := Option.some.inj (hfound.symm.trans hfound')
    exact hkeeps hlast

theorem keeps_free_iff (hinv : s.Inv (front ++ chunk :: back)) (hlive : chunk.Live unit) :
    s.KeepsSpaceInFront (.free (payload s.pool.nUnitSize chunk.base unit)) ↔
      (front = [] → chunk.free.length + 1 = chunk.num → some chunk.base ≠ s.pool.initHead →
        FrontFirst back) := by
  have hmem : chunk ∈ front ++ chunk :: back := List.mem_append_right _ List.mem_cons_self
  obtain ⟨header, hfound, hdescribes, _⟩ := (hinv.stores.holds chunk hmem).found
  have hblock := findBlock_spec hinv.stores hmem hlive.1
  have hlinked := hinv.stores.linked
  rw [bases_append, bases_cons] at hlinked
  have hnext : header.pNext = (bases back).head? :=
    (next_of_found hfound).symm.trans hlinked.next_eq
  constructor
  · rintro hkeeps rfl hcount hinit
    cases back with
    | nil => trivial
    | cons second more =>
        intro hfree other hother
        have hsecond : second ∈ chunk :: second :: more :=
          List.mem_cons_of_mem _ List.mem_cons_self
        have hspent := hkeeps _ header _ hinv.stores.head hblock hinit hfound
          (by rw [hdescribes.nFree, hdescribes.unitNum, hcount]) hnext
          ((hinv.spent_iff hsecond).mpr hfree)
        exact hinv.behind_spent_iff.mp hspent other (List.mem_cons_of_mem _ hother)
  · intro hkeeps head header' next hhead hblock' hinit hfound' hcount hnext' hspent
    obtain rfl : chunk.base = head := Option.some.inj (hblock.symm.trans hblock')
    obtain rfl : header = header' := Option.some.inj (hfound.symm.trans hfound')
    cases front with
    -- a block that is not in front leaves the head as it is
    | cons first more =>
        have hsame : first.base = chunk.base :=
          Option.some.inj (hinv.stores.head.symm.trans hhead)
        exact absurd hsame (hinv.stores.base_ne List.mem_cons_self)
    | nil =>
        rw [hdescribes.nFree, hdescribes.unitNum] at hcount
        -- the block in front is dropped, and what is behind it becomes the list
        have hback := hkeeps rfl hcount hinit
        cases back with
        | nil =>
            rw [hnext] at hnext'
            cases hnext'
        | cons second more =>
            obtain rfl : second.base = next := Option.some.inj (hnext.symm.trans hnext')
            have hsecond : second ∈ chunk :: second :: more :=
              List.mem_cons_of_mem _ List.mem_cons_self
            have hfree := (hinv.spent_iff hsecond).mp hspent
            apply hinv.behind_spent_iff.mpr
            rw [List.forall_mem_cons]
            exact ⟨hfree, hback hfree⟩

/-- A step keeps space in front exactly under the condition. -/
theorem frontFirst_step (hinv : s.Inv chunks) (hfront : FrontFirst chunks)
    (hstep : ChunkStep s.pool s.live chunks op chunks' live') :
    FrontFirst chunks' ↔ s.KeepsSpaceInFront op := by
  cases hstep with
  | @pop fresh unit chunk rest more hfree =>
      rw [hinv.keeps_alloc_iff, hfree, List.length_cons, Nat.add_eq_right,
        List.length_eq_zero_iff]
      simp only [FrontFirst, Chunk.pop, hfree, List.tail_cons]
  | @grow fresh chunk rest hfull =>
      rw [hinv.keeps_alloc_iff, hfull]
      refine iff_of_true (fun _ => ?_) fun hlast => absurd hlast.symm Nat.one_ne_zero
      rw [List.forall_mem_cons]
      exact ⟨hfull, hfront hfull⟩
  | push hlive hmem => rw [frontFirst_settled hfront, hinv.keeps_free_iff hlive]
  | reset =>
      refine iff_of_true ?_ trivial
      obtain ⟨chunk, rest, rfl⟩ := hinv.stores.exists_head
      have hpos := (hinv.stores.valid chunk List.mem_cons_self).numPos
      intro hfree
      exact absurd (List.range_eq_nil.mp hfree) hpos.ne'
  | write => exact iff_of_true hfront trivial

end PoolState.Inv

namespace PoolState

variable {s : PoolState}

/-- `Alloc` allocates a block only when the head is used up. -/
theorem Inv.growsWhenFull {chunks : List Chunk} (hinv : s.Inv chunks) (hspace : s.SpaceInFront) :
    s.GrowsWhenFull := by
  intro fresh p pool heap _ halloc hsizes
  apply hspace
  obtain ⟨chunk, rest, rfl⟩ := hinv.stores.exists_head
  cases hfree : chunk.free with
  | nil => exact hinv.stores.full hfree
  | cons unit more =>
      obtain ⟨heap', halloc', _, _, hsame, _⟩ := alloc_of_free hinv.stores hfree fresh
      rw [halloc, Option.some.injEq, Prod.mk.injEq, Prod.mk.injEq] at halloc'
      obtain ⟨_, _, rfl⟩ := halloc'
      exact absurd hsame hsizes

/-- With memory for another block at hand, `Alloc` allocates it also when only the
head is used up. -/
theorem Inv.spaceInFront_of_growsWhenFull {chunks : List Chunk} (hinv : s.Inv chunks)
    (hgrows : s.GrowsWhenFull) {fresh : Nat}
    (hfresh : s.heap.Fresh fresh (sizeofMemoryBlock + s.pool.nUnitSize * s.pool.nGrowUnitNum)) :
    s.SpaceInFront := by
  intro hfull
  obtain ⟨chunk, rest, rfl⟩ := hinv.stores.exists_head
  obtain ⟨heap, halloc, _, _, hsizes, _⟩ :=
    alloc_of_full hinv.stores (hinv.stores.free_eq_nil_of_full hfull) hfresh
  apply hgrows fresh _ _ heap (fun _ => hfresh) halloc
  intro hsame
  have hnew := congrFun (hsizes.symm.trans hsame) fresh
  rw [Function.update_self, sizes, hfresh.unused] at hnew
  cases hnew

/-- The chunks of the state have space in front, if any. -/
def Ordered (s : PoolState) : Prop := ∃ chunks, s.Inv chunks ∧ FrontFirst chunks

theorem Constructed.ordered (hmade : s.Constructed) : s.Ordered := by
  obtain ⟨base, num, hinv, _⟩ := hmade.grown
  exact ⟨_, hinv, fun _ other hother => absurd hother List.not_mem_nil⟩

theorem ordered_of_reachable (hreach : (poolMachine.restrict KeepsSpaceInFront).Reachable s) :
    s.Ordered := by
  have hinitial : ∀ state, poolMachine.initial state → state.Ordered :=
    fun _ hmade => Constructed.ordered hmade
  have hstep : ∀ state op next, state.Ordered → state.KeepsSpaceInFront op →
      poolMachine.step state op next → next.Ordered := by
    rintro state op next ⟨chunks, hinv, hfront⟩ hkeeps hstep
    obtain ⟨chunks', hchunks, hnext, _⟩ := hinv.step_chunks hstep
    exact ⟨chunks', hnext, (hinv.frontFirst_step hfront hchunks).mpr hkeeps⟩
  exact hreach.invariant_restrict hinitial hstep

end PoolState

/-- As long as every step keeps space in front, a used up head means that all
blocks are, and a block is allocated only then; the first step that does not
ends that. -/
theorem pool_grows_when_full {s : PoolState}
    (hreach : (poolMachine.restrict PoolState.KeepsSpaceInFront).Reachable s) :
    (s.SpaceInFront ∧ s.GrowsWhenFull) ∧
      ∀ op next, s.Step op next → ¬ s.KeepsSpaceInFront op → ¬ next.SpaceInFront := by
  obtain ⟨chunks, hinv, hfront⟩ := PoolState.ordered_of_reachable hreach
  constructor
  · have hspace := hinv.spaceInFront_iff.mpr hfront
    exact ⟨hspace, hinv.growsWhenFull hspace⟩
  · intro op next hstep hkeeps hspace
    obtain ⟨chunks', hchunks, hnext, _⟩ := hinv.step_chunks hstep
    exact hkeeps ((hinv.frontFirst_step hfront hchunks).mp (hnext.spaceInFront_iff.mp hspace))

/-- A pool whose only unit is taken. -/
theorem pool_grows_when_full_once : ∃ s,
    (poolMachine.restrict PoolState.KeepsSpaceInFront).Reachable s ∧ s.pool.Full s.heap ∧
    s.SpaceInFront ∧ s.GrowsWhenFull := by
  obtain ⟨start, hmade, hinv, _⟩ := PoolState.exists_small
  obtain ⟨one, hone, hinvOne, _⟩ :=
    hinv.exists_pop (show (grown 4096 1).free = 0 :: [] from rfl) 8192
  have hkeeps : start.KeepsSpaceInFront (.alloc 8192) :=
    hinv.keeps_alloc_iff.mpr fun _ other hother => absurd hother List.not_mem_nil
  have hreach : (poolMachine.restrict PoolState.KeepsSpaceInFront).Reachable one :=
    .next (.start hmade) ⟨hkeeps, hone⟩
  exact ⟨one, hreach, hinvOne.stores.full rfl, (pool_grows_when_full hreach).1⟩

/-- What is allocated after a pool with an initial block has grown once. -/
def twoBlocks : Nat → Option Nat :=
  Function.update (Function.update (fun _ => none) 4096 (some 58)) 8192 (some 68)

theorem fresh_of_twoBlocks {heap : Heap} (hsizes : heap.sizes = twoBlocks) :
    heap.Fresh 12288 68 := by
  apply Fresh.of_apart (by decide) (by decide)
  · rw [hsizes]
    rfl
  · intro other taken htaken
    rw [hsizes, twoBlocks, Function.update_apply, Function.update_apply] at htaken
    split at htaken
    next hsame =>
      cases htaken
      exact .inr (hsame ▸ by decide)
    next =>
      split at htaken
      next hsame =>
        cases htaken
        exact .inr (hsame ▸ by decide)
      next => cases htaken

/-- `a` takes the unit of the initial block, `b` and `c` those of a second one;
`a` and `b` come back, and `Alloc` uses up the initial block, which is in front
again. -/
theorem exists_space_behind : ∃ s, poolMachine.Reachable s ∧
    s.Inv [(grown 4096 1).pop, ⟨8192, 2, [0]⟩] ∧
    s.pool = ⟨some 4096, some 4096, 10, 1, 2⟩ ∧ s.heap.sizes = twoBlocks := by
  obtain ⟨start, hmade, hinv, _, hpool, hsizes⟩ := PoolState.exists_small
  obtain ⟨one, hone, hinvOne, _, hpoolOne, hsizesOne⟩ :=
    hinv.exists_pop (show (grown 4096 1).free = 0 :: [] from rfl) 8192
  rw [hpool] at hpoolOne
  rw [hsizes] at hsizesOne
  have hfresh : one.heap.Fresh 8192
      (sizeofMemoryBlock + one.pool.nUnitSize * one.pool.nGrowUnitNum) := by
    rw [hpoolOne]
    apply Fresh.of_apart (by decide) (by decide)
    · rw [hsizesOne]
      rfl
    · intro other taken htaken
      rw [hsizesOne, Function.update_apply] at htaken
      split at htaken
      next hsame =>
        cases htaken
        exact .inr (hsame ▸ by decide)
      next => cases htaken
  obtain ⟨two, htwo, hinvTwo, _, hpoolTwo, hsizesTwo⟩ := hinvOne.exists_grow rfl hfresh
  rw [hpoolOne] at hpoolTwo hinvTwo hsizesTwo
  rw [hsizesOne] at hsizesTwo
  obtain ⟨three, hthree, hinvThree, _, hpoolThree, hsizesThree⟩ :=
    hinvTwo.exists_pop (show ((grown 8192 2).pop).free = 1 :: [] from rfl) 12288
  rw [hpoolTwo] at hpoolThree
  rw [hsizesTwo] at hsizesThree
  -- `a` comes back: the initial block is moved to the front
  have hinvThree' : three.Inv ([⟨8192, 2, []⟩] ++ (grown 4096 1).pop :: []) := hinvThree
  obtain ⟨four, hfour, hinvFour, _, hpoolFour, hsizesFour⟩ :=
    hinvThree'.exists_push (show (grown 4096 1).pop.Live 0 from ⟨by decide, List.not_mem_nil⟩)
  rw [hpoolThree] at hinvFour hpoolFour hsizesFour
  rw [hsizesThree] at hsizesFour
  -- `b` comes back: its block stays behind
  have hinvFour' : four.Inv ([⟨4096, 1, [0]⟩] ++ ⟨8192, 2, []⟩ :: []) := hinvFour
  have hused : (⟨8192, 2, []⟩ : Chunk).Live 0 := ⟨by decide, List.not_mem_nil⟩
  obtain ⟨five, hfive, hinvFive, _, hpoolFive, hsizesFive⟩ := hinvFour'.exists_push hused
  rw [hpoolFour] at hinvFive hpoolFive hsizesFive
  rw [hsizesFour] at hsizesFive
  have hinvFive' : five.Inv [⟨4096, 1, [0]⟩, ⟨8192, 2, [0]⟩] := hinvFive
  have hlast : (⟨4096, 1, [0]⟩ : Chunk).free = 0 :: [] := rfl
  obtain ⟨six, hsix, hinvSix, _, hpoolSix, hsizesSix⟩ := hinvFive'.exists_pop hlast 12288
  refine ⟨six, ?_, hinvSix, hpoolSix.trans hpoolFive, hsizesSix.trans hsizesFive⟩
  exact .next (.next (.next (.next (.next (.next (.start hmade) hone) htwo) hthree) hfour) hfive)
    hsix

/-- The next `Alloc` then makes a third block beside the free unit of the
second. -/
theorem space_left_behind : ∃ s, poolMachine.Reachable s ∧ ¬ s.SpaceInFront ∧
    ¬ s.GrowsWhenFull := by
  obtain ⟨s, hreach, hinv, hpool, hsizes⟩ := exists_space_behind
  have hspace : ¬ s.SpaceInFront := by
    rw [hinv.spaceInFront_iff]
    intro hfront
    exact absurd (hfront rfl _ (List.mem_singleton_self _)) (List.cons_ne_nil _ _)
  refine ⟨s, hreach, hspace, fun hgrows => hspace ?_⟩
  have hfresh : s.heap.Fresh 12288
      (sizeofMemoryBlock + s.pool.nUnitSize * s.pool.nGrowUnitNum) := by
    rw [hpool]
    exact fresh_of_twoBlocks hsizes
  exact hinv.spaceInFront_of_growsWhenFull hgrows hfresh

end SelectNet
