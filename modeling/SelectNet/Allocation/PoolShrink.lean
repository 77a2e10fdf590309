import Mathlib.Algebra.BigOperators.Group.List.Basic
import Mathlib.Algebra.Ring.Int.Defs
import SelectNet.Allocation.PoolSteps

/-!
# Unused blocks are given back

Without `FreeAll`, a pool keeps only blocks it needs: every block but the
initial one has handed out a unit, and the blocks together have handed out as
many units as are live.
-/

namespace SelectNet

open MemoryPool Heap

/-- Units a chunk has handed out. -/
def Chunk.taken (chunk : Chunk) : Int := chunk.num - chunk.free.length

/-- Fewer free units than units leave one that is handed out. -/
theorem Chunk.exists_live {chunk : Chunk} (hfewer : chunk.free.length < chunk.num) :
    ∃ unit, chunk.Live unit := by
  by_contra hnone
  have hsubset : List.range chunk.num ⊆ chunk.free := by
    intro unit hunit
    by_contra hlive
    exact hnone ⟨unit, List.mem_range.mp hunit, hlive⟩
  have hlength := (List.subperm_of_subset List.nodup_range hsubset).length_le
  rw [List.length_range] at hlength
  omega

/-- A block but the initial one has handed out a unit. -/
def Occupied (initHead : Option Nat) (chunk : Chunk) : Prop :=
  some chunk.base ≠ initHead → chunk.free.length < chunk.num

/-- What a pool without superfluous blocks looks like while `live` are live. -/
structure Compact (initHead : Option Nat) (live : List (Nat × Nat)) (chunks : List Chunk) :
    Prop where
  occupied : ∀ chunk ∈ chunks, Occupied initHead chunk
  balance : (chunks.map Chunk.taken).sum = live.length

/-- A step that frees single units only. -/
def PoolState.FreesUnits (_ : PoolState) : PoolOp → Prop
  | .freeAll => False
  | _ => True

section Chunks

variable {initHead : Option Nat} {chunk : Chunk} {front back chunks chunks' : List Chunk}
  {unit unitSize : Nat}

theorem taken_pop {more : List Nat} (hfree : chunk.free = unit :: more) :
    chunk.pop.taken = chunk.taken + 1 := by
  simp only [Chunk.taken, Chunk.pop, hfree, List.tail_cons, List.length_cons]
  omega

theorem taken_push (unit : Nat) : (chunk.push unit).taken = chunk.taken - 1 := by
  simp only [Chunk.taken, Chunk.push, List.length_cons]
  omega

theorem taken_grown (base num : Nat) : (grown base num).taken = 0 := by
  simp only [Chunk.taken, grown, List.length_range, sub_self]

/-- A block that is dropped had nothing handed out, and the order of the rest
does not matter. -/
theorem sum_taken_settled (initHead : Option Nat) (front : List Chunk) (chunk : Chunk)
    (back : List Chunk) : ((settled initHead front chunk back).map Chunk.taken).sum =
      ((front ++ chunk :: back).map Chunk.taken).sum := by
  unfold settled
  split
  next hdrop =>
    have htaken : chunk.taken = 0 := by
      rw [Chunk.taken, hdrop.1, sub_self]
    simp [htaken]
  next =>
    split
    next => rfl
    next head rest =>
      split
      next =>
        simp only [List.map_cons, List.map_append, List.cons_append, List.sum_cons, List.sum_append]
        omega
      next => rfl

/-- A block without handed out units does not stay. -/
theorem occupied_settled (hfront : ∀ other ∈ front ++ back, Occupied initHead other)
    (hvalid : chunk.Valid unitSize) :
    ∀ other ∈ settled initHead front chunk back, Occupied initHead other := by
  intro other hmem
  by_cases hdrop : chunk.free.length = chunk.num ∧ some chunk.base ≠ initHead
  · have hsettled : settled initHead front chunk back = front ++ back := if_pos hdrop
    rw [hsettled] at hmem
    exact hfront other hmem
  · have hmem' := mem_of_mem_settled hmem
    rw [List.mem_append, List.mem_cons] at hmem'
    rcases hmem' with hother | rfl | hother
    · exact hfront other (List.mem_append_left _ hother)
    · intro hne
      have hunfull : other.free.length ≠ other.num := fun hfull => hdrop ⟨hfull, hne⟩
      exact lt_of_le_of_ne hvalid.length_le hunfull
    · exact hfront other (List.mem_append_right _ hother)

end Chunks

section Steps

variable {s next : PoolState} {chunks chunks' : List Chunk} {op : PoolOp}
  {live' : List (Nat × Nat)}

/-- Steps that free single units keep a pool compact. -/
theorem Compact.step (hcompact : Compact s.pool.initHead s.live chunks) (hinv : s.Inv chunks)
    (hallowed : s.FreesUnits op) (hstep : ChunkStep s.pool s.live chunks op chunks' live') :
    Compact s.pool.initHead live' chunks' := by
  obtain ⟨hoccupied, hbalance⟩ := hcompact
  cases hstep with
  | @pop fresh unit chunk rest more hfree =>
      rw [List.forall_mem_cons] at hoccupied
      have htaken := taken_pop hfree
      constructor
      · rw [List.forall_mem_cons]
        refine ⟨fun hne => ?_, hoccupied.2⟩
        have hless := hoccupied.1 hne
        simp only [Chunk.pop, hfree, List.tail_cons, List.length_cons] at hless ⊢
        exact (Nat.lt_succ_self _).trans hless
      · rw [List.map_cons, List.sum_cons] at hbalance ⊢
        rw [htaken, List.length_cons]
        omega
  -- the new block has its first unit taken at once
  | @grow fresh chunk rest hfull =>
      have hpos := hinv.stores.sized.growPos
      have hfree : (grown fresh s.pool.nGrowUnitNum).free = _ := grown_free hpos
      constructor
      · rw [List.forall_mem_cons]
        refine ⟨fun _ => ?_, hoccupied⟩
        simp only [Chunk.pop, grown, List.length_tail, List.length_range]
        exact Nat.sub_lt hpos Nat.one_pos
      · rw [List.map_cons, List.sum_cons, taken_pop hfree, taken_grown, hbalance, List.length_cons]
        omega
  | @push unit chunk front back hlive hmem =>
      have hvalid := hinv.stores.valid chunk (List.mem_append_right _ List.mem_cons_self)
      constructor
      · -- a block is kept only if it is the initial one or still in use
        apply occupied_settled _ (hvalid.push hlive)
        exact fun other hother => hoccupied other (mem_middle hother chunk)
      · have hlength := List.length_erase_add_one hmem
        rw [sum_taken_settled]
        simp only [List.map_append, List.map_cons, List.sum_append, List.sum_cons,
          taken_push] at hbalance ⊢
        omega
  | reset => exact hallowed.elim
  | write => exact ⟨hoccupied, hbalance⟩

end Steps

namespace PoolState

variable {s : PoolState}

/-- The chunks of the state are those of a pool without superfluous blocks. -/
def Shrunk (s : PoolState) : Prop :=
  ∃ chunks, s.Inv chunks ∧ Compact s.pool.initHead s.live chunks

theorem Constructed.shrunk (hmade : s.Constructed) : s.Shrunk := by
  obtain ⟨base, num, hinv, hinit⟩ := hmade.grown
  refine ⟨_, hinv, ?_, ?_⟩
  · rw [List.forall_mem_singleton]
    exact fun hne => absurd hinit.symm hne
  · rw [hmade.none, List.map_singleton, List.sum_singleton, taken_grown]
    rfl

theorem shrunk_of_reachable (hreach : (poolMachine.restrict FreesUnits).Reachable s) :
    s.Shrunk := by
  have hinitial : ∀ state, poolMachine.initial state → state.Shrunk :=
    fun _ hmade => Constructed.shrunk hmade
  have hstep : ∀ state op next, state.Shrunk → state.FreesUnits op →
      poolMachine.step state op next → next.Shrunk := by
    rintro state op next ⟨chunks, hinv, hcompact⟩ hallowed hstep
    obtain ⟨chunks', hchunks, hnext, hinit, _⟩ := hinv.step_chunks hstep
    exact ⟨chunks', hnext, hinit ▸ hcompact.step hinv hallowed hchunks⟩
  exact hreach.invariant_restrict hinitial hstep

/-- `_nUnitNum - _nFree` of the block at `base`. -/
def taken (s : PoolState) (base : Nat) : Int :=
  ((s.heap.block base).map fun header => (header.nUnitNum : Int) - header.nFree).getD 0

/-- The block at `base` has all its units free. -/
def Unused (s : PoolState) (base : Nat) : Prop :=
  (s.heap.block base).any fun header => header.nFree = header.nUnitNum

theorem Inv.taken_eq {chunks : List Chunk} (hinv : s.Inv chunks) {chunk : Chunk}
    (hmem : chunk ∈ chunks) : s.taken chunk.base = chunk.taken := by
  obtain ⟨header, hfound, hdescribes, _⟩ := (hinv.stores.holds chunk hmem).found
  rw [PoolState.taken, hfound, Option.map_some, Option.getD_some, hdescribes.unitNum,
    hdescribes.nFree, Chunk.taken]

end PoolState

/-- However units were handed out and freed one by one: in every block of the
list but the initial one there is a live unit, the blocks count as many units as are
live, and once none is live there is only the initial block, unused. -/
theorem pool_shrinks {s : PoolState}
    (hreach : (poolMachine.restrict PoolState.FreesUnits).Reachable s) :
    ∃ blocks, s.ListSafe blocks ∧
      (∀ base ∈ blocks, some base ≠ s.pool.initHead → ∃ p, (p, base) ∈ s.live) ∧
      (blocks.map s.taken).sum = s.live.length ∧
      (s.live = [] → ∃ base, s.pool.initHead = some base ∧ blocks = [base] ∧ s.Unused base) := by
  obtain ⟨chunks, hinv, hoccupied, hbalance⟩ := PoolState.shrunk_of_reachable hreach
  obtain ⟨init, hinitMem, hinit⟩ := hinv.stores.init
  have hsum : ((bases chunks).map s.taken).sum = s.live.length := by
    rw [← hbalance, bases, List.map_map]
    congr 1
    exact List.map_congr_left fun chunk hmem => hinv.taken_eq hmem
  have hlive : ∀ base ∈ bases chunks, some base ≠ s.pool.initHead → ∃ p, (p, base) ∈ s.live := by
    intro base hbase hne
    obtain ⟨chunk, hmem, rfl⟩ := List.mem_map.mp hbase
    obtain ⟨unit, hunit⟩ := Chunk.exists_live (hoccupied chunk hmem hne)
    exact ⟨_, (hinv.live _ _).mpr ⟨chunk, hmem, rfl, unit, hunit, rfl⟩⟩
  refine ⟨bases chunks, ?_, hlive, hsum, ?_⟩
  · exact hinv.listSafe
  · intro hnone
    -- a block other than the initial one would have a live unit
    have honly : ∀ base ∈ bases chunks, base = init := by
      intro base hbase
      by_contra hne
      obtain ⟨p, hp⟩ := hlive base hbase fun hsame => hne (Option.some.inj (hsame.trans hinit))
      rw [hnone] at hp
      cases hp
    have hsingle : bases chunks = [init] := by
      obtain ⟨head, rest, hblocks⟩ := List.exists_cons_of_ne_nil (List.ne_nil_of_mem hinitMem)
      have hnodup := hinv.stores.nodup
      rw [hblocks, List.nodup_cons] at hnodup
      rw [hblocks, List.forall_mem_cons] at honly
      cases rest with
      | nil => rw [hblocks, honly.1]
      | cons second more =>
          have hsecond := honly.2 second List.mem_cons_self
          exact absurd (hsecond.trans honly.1.symm ▸ List.mem_cons_self) hnodup.1
    refine ⟨init, hinit, hsingle, ?_⟩
    obtain ⟨chunk, hmem, rfl⟩ := List.mem_map.mp hinitMem
    obtain ⟨header, hfound, _⟩ := (hinv.stores.holds chunk hmem).found
    rw [hsingle, hnone, List.map_singleton, List.sum_singleton, PoolState.taken, hfound] at hsum
    rw [Option.map_some, Option.getD_some, List.length_nil] at hsum
    rw [PoolState.Unused, hfound, Option.any_some, decide_eq_true_iff]
    omega

/-- A unit was taken and given back. -/
theorem pool_shrinks_after_one : ∃ s : PoolState,
    (poolMachine.restrict PoolState.FreesUnits).Reachable s ∧ s.live = [] ∧
    ∃ base, s.pool.initHead = some base ∧ s.Unused base := by
  obtain ⟨start, hmade, hinv, hlive, hpool, _⟩ := PoolState.exists_small
  have hfree : (grown 4096 1).free = 0 :: [] := rfl
  obtain ⟨one, halloc, hone, hliveOne, hpoolOne, _⟩ := hinv.exists_pop hfree 8192
  have hused : (grown 4096 1).pop.Live 0 := ⟨by decide, List.not_mem_nil⟩
  have hone' : one.Inv ([] ++ (grown 4096 1).pop :: []) := hone
  obtain ⟨two, hfree, _, hliveTwo, _⟩ := hone'.exists_push hused
  have hallocs : start.FreesUnits (.alloc 8192) := trivial
  have hfrees : one.FreesUnits
      (.free (payload one.pool.nUnitSize (grown 4096 1).pop.base 0)) := trivial
  have hreach : (poolMachine.restrict PoolState.FreesUnits).Reachable two :=
    .next (.next (.start hmade) ⟨hallocs, halloc⟩) ⟨hfrees, hfree⟩
  have hnone : two.live = [] := by
    rw [hliveTwo, hliveOne, hlive, hpoolOne]
    exact List.erase_cons_head _ _
  obtain ⟨blocks, _, _, _, hback⟩ := pool_shrinks hreach
  obtain ⟨base, hinit, _, hunused⟩ := hback hnone
  exact ⟨two, hreach, hnone, base, hinit, hunused⟩

end SelectNet
