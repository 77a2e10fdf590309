import SelectNet.CommonLib.PoolUnits
import SelectNet.Foundation.Machine

/-!
# Pools hand out memory once

Runs of one `MemoryPool`: `Alloc`, `Free` of a live pointer, `FreeAll`, and
writes of the users into the payloads they own. Beside the pool and the heap a
run records which pointers are live and which block handed each of them out.
-/

namespace SelectNet

open MemoryPool Heap

structure PoolState where
  pool : MemoryPool
  heap : Heap
  live : List (Nat × Nat)

/-- What happens to a pool. `fresh` is where `operator new` would find memory
for another block. -/
inductive PoolOp where
  | alloc (fresh : Nat)
  | free (p : Nat)
  | freeAll
  | write (p offset : Nat) (cells : List Byte)

namespace PoolState

/-- Bytes of a payload. -/
def payloadSize (s : PoolState) : Nat := s.pool.nUnitSize - 2

inductive Step (s : PoolState) : PoolOp → PoolState → Prop where
  | alloc {fresh p block : Nat} {pool : MemoryPool} {heap : Heap}
      (hgrow : s.pool.CanGrow s.heap fresh)
      (halloc : s.pool.alloc s.heap fresh = some (p, pool, heap))
      (hblock : pool.pBlock = some block) :
      Step s (.alloc fresh) ⟨pool, heap, (p, block) :: s.live⟩
  | free {p block : Nat} {pool : MemoryPool} {heap : Heap} (hlive : (p, block) ∈ s.live)
      (hfree : s.pool.free s.heap p = some (pool, heap)) :
      Step s (.free p) ⟨pool, heap, s.live.erase (p, block)⟩
  | freeAll {fuel : Nat} {heap : Heap} (hfree : s.pool.freeAll fuel s.heap = some heap) :
      Step s .freeAll ⟨s.pool, heap, []⟩
  | write {p block offset : Nat} {cells : List Byte} (hlive : (p, block) ∈ s.live)
      (hinside : offset + cells.length ≤ s.payloadSize) :
      Step s (.write p offset cells) { s with heap := s.heap.write (p + offset) cells }

/-- A pool whose constructor has returned, with unit counts for which the size
of a block fits in an `int`. -/
structure Constructed (s : PoolState) : Prop where
  none : s.live = []
  made : ∃ heap fresh nUnitSize nInitUnitNum nGrowUnitNum,
    MemoryPool.new heap fresh nUnitSize nInitUnitNum nGrowUnitNum = some (s.pool, s.heap) ∧
    heap.Apart ∧
    heap.Fresh fresh (sizeofMemoryBlock + s.pool.nUnitSize * nInitUnitNum) ∧
    nUnitSize < 65536 ∧ nInitUnitNum < 65536 ∧ nGrowUnitNum < 65536 ∧
    nInitUnitNum * s.pool.nUnitSize < 2 ^ 31 ∧ nGrowUnitNum * s.pool.nUnitSize < 2 ^ 31

/-! ## What is safe -/

/-- The free chain of a block: `_nFree` steps from `_nFirst` on. -/
def freeChain (s : PoolState) (base : Nat) (header : MemoryBlock) : List Nat :=
  List.iterate (unitLink s.heap.bytes s.pool.nUnitSize base) header.nFirst header.nFree

/-- Safety of one block of the list. -/
structure BlockSafe (s : PoolState) (base : Nat) (header : MemoryBlock) : Prop where
  distinct : (s.freeChain base header).Nodup
  below : ∀ unit ∈ s.freeChain base header, unit < header.nUnitNum
  notLive : ∀ unit ∈ s.freeChain base header, ∀ block,
    (payload s.pool.nUnitSize base unit, block) ∉ s.live
  /-- No payload overlaps the number in front of a unit. -/
  indices : ∀ unit < header.nUnitNum, ∀ p block, (p, block) ∈ s.live →
    p + s.payloadSize ≤ unitAddr s.pool.nUnitSize base unit ∨
      unitAddr s.pool.nUnitSize base unit + 2 ≤ p

/-- The list of blocks. -/
structure ListSafe (s : PoolState) (blocks : List Nat) : Prop where
  linked : LinkedFrom s.heap.pre s.heap.next none blocks
  acyclic : blocks.Nodup
  head : s.pool.pBlock = blocks.head?
  init : ∃ base, s.pool.initHead = some base ∧ blocks.count base = 1
  block : ∀ base ∈ blocks, ∃ header, s.heap.block base = some header ∧ s.BlockSafe base header

structure Safe (s : PoolState) : Prop where
  blocks : ∃ blocks, s.ListSafe blocks ∧ ∀ p base, (p, base) ∈ s.live → base ∈ blocks
  /-- The arithmetic of `Free` finds the block a pointer came from. -/
  found : ∀ p base, (p, base) ∈ s.live → s.pool.findBlock s.heap p = some base
  inside : ∀ p base, (p, base) ∈ s.live → ∃ header, s.heap.block base = some header ∧
    base + aDataOffset ≤ p ∧
    p + s.payloadSize ≤ base + aDataOffset + header.nUnitSize * header.nUnitNum
  apart : s.live.Pairwise fun one two =>
    one.1 + s.payloadSize ≤ two.1 ∨ two.1 + s.payloadSize ≤ one.1

end PoolState

/-- The runs of a pool. -/
def poolMachine : Machine PoolState PoolOp where
  initial := PoolState.Constructed
  step := PoolState.Step

/-! ## The invariant -/

namespace PoolState

theorem freeAll_unique {pool : MemoryPool} {heap one two : Heap} {fuel fuel' : Nat}
    (hone : pool.freeAll fuel heap = some one) (htwo : pool.freeAll fuel' heap = some two) :
    two = one := by
  rw [freeAll, Option.join_eq_some_iff] at hone htwo
  exact Option.some.inj (Loop.Yields.unique ⟨fuel', htwo⟩ ⟨fuel, hone⟩)

variable {s next : PoolState}

/-- The blocks hold some chunks, and the live pointers are what these have
handed out. -/
structure Inv (s : PoolState) (chunks : List Chunk) : Prop where
  stores : s.pool.Stores s.heap chunks
  live : ∀ p base, (p, base) ∈ s.live ↔ Used s.pool.nUnitSize chunks p base
  once : (s.live.map Prod.fst).Nodup

/-- The state is that of a pool of some chunks. -/
def Explained (s : PoolState) : Prop := ∃ chunks, s.Inv chunks

theorem Constructed.explained (hmade : s.Constructed) : s.Explained := by
  obtain ⟨hnone, heap, fresh, nUnitSize, nInitUnitNum, nGrowUnitNum, hnew, hapart, hfresh, _, hinit,
    hgrow, _, hproduct⟩ := hmade
  have hunitSize : s.pool.nUnitSize = (nUnitSize + 2) % 65536 := nUnitSize_of_new hnew
  rw [hunitSize] at hfresh hproduct
  obtain ⟨hstores, _⟩ := new_spec hnew hapart hfresh hinit hgrow hproduct
  refine ⟨[grown fresh nInitUnitNum], hstores, ?_, ?_⟩
  · intro p base
    rw [hnone, used_grown_iff]
    constructor
    · intro hmem
      cases hmem
    · rintro ⟨_, hmem, _⟩
      cases hmem
  · rw [hnone]
    exact List.nodup_nil

/-- `Alloc` returns; what it returns was not live. -/
theorem Inv.alloc {chunks : List Chunk} (hinv : s.Inv chunks) {fresh : Nat}
    (hgrow : s.pool.CanGrow s.heap fresh) :
    ∃ p block pool heap chunks', s.pool.alloc s.heap fresh = some (p, pool, heap) ∧
      pool.pBlock = some block ∧ (∀ other, (p, other) ∉ s.live) ∧
      Inv ⟨pool, heap, (p, block) :: s.live⟩ chunks' := by
  obtain ⟨p, block, chunks', _, hhanded, _, hrun⟩ := alloc_spec hinv.stores hgrow
  obtain ⟨heap, halloc, hstores, _⟩ := hrun s.heap hinv.stores rfl
  have hnew : ∀ other, (p, other) ∉ s.live := by
    intro other hlive
    exact hhanded.notUsed other ((hinv.live p other).mp hlive)
  refine ⟨p, block, _, heap, chunks', halloc, rfl, hnew, hstores, ?_, ?_⟩
  · intro q base
    rw [List.mem_cons, Prod.mk.injEq, hinv.live]
    exact (hhanded.used q base).symm
  · refine List.nodup_cons.mpr ⟨?_, hinv.once⟩
    intro hmem
    obtain ⟨⟨_, other⟩, hlive, rfl⟩ := List.mem_map.mp hmem
    exact hnew other hlive

/-- `Free` of a live pointer returns. -/
theorem Inv.free {chunks : List Chunk} (hinv : s.Inv chunks) {p block : Nat}
    (hlive : (p, block) ∈ s.live) :
    ∃ pool heap chunks', s.pool.free s.heap p = some (pool, heap) ∧
      Inv ⟨pool, heap, s.live.erase (p, block)⟩ chunks' := by
  have hused := (hinv.live p block).mp hlive
  obtain ⟨head, chunks', _, hafter, _, hrun⟩ := free_of_used hinv.stores hused
  obtain ⟨heap, hfree, hstores, _⟩ := hrun s.heap hinv.stores rfl
  refine ⟨_, heap, chunks', hfree, hstores, ?_, ?_⟩
  · intro q base
    rw [(hinv.once.of_map _).mem_erase_iff, and_comm, hafter, ← hinv.live]
    apply and_congr_right
    intro hlive'
    -- a pointer comes from one block, so the pair that is taken out is the only one with it
    rw [not_iff_not, Prod.mk.injEq, and_iff_left_iff_imp]
    rintro rfl
    exact hinv.stores.used_unique ((hinv.live _ _).mp hlive') hused
  · exact hinv.once.sublist (List.erase_sublist.map Prod.fst)

/-- `FreeAll` ends. -/
theorem Inv.freeAll {chunks : List Chunk} (hinv : s.Inv chunks) :
    ∃ fuel heap, s.pool.freeAll fuel s.heap = some heap ∧
      Inv ⟨s.pool, heap, []⟩ (chunks.map Chunk.reset) := by
  obtain ⟨fuel, heap, hrun, hstores, _⟩ := freeAll_spec hinv.stores
  refine ⟨fuel, heap, hrun, hstores, ?_, List.nodup_nil⟩
  intro p base
  rw [iff_false_right not_used_reset]
  exact List.not_mem_nil

/-- Writing into an own payload is not noticed. -/
theorem Inv.write {chunks : List Chunk} (hinv : s.Inv chunks) {p block offset : Nat}
    {cells : List Byte} (hlive : (p, block) ∈ s.live)
    (hinside : offset + cells.length ≤ s.payloadSize) :
    Inv { s with heap := s.heap.write (p + offset) cells } chunks := by
  obtain ⟨chunk, hmem, rfl, unit, hunit, rfl⟩ := (hinv.live _ _).mp hlive
  refine ⟨hinv.stores.write hmem hunit (Nat.le_add_right _ _) ?_, hinv.live, hinv.once⟩
  have hsize := hinv.stores.sized.unitSize
  rw [payloadSize] at hinside
  rw [payload]
  omega

/-- Every step keeps the invariant, with other chunks. -/
theorem Inv.step {chunks : List Chunk} {op : PoolOp} (hinv : s.Inv chunks)
    (hstep : s.Step op next) : next.Explained := by
  cases hstep with
  | alloc hgrow halloc hblock =>
      obtain ⟨p', block', pool', heap', chunks', halloc', hblock', _, hnext⟩ := hinv.alloc hgrow
      rw [halloc, Option.some.injEq, Prod.mk.injEq, Prod.mk.injEq] at halloc'
      obtain ⟨rfl, rfl, rfl⟩ := halloc'
      obtain rfl := Option.some.inj (hblock.symm.trans hblock')
      exact ⟨chunks', hnext⟩
  | free hlive hfree =>
      obtain ⟨pool', heap', chunks', hfree', hnext⟩ := hinv.free hlive
      rw [hfree, Option.some.injEq, Prod.mk.injEq] at hfree'
      obtain ⟨rfl, rfl⟩ := hfree'
      exact ⟨chunks', hnext⟩
  | freeAll hfree =>
      obtain ⟨fuel, heap', hfree', hnext⟩ := hinv.freeAll
      exact ⟨_, freeAll_unique hfree hfree' ▸ hnext⟩
  | write hlive hinside => exact ⟨chunks, hinv.write hlive hinside⟩

theorem explained_of_reachable (hreach : poolMachine.Reachable s) : s.Explained := by
  have hinitial : ∀ state, poolMachine.initial state → state.Explained :=
    fun _ hmade => Constructed.explained hmade
  have hstep : ∀ state op next, state.Explained → poolMachine.step state op next →
      next.Explained := by
    rintro state op next ⟨chunks, hinv⟩ hstep
    exact hinv.step hstep
  exact hreach.invariant hinitial hstep

/-- The chain of a block runs through the free units of its chunk. -/
theorem Inv.blockSafe {chunks : List Chunk} (hinv : s.Inv chunks) {chunk : Chunk}
    (hmem : chunk ∈ chunks) :
    ∃ header, s.heap.block chunk.base = some header ∧ s.BlockSafe chunk.base header := by
  obtain ⟨header, hfound, hdescribes, hchain⟩ := (hinv.stores.holds chunk hmem).found
  have hvalid := hinv.stores.valid chunk hmem
  have hfree : s.freeChain chunk.base header = chunk.free := by
    rw [freeChain, hdescribes.nFree, hchain]
  refine ⟨header, hfound, ?_, ?_, ?_, ?_⟩
  · rw [hfree]
    exact hvalid.nodup
  · rw [hfree, hdescribes.unitNum]
    exact hvalid.below
  · rw [hfree]
    intro unit hunit block hlive
    obtain ⟨owner, howner, _, unit', hlive', hsame⟩ := (hinv.live _ _).mp hlive
    subst block
    obtain ⟨rfl, rfl⟩ := hinv.stores.payload_inj hmem howner (hvalid.below unit hunit)
      hlive'.1 hsame
    exact hlive'.2 hunit
  · rw [hdescribes.unitNum]
    intro unit hunit p block hlive
    exact hinv.stores.payload_apart_index ((hinv.live _ _).mp hlive) hmem hunit

/-- The list of blocks is that of the chunks. -/
theorem Inv.listSafe {chunks : List Chunk} (hinv : s.Inv chunks) : s.ListSafe (bases chunks) where
  linked := hinv.stores.linked
  acyclic := hinv.stores.nodup
  head := hinv.stores.head
  init := by
    obtain ⟨base, hbase, hinit⟩ := hinv.stores.init
    exact ⟨base, hinit, List.count_eq_one_of_mem hinv.stores.nodup hbase⟩
  block := by
    intro base hbase
    obtain ⟨chunk, hmem, rfl⟩ := List.mem_map.mp hbase
    exact hinv.blockSafe hmem

/-- The invariant makes a pool safe. -/
theorem Inv.safe {chunks : List Chunk} (hinv : s.Inv chunks) : s.Safe where
  blocks := by
    refine ⟨bases chunks, hinv.listSafe, ?_⟩
    intro p base hlive
    obtain ⟨chunk, hmem, rfl, _⟩ := (hinv.live _ _).mp hlive
    exact mem_bases hmem
  found := fun p base hlive => hinv.stores.findBlock_of_used ((hinv.live _ _).mp hlive)
  inside := fun p base hlive => hinv.stores.payload_inside ((hinv.live _ _).mp hlive)
  apart := by
    apply (List.Nodup.pairwise_of_forall_ne hinv.once.of_map)
    rintro ⟨p, base⟩ hone ⟨q, base'⟩ htwo hne
    apply hinv.stores.payloads_apart ((hinv.live _ _).mp hone) ((hinv.live _ _).mp htwo)
    rintro rfl
    exact hne (Prod.ext rfl
      (hinv.stores.used_unique ((hinv.live _ _).mp hone) ((hinv.live _ _).mp htwo)))

end PoolState

/-- Whatever has happened to a pool, it is safe; `Alloc` returns a pointer that
was not live, after which the pool is safe as well; `Free` of a live pointer
and `FreeAll` return. -/
theorem pool_safe {s : PoolState} (hreach : poolMachine.Reachable s) :
    s.Safe ∧
    (∀ fresh, s.pool.CanGrow s.heap fresh → ∃ p block pool heap,
      s.pool.alloc s.heap fresh = some (p, pool, heap) ∧ pool.pBlock = some block ∧
      (∀ other, (p, other) ∉ s.live) ∧ PoolState.Safe ⟨pool, heap, (p, block) :: s.live⟩) ∧
    (∀ p block, (p, block) ∈ s.live → ∃ pool heap, s.pool.free s.heap p = some (pool, heap)) ∧
    ∃ fuel heap, s.pool.freeAll fuel s.heap = some heap := by
  obtain ⟨chunks, hinv⟩ := PoolState.explained_of_reachable hreach
  refine ⟨hinv.safe, ?_, ?_, ?_⟩
  · intro fresh hgrow
    obtain ⟨p, block, pool, heap, _, halloc, hblock, hnew, hnext⟩ := hinv.alloc hgrow
    exact ⟨p, block, pool, heap, halloc, hblock, hnew, hnext.safe⟩
  · intro p block hlive
    obtain ⟨pool, heap, _, hfree, _⟩ := hinv.free hlive
    exact ⟨pool, heap, hfree⟩
  · obtain ⟨fuel, heap, hfree, _⟩ := hinv.freeAll
    exact ⟨fuel, heap, hfree⟩

/-- A pool of eight-byte units that has handed out one of them. -/
theorem pool_safe_first : ∃ s : PoolState, poolMachine.Reachable s ∧ s.live = [(4138, 4096)] ∧
    s.Safe := by
  obtain ⟨pool, heap, pool', heap', hnew, halloc, hblock, hunitSize, hhead, hfree⟩ :
      ∃ pool heap pool' heap', MemoryPool.new ⟨fun _ => none, fun _ => 0⟩ 4096 8 2 2 =
        some (pool, heap) ∧ pool.alloc heap 8192 = some (4138, pool', heap') ∧
        pool'.pBlock = some 4096 ∧ pool.nUnitSize = 10 ∧ pool.pBlock = some 4096 ∧
        (heap.block 4096).map MemoryBlock.nFree = some 2 :=
    ⟨_, _, _, _, rfl, rfl, rfl, rfl, rfl, rfl⟩
  have hmade : PoolState.Constructed ⟨pool, heap, []⟩ := by
    refine ⟨rfl, _, 4096, 8, 2, 2, hnew, ?_, ?_, by decide, by decide, by decide, ?_, ?_⟩
    · intro _ _ _ _ hnone
      cases hnone
    · refine ⟨by decide, ?_, rfl, ?_⟩
      · rw [hunitSize]
        decide
      · intro _ _ hnone
        cases hnone
    · rw [hunitSize]
      decide
    · rw [hunitSize]
      decide
  have hgrow : pool.CanGrow heap 8192 := by
    rintro ⟨head, header, hpBlock, hfound, hfull⟩
    obtain rfl := Option.some.inj (hhead.symm.trans hpBlock)
    rw [hfound, Option.map_some, Option.some.injEq, hfull] at hfree
    cases hfree
  have hreach : poolMachine.Reachable ⟨pool', heap', [(4138, 4096)]⟩ :=
    .next (.start hmade) (.alloc hgrow halloc hblock)
  exact ⟨_, hreach, rfl, (pool_safe hreach).1⟩

end SelectNet
