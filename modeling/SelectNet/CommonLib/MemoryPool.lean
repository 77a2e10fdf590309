import SelectNet.CommonLib.MemoryBlock
import SelectNet.Foundation.Loop

/-!
# Memory pools

`MemoryPool`: a doubly linked list of blocks that keeps one with free units in
front where it can. What a pool does to its blocks is stated over the chunks
they hold. Memory for a new block comes from outside; its address is an
argument of `alloc`.
-/

namespace SelectNet

structure MemoryPool where
  pBlock : Option Nat
  initHead : Option Nat
  nUnitSize : Nat
  nInitUnitNum : Nat
  nGrowUnitNum : Nat

namespace MemoryPool

/-- The constructor. `nUnitSize + 2` is stored as a `USHORT`. -/
def new (heap : Heap) (fresh nUnitSize nInitUnitNum nGrowUnitNum : Nat) :
    Option (MemoryPool × Heap) := do
  let unitSize := (nUnitSize + 2) % 65536
  guard (4 ≤ unitSize)
  guard (1 ≤ nInitUnitNum)
  guard (1 ≤ nGrowUnitNum)
  let heap ← heap.newBlock fresh unitSize nInitUnitNum
  some ({ pBlock := some fresh, initHead := some fresh, nUnitSize := unitSize,
          nInitUnitNum, nGrowUnitNum }, heap)

/-- `block` becomes the predecessor of the head. -/
def pushFront (heap : Heap) (head block : Nat) : Option Heap := do
  let heap ← heap.modify block fun header => { header with pNext := some head, pPre := none }
  heap.modify head fun header => { header with pPre := some block }

/-- The neighbours of `block` are made to point at each other. -/
def unlink (heap : Heap) (pre block : Nat) : Option Heap := do
  let header ← heap.block block
  let heap ← heap.modify pre fun preHeader => { preHeader with pNext := header.pNext }
  let header ← heap.block block
  match header.pNext with
  | none => some heap
  | some next => heap.modify next fun nextHeader => { nextHeader with pPre := header.pPre }

def alloc (pool : MemoryPool) (heap : Heap) (fresh : Nat) :
    Option (Nat × MemoryPool × Heap) := do
  let head ← pool.pBlock
  let header ← heap.block head
  if 0 < header.nFree then
    let (p, heap) ← heap.popUnit head
    some (p, pool, heap)
  else
    let heap ← heap.newBlock fresh pool.nUnitSize pool.nGrowUnitNum
    let heap ← pushFront heap head fresh
    let (p, heap) ← heap.popUnit fresh
    some (p, { pool with pBlock := some fresh }, heap)

/-- The address arithmetic at the start of `Free`, with its assertion. -/
def findBlock (pool : MemoryPool) (heap : Heap) (p : Nat) : Option Nat := do
  let addrVal := wrap ((p : Int) - 2)
  let unitIdx := heap.loadUShort addrVal
  let offset ← intMul unitIdx pool.nUnitSize
  let blockAddr := wrap ((addrVal : Int) - offset - 8)
  let freeBlock ← heap.loadThis blockAddr
  freeBlock

/-- `Free`, once the unit is back in its block: the block is given back if it
is unused, or moved to the front if the head is used up. -/
def settle (pool : MemoryPool) (heap : Heap) (freeBlock : Nat) : Option (MemoryPool × Heap) := do
  let header ← heap.block freeBlock
  if header.nFree = header.nUnitNum ∧ some freeBlock ≠ pool.initHead then
    match header.pPre with
    | some pre =>
        let heap ← unlink heap pre freeBlock
        some (pool, heap.delete freeBlock)
    | none =>
        let next ← header.pNext
        let heap ← heap.modify next fun header => { header with pPre := none }
        some ({ pool with pBlock := some next }, heap.delete freeBlock)
  else
    let head ← pool.pBlock
    let headHeader ← heap.block head
    match header.pPre with
    | some pre =>
        if headHeader.nFree ≤ 0 then
          let heap ← unlink heap pre freeBlock
          let heap ← pushFront heap head freeBlock
          some ({ pool with pBlock := some freeBlock }, heap)
        else some (pool, heap)
    | none => some (pool, heap)

def free (pool : MemoryPool) (heap : Heap) (p : Nat) : Option (MemoryPool × Heap) := do
  let freeBlock ← pool.findBlock heap p
  let heap ← heap.pushUnit freeBlock p
  pool.settle heap freeBlock

/-- One pass of the loop of `FreeAll`, at `curBlock`. -/
def freeAllPass : Heap × Option Nat → Pass (Heap × Option Nat) (Option Heap)
  | (heap, none) => .leave (some heap)
  | (heap, some curBlock) =>
      match heap.reset curBlock with
      | none => .leave none
      | some heap =>
          match heap.block curBlock with
          | none => .leave none
          | some header => .again (heap, header.pNext)

def freeAll (fuel : Nat) (pool : MemoryPool) (heap : Heap) : Option Heap :=
  (Loop.run freeAllPass fuel (heap, pool.pBlock)).join

end MemoryPool

/-! ## Changing links -/

/-- Only the links between blocks differ. -/
structure Heap.Relinked (heap heap' : Heap) : Prop where
  bytes : heap'.bytes = heap.bytes
  headers : ∀ base, heap'.block base = (heap.block base).map fun header =>
    { header with pPre := heap'.pre base, pNext := heap'.next base }
  sizes : heap'.sizes = heap.sizes

namespace Heap

variable {heap heap' heap'' : Heap} {base other : Nat} {header : MemoryBlock} {unitSize : Nat}
  {chunk : Chunk}

theorem pre_setBlock (heap : Heap) (base other : Nat) (header : MemoryBlock) :
    (heap.setBlock base header).pre other =
      if other = base then header.pPre else heap.pre other := by
  rw [Heap.pre, Heap.pre]
  split
  next hsame => rw [hsame, block_setBlock, Option.bind_some]
  next hne => rw [block_setBlock_of_ne header hne]

theorem next_setBlock (heap : Heap) (base other : Nat) (header : MemoryBlock) :
    (heap.setBlock base header).next other =
      if other = base then header.pNext else heap.next other := by
  rw [Heap.next, Heap.next]
  split
  next hsame => rw [hsame, block_setBlock, Option.bind_some]
  next hne => rw [block_setBlock_of_ne header hne]

theorem pre_of_found (hfound : heap.block base = some header) : heap.pre base = header.pPre := by
  rw [Heap.pre, hfound, Option.bind_some]

theorem next_of_found (hfound : heap.block base = some header) :
    heap.next base = header.pNext := by
  rw [Heap.next, hfound, Option.bind_some]

/-- A block that exists keeps its size when its header is replaced by one for
the same units. -/
theorem sizes_setBlock (hfound : heap.block base = some header) {header' : MemoryBlock}
    (hunitSize : header'.nUnitSize = header.nUnitSize)
    (hunitNum : header'.nUnitNum = header.nUnitNum) :
    (heap.setBlock base header').sizes = heap.sizes := by
  funext other
  rw [sizes, sizes, setBlock_allocs, Function.update_apply]
  split
  next hsame =>
    rw [hsame, block_eq_some_iff.mp hfound, Option.map_some, Option.map_some, Allocation.size,
      Allocation.size, hunitSize, hunitNum]
  next => rfl

theorem Relinked.of_links (hfound : heap.block base = some header) (pPre pNext : Option Nat) :
    Relinked heap (heap.setBlock base { header with pPre, pNext }) where
  bytes := rfl
  headers := by
    intro other
    rw [pre_setBlock, next_setBlock]
    by_cases hsame : other = base
    · subst hsame
      rw [block_setBlock, hfound, Option.map_some, if_pos rfl, if_pos rfl]
    · rw [block_setBlock_of_ne _ hsame, if_neg hsame, if_neg hsame]
      cases hother : heap.block other with
      | none => rfl
      | some otherHeader => rw [Option.map_some, pre_of_found hother, next_of_found hother]
  sizes := sizes_setBlock hfound rfl rfl

theorem Relinked.trans (hfirst : Relinked heap heap') (hsecond : Relinked heap' heap'') :
    Relinked heap heap'' where
  bytes := hsecond.bytes.trans hfirst.bytes
  headers := by
    intro base
    rw [hsecond.headers, hfirst.headers, Option.map_map]
    rfl
  sizes := hsecond.sizes.trans hfirst.sizes

/-- A block holds the same chunk whatever its links are. -/
theorem Relinked.holds (hrelinked : Relinked heap heap') (hholds : heap.Holds unitSize chunk) :
    heap'.Holds unitSize chunk := by
  obtain ⟨header, hfound, hdescribes, hchain⟩ := hholds.found
  refine ⟨⟨{ header with pPre := heap'.pre chunk.base, pNext := heap'.next chunk.base },
    ?_, ?_, ?_⟩, ?_⟩
  · rw [hrelinked.headers, hfound, Option.map_some]
  · exact ⟨hdescribes.this, hdescribes.unitSize, hdescribes.unitNum, hdescribes.nFree⟩
  · rw [hrelinked.bytes]
    exact hchain
  · rw [hrelinked.bytes]
    exact hholds.index

theorem delete_holds (hholds : heap.Holds unitSize chunk) (hne : chunk.base ≠ base) :
    (heap.delete base).Holds unitSize chunk := by
  apply hholds.congr (block_congr (delete_allocs_of_ne hne))
  · intro unit _
    rfl
  · intro unit _
    rfl

end Heap

namespace MemoryPool

open Heap

variable {heap : Heap}

theorem pushFront_spec {head block : Nat} {headHeader header : MemoryBlock}
    (hhead : heap.block head = some headHeader) (hblock : heap.block block = some header)
    (hne : head ≠ block) :
    ∃ heap', pushFront heap head block = some heap' ∧ Relinked heap heap' ∧
      (∀ other, heap'.pre other =
        if other = block then none else if other = head then some block else heap.pre other) ∧
      (∀ other, heap'.next other = if other = block then some head else heap.next other) ∧
      ∀ other, other ≠ head → other ≠ block → heap'.allocs other = heap.allocs other := by
  obtain ⟨middle, hmiddle⟩ : ∃ middle, middle =
    heap.setBlock block { header with pNext := some head, pPre := none } := ⟨_, rfl⟩
  have hhead' : middle.block head = some headHeader := by
    rw [hmiddle, block_setBlock_of_ne _ hne, hhead]
  refine ⟨middle.setBlock head { headHeader with pPre := some block }, ?_, ?_, ?_, ?_, ?_⟩
  · rw [pushFront, modify_of_found hblock, Option.bind_eq_bind, Option.bind_some, ← hmiddle,
      modify_of_found hhead']
  · have hfirst : Relinked heap middle := hmiddle ▸ Relinked.of_links hblock none (some head)
    exact hfirst.trans (Relinked.of_links hhead' (some block) headHeader.pNext)
  · intro other
    rw [pre_setBlock, hmiddle, pre_setBlock]
    by_cases hsame : other = block
    · rw [if_neg (hsame ▸ hne.symm), if_pos hsame, if_pos hsame]
    · simp only [hsame, if_false]
  · intro other
    rw [next_setBlock]
    split
    next hsame => rw [hsame, if_neg hne, ← next_of_found hhead]
    next => rw [hmiddle, next_setBlock]
  · intro other hother hother'
    rw [setBlock_allocs, Function.update_of_ne hother, hmiddle, setBlock_allocs,
      Function.update_of_ne hother']

theorem unlink_spec {pre block : Nat} {preHeader header : MemoryBlock}
    (hpre : heap.block pre = some preHeader) (hblock : heap.block block = some header)
    (hpPre : header.pPre = some pre) (hne : pre ≠ block)
    (hnext : ∀ next, header.pNext = some next →
      next ≠ block ∧ ∃ found, heap.block next = some found) :
    ∃ heap', unlink heap pre block = some heap' ∧ Relinked heap heap' ∧
      (∀ other, heap'.pre other =
        if heap.next block = some other then heap.pre block else heap.pre other) ∧
      (∀ other, heap'.next other =
        if heap.pre block = some other then heap.next block else heap.next other) ∧
      ∀ other, heap.pre block ≠ some other → heap.next block ≠ some other →
        heap'.allocs other = heap.allocs other := by
  -- `pre->pNext = block->pNext` comes first
  obtain ⟨middle, hmiddle⟩ : ∃ middle, middle =
    heap.setBlock pre { preHeader with pNext := header.pNext } := ⟨_, rfl⟩
  have hfirst : Relinked heap middle := hmiddle ▸ Relinked.of_links hpre preHeader.pPre header.pNext
  have hblock' : middle.block block = some header := by
    rw [hmiddle, block_setBlock_of_ne _ hne.symm, hblock]
  have hpreEq : ∀ other, middle.pre other = heap.pre other := by
    intro other
    rw [hmiddle, pre_setBlock]
    split
    next hsame => rw [hsame, pre_of_found hpre]
    next => rfl
  have hnextEq : ∀ other, middle.next other =
      if other = pre then header.pNext else heap.next other := by
    intro other
    rw [hmiddle, next_setBlock]
  have hothers : ∀ other, other ≠ pre → middle.allocs other = heap.allocs other := by
    intro other hother
    rw [hmiddle, setBlock_allocs, Function.update_of_ne hother]
  have hrun : unlink heap pre block = match header.pNext with
      | none => some middle
      | some next => middle.modify next fun nextHeader =>
        { nextHeader with pPre := header.pPre } := by
    simp only [unlink, hblock, Option.bind_eq_bind, Option.bind_some, modify_of_found hpre,
      ← hmiddle, hblock']
  rw [pre_of_found hblock, next_of_found hblock, hpPre]
  cases hafter : header.pNext with
  | none =>
      refine ⟨middle, ?_, hfirst, ?_, ?_, ?_⟩
      · rw [hrun, hafter]
      · intro other
        rw [if_neg (by simp), hpreEq]
      · intro other
        simp only [hnextEq, Option.some.injEq, eq_comm (a := pre), hafter]
      · intro other hother _
        exact hothers other (fun hsame => hother (congrArg some hsame.symm))
  | some next =>
      -- then `pNext->pPre = pre`, if there is a next block
      obtain ⟨hnextNe, nextHeader, hfound⟩ := hnext next hafter
      obtain ⟨nextHeader', hfound'⟩ : ∃ nextHeader', middle.block next = some nextHeader' := by
        rw [hfirst.headers, hfound]
        exact ⟨_, rfl⟩
      refine ⟨middle.setBlock next { nextHeader' with pPre := some pre }, ?_, ?_, ?_, ?_, ?_⟩
      · rw [hrun, hafter, hpPre]
        exact modify_of_found hfound' _
      · exact hfirst.trans (Relinked.of_links hfound' (some pre) nextHeader'.pNext)
      · intro other
        rw [pre_setBlock, hpreEq]
        simp only [Option.some.injEq, eq_comm (a := next)]
      · intro other
        rw [next_setBlock, ← next_of_found hfound', hnextEq, hnextEq]
        simp only [Option.some.injEq, eq_comm (a := pre), hafter]
        split
        next hsame => rw [hsame]
        next => rfl
      · intro other hother hother'
        have hne' : other ≠ next := fun hsame => hother' (congrArg some hsame.symm)
        rw [setBlock_allocs, Function.update_of_ne hne',
          hothers other (fun hsame => hother (congrArg some hsame.symm))]

end MemoryPool

end SelectNet
