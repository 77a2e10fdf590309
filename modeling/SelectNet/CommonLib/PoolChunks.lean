import Mathlib.Data.Option.Basic
import SelectNet.CommonLib.MemoryPool

/-!
# A pool and its chunks

What `Alloc`, `Free` and `FreeAll` do, said about the list of chunks that the
blocks of a pool hold. The operations of the code are shown to follow it.
-/

namespace SelectNet

/-- Where the blocks are. -/
def bases (chunks : List Chunk) : List Nat := chunks.map Chunk.base

/-- The chunks after a unit came back to `chunk`: an unused one is dropped,
unless it is the initial one; else it goes to the front if the one in front is
used up. -/
def settled (initHead : Option Nat) (front : List Chunk) (chunk : Chunk) (back : List Chunk) :
    List Chunk :=
  if chunk.free.length = chunk.num ∧ some chunk.base ≠ initHead then front ++ back
  else match front with
    | [] => chunk :: back
    | head :: rest =>
        if head.free = [] then chunk :: (head :: rest ++ back) else head :: rest ++ chunk :: back

/-- What stays allocated then. -/
def settledSizes (initHead : Option Nat) (chunk : Chunk) (sizes : Nat → Option Nat) :
    Nat → Option Nat :=
  if chunk.free.length = chunk.num ∧ some chunk.base ≠ initHead then
    Function.update sizes chunk.base none
  else sizes

/-- A block that has just been made. -/
def grown (base num : Nat) : Chunk := ⟨base, num, List.range num⟩

@[simp] theorem bases_append (front back : List Chunk) :
    bases (front ++ back) = bases front ++ bases back := List.map_append

@[simp] theorem bases_cons (chunk : Chunk) (rest : List Chunk) :
    bases (chunk :: rest) = chunk.base :: bases rest := rfl

theorem bases_middle (front : List Chunk) (chunk : Chunk) (back : List Chunk) :
    (bases (front ++ chunk :: back)).Perm (bases (chunk :: (front ++ back))) :=
  List.perm_middle.map Chunk.base

theorem mem_middle {front back : List Chunk} {other : Chunk} (hmem : other ∈ front ++ back)
    (chunk : Chunk) : other ∈ front ++ chunk :: back :=
  List.perm_middle.mem_iff.mpr (List.mem_cons_of_mem _ hmem)

theorem notMem_bases_middle {front back : List Chunk} {chunk : Chunk} {base : Nat} :
    base ∉ bases (front ++ chunk :: back) ↔
      base ≠ chunk.base ∧ base ∉ bases (front ++ back) := by
  rw [(bases_middle _ _ _).mem_iff, bases_cons, List.mem_cons, not_or]

theorem mem_bases {chunks : List Chunk} {chunk : Chunk} (hmem : chunk ∈ chunks) :
    chunk.base ∈ bases chunks := List.mem_map_of_mem hmem

theorem mem_of_mem_settled {initHead : Option Nat} {front back : List Chunk} {chunk other : Chunk}
    (hmem : other ∈ settled initHead front chunk back) : other ∈ front ++ chunk :: back := by
  unfold settled at hmem
  split at hmem
  next => exact mem_middle hmem chunk
  next =>
    split at hmem
    next => exact hmem
    next =>
      split at hmem
      next => exact List.perm_middle.mem_iff.mpr hmem
      next => exact hmem

namespace MemoryPool

open Heap

/-- The sizes a pool was made with. -/
structure Sized (pool : MemoryPool) : Prop where
  unitSize : 4 ≤ pool.nUnitSize
  growPos : 0 < pool.nGrowUnitNum
  growLt : pool.nGrowUnitNum < 65536
  growProduct : pool.nGrowUnitNum * pool.nUnitSize < 2 ^ 31

/-- The blocks of the pool, in the order of its list, hold these chunks. -/
structure Stores (pool : MemoryPool) (heap : Heap) (chunks : List Chunk) : Prop where
  sized : pool.Sized
  apart : heap.Apart
  linked : LinkedFrom heap.pre heap.next none (bases chunks)
  nodup : (bases chunks).Nodup
  head : pool.pBlock = (bases chunks).head?
  init : ∃ base ∈ bases chunks, pool.initHead = some base
  holds : ∀ chunk ∈ chunks, heap.Holds pool.nUnitSize chunk
  valid : ∀ chunk ∈ chunks, chunk.Valid pool.nUnitSize

variable {pool : MemoryPool} {heap heap' : Heap} {chunks front back rest : List Chunk}
  {chunk chunk' : Chunk} {unit fresh : Nat}

namespace Stores

/-- No block is in the list twice. -/
theorem nodup_middle (hstores : pool.Stores heap (front ++ chunk :: back)) :
    chunk.base ∉ bases (front ++ back) ∧ (bases (front ++ back)).Nodup := by
  have hnodup := hstores.nodup
  rwa [bases_append, bases_cons, List.nodup_middle, ← bases_append, List.nodup_cons] at hnodup

theorem base_ne (hstores : pool.Stores heap (front ++ chunk :: back)) {other : Chunk}
    (hother : other ∈ front ++ back) : other.base ≠ chunk.base := by
  intro hsame
  exact hstores.nodup_middle.1 (hsame ▸ mem_bases hother)

theorem allocated (hstores : pool.Stores heap chunks) (hmem : chunk ∈ chunks) :
    ∃ header, heap.allocs chunk.base = some (.block header) ∧
      Allocation.size (.block header) = sizeofMemoryBlock + pool.nUnitSize * chunk.num :=
  (hstores.holds chunk hmem).size_le

/-- What an allocation and the chunks of a pool have in common. -/
theorem apart_of_ne (hstores : pool.Stores heap chunks) (hmem : chunk ∈ chunks) {other : Nat}
    (hne : other ≠ chunk.base) (alloc : Allocation) (hfound : heap.allocs other = some alloc) :
    chunk.base + (sizeofMemoryBlock + pool.nUnitSize * chunk.num) ≤ other ∨
      other + alloc.size ≤ chunk.base := by
  obtain ⟨header, hheader, hsize⟩ := hstores.allocated hmem
  rw [← hsize]
  exact hstores.apart _ _ _ _ hheader hfound (Ne.symm hne)

/-- A change that keeps the blocks of a pool does not concern it. -/
theorem of_kept (hstores : pool.Stores heap chunks)
    (hkept : ∀ base ∈ bases chunks, Kept heap heap' base) (hapart : heap'.Apart) :
    pool.Stores heap' chunks where
  sized := hstores.sized
  apart := hapart
  linked := by
    apply hstores.linked.congr
    · intro base hbase
      rw [Heap.pre, Heap.pre, (hkept base hbase).block]
    · intro base hbase
      rw [Heap.next, Heap.next, (hkept base hbase).block]
  nodup := hstores.nodup
  head := hstores.head
  init := hstores.init
  holds := fun chunk hmem => (hstores.holds chunk hmem).of_kept (hstores.valid chunk hmem)
    hstores.sized.unitSize (hkept _ (mem_bases hmem))
  valid := hstores.valid

/-- What is about to be allocated is not a block of the pool. -/
theorem fresh_notMem (hstores : pool.Stores heap chunks) {size : Nat}
    (hfresh : Fresh heap fresh size) : fresh ∉ bases chunks := by
  intro hmem
  obtain ⟨chunk, hchunk, rfl⟩ := List.mem_map.mp hmem
  obtain ⟨_, hfound, _⟩ := hstores.allocated hchunk
  rw [hfresh.unused] at hfound
  cases hfound

/-- One block is used differently, all others are as before. -/
theorem replace (hstores : pool.Stores heap (front ++ chunk :: back))
    (hbase : chunk'.base = chunk.base) (hholds : heap'.Holds pool.nUnitSize chunk')
    (hvalid : chunk'.Valid pool.nUnitSize) (hrecounted : Recounted heap heap' chunk.base)
    (hkept : ∀ other, other ≠ chunk.base → Kept heap heap' other) :
    pool.Stores heap' (front ++ chunk' :: back) := by
  have hbases : bases (front ++ chunk' :: back) = bases (front ++ chunk :: back) := by
    rw [bases_append, bases_append, bases_cons, bases_cons, hbase]
  have hother : ∀ other ∈ front ++ chunk' :: back, other ≠ chunk' → other ∈ front ++ back := by
    intro other hmem hne
    exact (List.mem_cons.mp (List.perm_middle.mem_iff.mp hmem)).resolve_left hne
  have hold : ∀ other ∈ front ++ back, other ∈ front ++ chunk :: back := fun other hmem =>
    mem_middle hmem chunk
  refine ⟨hstores.sized, hstores.apart.of_sizes hrecounted.sizes, ?_, ?_, ?_, ?_, ?_, ?_⟩
  · rw [hbases, hrecounted.pre, hrecounted.next]
    exact hstores.linked
  · rw [hbases]
    exact hstores.nodup
  · rw [hbases]
    exact hstores.head
  · rw [hbases]
    exact hstores.init
  · intro other hmem
    by_cases hsame : other = chunk'
    · exact hsame ▸ hholds
    · have hmem' := hother other hmem hsame
      exact (hstores.holds other (hold other hmem')).of_kept
        (hstores.valid other (hold other hmem'))
        hstores.sized.unitSize (hkept _ (hstores.base_ne hmem'))
  · intro other hmem
    by_cases hsame : other = chunk'
    · exact hsame ▸ hvalid
    · exact hstores.valid other (hold other (hother other hmem hsame))

end Stores

/-! ## `Alloc` -/

/-- `Alloc` while the head has a free unit. -/
theorem alloc_of_free (hstores : pool.Stores heap (chunk :: rest)) {more : List Nat}
    (hfree : chunk.free = unit :: more) (fresh : Nat) :
    ∃ heap', pool.alloc heap fresh = some (payload pool.nUnitSize chunk.base unit, pool, heap') ∧
      pool.Stores heap' (chunk.pop :: rest) ∧ heap'.bytes = heap.bytes ∧
      heap'.sizes = heap.sizes ∧
      ∀ other, other ≠ chunk.base → heap'.allocs other = heap.allocs other := by
  have hholds := hstores.holds chunk List.mem_cons_self
  have hvalid := hstores.valid chunk List.mem_cons_self
  obtain ⟨header, hfound, hdescribes, _⟩ := hholds.found
  obtain ⟨heap', hpop, hbytes, hrecounted, hholds'⟩ := hholds.popUnit_spec hvalid hfree
  have hcount : 0 < header.nFree := by
    rw [hdescribes.nFree, hfree]
    exact Nat.succ_pos _
  refine ⟨heap', ?_, ?_, hbytes, hrecounted.sizes, hrecounted.others⟩
  · have hhead : pool.pBlock = some chunk.base := hstores.head
    simp only [alloc, hhead, hfound, Option.bind_eq_bind, Option.bind_some, if_pos hcount, hpop]
  · have hstores₀ : pool.Stores heap ([] ++ chunk :: rest) := hstores
    exact hstores₀.replace rfl hholds' hvalid.pop hrecounted
      fun other hne => Kept.of_bytes_eq (hrecounted.others other hne) hbytes

theorem grown_valid {unitSize num : Nat} (hpos : 0 < num) (hlt : num < 65536)
    (hproduct : num * unitSize < 2 ^ 31)
    (hfresh : Fresh heap fresh (sizeofMemoryBlock + unitSize * num)) :
    (grown fresh num).Valid unitSize where
  numPos := hpos
  numLt := hlt
  product := hproduct
  bound := (Nat.add_assoc _ _ _).trans_le hfresh.bound
  nodup := List.nodup_range
  below := fun _ hunit => List.mem_range.mp hunit

theorem Sized.grown_valid (hsized : pool.Sized)
    (hfresh : Fresh heap fresh (sizeofMemoryBlock + pool.nUnitSize * pool.nGrowUnitNum)) :
    (grown fresh pool.nGrowUnitNum).Valid pool.nUnitSize :=
  MemoryPool.grown_valid hsized.growPos hsized.growLt hsized.growProduct hfresh

theorem grown_free {base num : Nat} (hpos : 0 < num) :
    (grown base num).free = 0 :: (List.range' 1 (num - 1)) := by
  obtain ⟨more, rfl⟩ : ∃ more, num = more + 1 := ⟨num - 1, by omega⟩
  rw [grown, List.range_eq_range', List.range'_succ, Nat.add_sub_cancel]

/-- The block that is put in front becomes the first one of the list. -/
theorem pushFront_linked {head block : Nat} {nodes : List Nat} {headHeader header : MemoryBlock}
    (hlinked : LinkedFrom heap.pre heap.next none (head :: nodes))
    (hnodup : (block :: head :: nodes).Nodup) (hhead : heap.block head = some headHeader)
    (hblock : heap.block block = some header) :
    ∃ heap', pushFront heap head block = some heap' ∧ Relinked heap heap' ∧
      LinkedFrom heap'.pre heap'.next none (block :: head :: nodes) ∧
      ∀ other, other ≠ head → other ≠ block → heap'.allocs other = heap.allocs other := by
  obtain ⟨hfresh, hnodes⟩ := List.nodup_cons.mp hnodup
  have hnew : ∀ other ∈ head :: nodes, other ≠ block := fun other hother hsame =>
    hfresh (hsame ▸ hother)
  obtain ⟨heap', hpush, hrelinked, hpre, hnext, hothers⟩ :=
    pushFront_spec hhead hblock (hnew head List.mem_cons_self)
  refine ⟨heap', hpush, hrelinked, ?_, hothers⟩
  apply hlinked.pushFront hfresh hnodes
  · exact (hpre block).trans (if_pos rfl)
  · exact (hnext block).trans (if_pos rfl)
  · intro other hother
    rw [hpre, if_neg (hnew other hother)]
    simp only [List.head?_cons, Option.some.injEq, eq_comm (a := other)]
  · intro other hother
    rw [hnext, if_neg (hnew other hother)]

/-- A new block in front of the list, with all its units free. -/
theorem grow_spec (hstores : pool.Stores heap (chunk :: rest))
    (hfresh : Fresh heap fresh (sizeofMemoryBlock + pool.nUnitSize * pool.nGrowUnitNum)) :
    ∃ middle heap', heap.newBlock fresh pool.nUnitSize pool.nGrowUnitNum = some middle ∧
      pushFront middle chunk.base fresh = some heap' ∧
      ({ pool with pBlock := some fresh } : MemoryPool).Stores heap'
        (grown fresh pool.nGrowUnitNum :: chunk :: rest) ∧
      (∀ address, (address < fresh ∨
        fresh + (sizeofMemoryBlock + pool.nUnitSize * pool.nGrowUnitNum) ≤ address) →
        heap'.bytes address = heap.bytes address) ∧
      heap'.sizes = Function.update heap.sizes fresh
        (some (sizeofMemoryBlock + pool.nUnitSize * pool.nGrowUnitNum)) ∧
      ∀ other, other ≠ chunk.base → other ≠ fresh → heap'.allocs other = heap.allocs other := by
  have hvalid := hstores.sized.grown_valid hfresh
  obtain ⟨middle, header, hnew, hholds, hallocs, hsize, hpPre, hpNext, hbytes⟩ :=
    newBlock_spec heap hvalid hstores.sized.unitSize
  have hunused := hstores.fresh_notMem hfresh
  have hothers : ∀ other, other ≠ fresh → middle.allocs other = heap.allocs other := by
    intro other hne
    rw [hallocs]
    exact Function.update_of_ne hne _ _
  have hkept : ∀ other, other ≠ fresh → Kept heap middle other := by
    intro other hne
    apply Kept.of_outside (hothers other hne) (hfresh.apart other)
    intro address haddress
    apply hbytes
    rw [← Nat.add_assoc] at haddress
    exact haddress
  -- making the block changes nothing inside those of the pool
  have hmiddle : pool.Stores middle (chunk :: rest) := by
    apply hstores.of_kept _ (hstores.apart.allocate (hsize ▸ hfresh) hallocs)
    exact fun base hbase => hkept base fun hsame => hunused (hsame ▸ hbase)
  obtain ⟨headHeader, hhead, _⟩ := (hmiddle.holds chunk List.mem_cons_self).found
  obtain ⟨newHeader, hnewHeader, _⟩ := hholds.found
  have hblock : middle.block fresh = some newHeader := hnewHeader
  have hnodup : (fresh :: bases (chunk :: rest)).Nodup :=
    List.nodup_cons.mpr ⟨hunused, hstores.nodup⟩
  obtain ⟨heap', hpush, hrelinked, hlinked', hrest⟩ :=
    pushFront_linked hmiddle.linked hnodup hhead hblock
  refine ⟨middle, heap', hnew, hpush, ?_, ?_, ?_, ?_⟩
  · refine ⟨⟨hstores.sized.1, hstores.sized.2, hstores.sized.3, hstores.sized.4⟩,
      ?_, ?_, ?_, rfl, ?_,
      ?_, ?_⟩
    · exact hmiddle.apart.of_sizes hrelinked.sizes
    · exact hlinked'
    · exact hnodup
    · obtain ⟨base, hbase, hinit⟩ := hstores.init
      exact ⟨base, List.mem_cons_of_mem _ hbase, hinit⟩
    · rw [List.forall_mem_cons]
      exact ⟨hrelinked.holds hholds,
        fun other hother => hrelinked.holds (hmiddle.holds other hother)⟩
    · rw [List.forall_mem_cons]
      exact ⟨hvalid, hstores.valid⟩
  · intro address haddress
    rw [hrelinked.bytes, hbytes]
    rw [← Nat.add_assoc] at haddress
    exact haddress
  · rw [hrelinked.sizes, sizes_of_update hallocs, hsize]
    rfl
  · intro other hother hother'
    rw [hrest other hother hother', hothers other hother']

/-- `Alloc` when the head is used up. -/
theorem alloc_of_full (hstores : pool.Stores heap (chunk :: rest)) (hfull : chunk.free = [])
    (hfresh : Fresh heap fresh (sizeofMemoryBlock + pool.nUnitSize * pool.nGrowUnitNum)) :
    ∃ heap', pool.alloc heap fresh =
        some (payload pool.nUnitSize fresh 0, { pool with pBlock := some fresh }, heap') ∧
      ({ pool with pBlock := some fresh } : MemoryPool).Stores heap'
        ((grown fresh pool.nGrowUnitNum).pop :: chunk :: rest) ∧
      (∀ address, (address < fresh ∨
        fresh + (sizeofMemoryBlock + pool.nUnitSize * pool.nGrowUnitNum) ≤ address) →
        heap'.bytes address = heap.bytes address) ∧
      heap'.sizes = Function.update heap.sizes fresh
        (some (sizeofMemoryBlock + pool.nUnitSize * pool.nGrowUnitNum)) ∧
      ∀ other, other ≠ chunk.base → other ≠ fresh → heap'.allocs other = heap.allocs other := by
  obtain ⟨middle, linked, hnew, hpush, hstores', hbytes, hsizes, hothers⟩ :=
    grow_spec hstores hfresh
  obtain ⟨header, hfound, hdescribes, _⟩ := (hstores.holds chunk List.mem_cons_self).found
  have hcount : ¬ 0 < header.nFree := by
    rw [hdescribes.nFree, hfull]
    exact Nat.lt_irrefl 0
  have hholds := hstores'.holds _ List.mem_cons_self
  have hvalid := hstores'.valid _ List.mem_cons_self
  obtain ⟨heap', hpop, hsame, hrecounted, hholds'⟩ :=
    hholds.popUnit_spec hvalid (grown_free hstores.sized.growPos)
  refine ⟨heap', ?_, ?_, ?_, hrecounted.sizes.trans hsizes, ?_⟩
  · have hhead : pool.pBlock = some chunk.base := hstores.head
    have hpop' : linked.popUnit fresh = some (payload pool.nUnitSize fresh 0, heap') := hpop
    simp only [alloc, hhead, hfound, Option.bind_eq_bind, Option.bind_some, if_neg hcount, hnew,
      hpush, hpop']
  · have hstores₀ : ({ pool with pBlock := some fresh } : MemoryPool).Stores linked
        ([] ++ grown fresh pool.nGrowUnitNum :: chunk :: rest) := hstores'
    exact hstores₀.replace rfl hholds' hvalid.pop hrecounted
      fun other hne => Kept.of_bytes_eq (hrecounted.others other hne) hsame
  · rw [hsame]
    exact hbytes
  · intro other hother hother'
    rw [hrecounted.others other hother', hothers other hother hother']

/-! ## `Free` -/

/-- The index in front of a payload leads back to its block. -/
theorem findBlock_spec (hstores : pool.Stores heap chunks) (hmem : chunk ∈ chunks)
    (hunit : unit < chunk.num) :
    pool.findBlock heap (payload pool.nUnitSize chunk.base unit) = some chunk.base := by
  have hvalid := hstores.valid chunk hmem
  have hholds := hstores.holds chunk hmem
  obtain ⟨header, hfound, hdescribes, _⟩ := hholds.found
  have hend := unitAddr_le pool.nUnitSize chunk.base hunit
  have hbound := hvalid.bound
  simp only [sizeofMemoryBlock, aDataOffset] at hend hbound
  have haddr : wrap ((payload pool.nUnitSize chunk.base unit : Nat) - 2 : Int) =
      unitAddr pool.nUnitSize chunk.base unit := by
    have hvalue : ((payload pool.nUnitSize chunk.base unit : Nat) - 2 : Int) =
        (unitAddr pool.nUnitSize chunk.base unit : Nat) := by
      rw [payload]
      omega
    rw [hvalue, wrap_of_lt (by omega)]
  have hblock : wrap ((unitAddr pool.nUnitSize chunk.base unit : Nat) -
      (unit * pool.nUnitSize : Nat) - 8 : Int) = chunk.base + thisOffset := by
    have hvalue : ((unitAddr pool.nUnitSize chunk.base unit : Nat) -
        (unit * pool.nUnitSize : Nat) - 8 : Int) = (chunk.base + thisOffset : Nat) := by
      simp only [unitAddr, aDataOffset, thisOffset]
      omega
    rw [hvalue, wrap_of_lt (by rw [thisOffset]; omega)]
  have hindex : heap.loadUShort (unitAddr pool.nUnitSize chunk.base unit) = unit :=
    hholds.index unit hunit
  have hmul := hvalid.intMul_unit hunit
  have hthis : heap.loadThis (chunk.base + thisOffset) = some (some chunk.base) := by
    rw [loadThis, if_pos (Nat.le_add_left _ _), Nat.add_sub_cancel, hfound, Option.map_some,
      hdescribes.this]
  simp only [findBlock, haddr, hindex, hmul, hblock, hthis, Option.bind_eq_bind, Option.bind_some]

/-- A write inside one unit is not seen in another allocation. -/
theorem Stores.kept_of_write (hstores : pool.Stores heap chunks) (hmem : chunk ∈ chunks)
    (hunit : unit < chunk.num) {start : Nat} {cells : List Byte}
    (hbytes : heap'.bytes = heap.bytes.write start cells)
    (hlower : payload pool.nUnitSize chunk.base unit ≤ start)
    (hupper : start + cells.length ≤ unitAddr pool.nUnitSize chunk.base unit + pool.nUnitSize)
    {other : Nat} (hne : other ≠ chunk.base) (hallocs : heap'.allocs other = heap.allocs other) :
    Kept heap heap' other := by
  have hend := unitAddr_le pool.nUnitSize chunk.base hunit
  apply Kept.of_outside hallocs (hstores.apart_of_ne hmem hne)
  intro address haddress
  simp only [payload, unitAddr, sizeofMemoryBlock, aDataOffset] at hlower hend haddress hupper
  rw [hbytes]
  rcases haddress with hbefore | hafter
  · exact Memory.write_of_lt _ _ (by omega)
  · exact Memory.write_of_ge _ _ (by omega)

/-- Giving a unit back to its block. -/
theorem push_spec (hstores : pool.Stores heap (front ++ chunk :: back)) (hlive : chunk.Live unit) :
    ∃ heap' cells,
      heap.pushUnit chunk.base (payload pool.nUnitSize chunk.base unit) = some heap' ∧
      pool.Stores heap' (front ++ chunk.push unit :: back) ∧
      heap'.bytes = heap.bytes.write (payload pool.nUnitSize chunk.base unit) cells ∧
      cells.length = 2 ∧ heap'.sizes = heap.sizes ∧
      ∀ other, other ≠ chunk.base → heap'.allocs other = heap.allocs other := by
  have hmem : chunk ∈ front ++ chunk :: back := List.mem_append_right _ List.mem_cons_self
  have hvalid := hstores.valid chunk hmem
  obtain ⟨heap', cells, hpush, hbytes, hcells, hrecounted, hholds⟩ :=
    (hstores.holds chunk hmem).pushUnit_spec hvalid hstores.sized.unitSize hlive
  refine ⟨heap', cells, hpush, ?_, hbytes, hcells, hrecounted.sizes, hrecounted.others⟩
  have hbase : (chunk.push unit).base = chunk.base := rfl
  apply hstores.replace hbase hholds (hvalid.push hlive) hrecounted
  intro other hne
  apply hstores.kept_of_write hmem hlive.1 hbytes (Nat.le_refl _) _ hne
    (hrecounted.others other hne)
  have hsize := hstores.sized.unitSize
  rw [hcells, payload]
  omega

/-- Taking a block that is not in front out of the list. -/
theorem unlink_of_stores (hstores : pool.Stores heap (front ++ chunk :: back)) {pre : Nat}
    {header : MemoryBlock} (hfound : heap.block chunk.base = some header)
    (hpre : header.pPre = some pre) :
    ∃ heap', unlink heap pre chunk.base = some heap' ∧ Relinked heap heap' ∧
      LinkedFrom heap'.pre heap'.next none (bases (front ++ back)) ∧
      ∀ other, other ∉ bases (front ++ back) → heap'.allocs other = heap.allocs other := by
  have hlinked := hstores.linked
  have hnodup := hstores.nodup
  rw [bases_append, bases_cons] at hlinked hnodup
  have hpreEq : heap.pre chunk.base = (bases front).getLast? := by
    rw [hlinked.pre_eq, Option.or_none]
  have hnextEq : heap.next chunk.base = (bases back).head? := hlinked.next_eq
  have hblocks : ∀ base ∈ bases (front ++ back), base ≠ chunk.base ∧
      ∃ found, heap.block base = some found := by
    intro base hbase
    obtain ⟨other, hother, rfl⟩ := List.mem_map.mp hbase
    obtain ⟨found, hblock, _⟩ := (hstores.holds other (mem_middle hother chunk)).found
    exact ⟨hstores.base_ne hother, found, hblock⟩
  have hpreMem : pre ∈ bases (front ++ back) := by
    rw [pre_of_found hfound, hpre] at hpreEq
    exact bases_append front back ▸ List.mem_append_left _ (List.mem_of_getLast? hpreEq.symm)
  have hnextMem : ∀ next, header.pNext = some next → next ∈ bases (front ++ back) := by
    intro next hnext
    rw [next_of_found hfound, hnext] at hnextEq
    exact bases_append front back ▸ List.mem_append_right _ (List.mem_of_head? hnextEq.symm)
  obtain ⟨hpreNe, preHeader, hpreFound⟩ := hblocks pre hpreMem
  obtain ⟨heap', hrun, hrelinked, hpre', hnext', hothers⟩ :=
      unlink_spec hpreFound hfound hpre hpreNe
    (fun next hnext => hblocks next (hnextMem next hnext))
  refine ⟨heap', hrun, hrelinked, ?_, ?_⟩
  · rw [bases_append]
    apply hlinked.unlink hnodup
    · intro other _ hnone
      cases hnone
    · intro other _
      exact hpre' other
    · intro other _
      exact hnext' other
  · intro other hother
    apply hothers
    · rw [pre_of_found hfound, hpre]
      rintro hsame
      cases hsame
      exact hother hpreMem
    · rw [next_of_found hfound]
      intro hsame
      exact hother (hnextMem other hsame)

/-- After links were changed, and blocks that are not in the list any more were
deleted. -/
theorem Stores.relink (hstores : pool.Stores heap chunks) {chunks' : List Chunk}
    (hsub : ∀ chunk ∈ chunks', chunk ∈ chunks) (hnodup : (bases chunks').Nodup)
    (hinit : ∃ base ∈ bases chunks', pool.initHead = some base) (hapart : heap'.Apart)
    (hlinked : LinkedFrom heap'.pre heap'.next none (bases chunks'))
    (hholds : ∀ chunk ∈ chunks', heap'.Holds pool.nUnitSize chunk) :
    ({ pool with pBlock := (bases chunks').head? } : MemoryPool).Stores heap' chunks' where
  sized := ⟨hstores.sized.1, hstores.sized.2, hstores.sized.3, hstores.sized.4⟩
  apart := hapart
  linked := hlinked
  nodup := hnodup
  head := rfl
  init := hinit
  holds := hholds
  valid := fun chunk hmem => hstores.valid chunk (hsub chunk hmem)

/-- A block that has others in front of it points at the one before it. -/
theorem Stores.exists_pre {head : Chunk}
    (hstores : pool.Stores heap (head :: rest ++ chunk :: back))
    {header : MemoryBlock} (hfound : heap.block chunk.base = some header) :
    ∃ pre, header.pPre = some pre := by
  have hlinked := hstores.linked
  rw [bases_append] at hlinked
  have hpreEq := hlinked.pre_eq
  rw [pre_of_found hfound, bases_cons, List.getLast?_cons, Option.some_or] at hpreEq
  exact ⟨_, hpreEq⟩

/-- Taking the block in front out of the list: the second one becomes the first. -/
theorem unlinkHead_of_stores {second : Chunk}
    (hstores : pool.Stores heap (chunk :: second :: back)) :
    ∃ heap', heap.modify second.base (fun header => { header with pPre := none }) = some heap' ∧
      Relinked heap heap' ∧ LinkedFrom heap'.pre heap'.next none (bases (second :: back)) ∧
      ∀ other, other ≠ second.base → heap'.allocs other = heap.allocs other := by
  obtain ⟨header, hfound, _⟩ :=
    (hstores.holds second (List.mem_cons_of_mem _ List.mem_cons_self)).found
  obtain ⟨_, _, _, hnext, hback⟩ := hstores.linked
  have hsecond : second.base ∉ bases back :=
    (List.nodup_cons.mp (List.nodup_cons.mp hstores.nodup).2).1
  refine ⟨_, modify_of_found hfound _, Relinked.of_links hfound none header.pNext, ?_, ?_⟩
  · have hnexts : ∀ other, (heap.setBlock second.base { header with pPre := none }).next other =
        heap.next other := by
      intro other
      rw [next_setBlock]
      split
      next hsame => rw [hsame, next_of_found hfound]
      next => rfl
    refine ⟨(pre_setBlock _ _ _ _).trans (if_pos rfl), (hnexts second.base).trans hnext, ?_⟩
    apply hback.congr
    · intro other hother
      rw [pre_setBlock, if_neg]
      rintro rfl
      exact hsecond hother
    · exact fun other _ => hnexts other
  · intro other hne
    rw [setBlock_allocs, Function.update_of_ne hne]

/-- A block that the list does not lead to any more can be deleted. -/
theorem Stores.delete (hstores : pool.Stores heap (front ++ chunk :: back))
    (hnotInit : some chunk.base ≠ pool.initHead) (hrelinked : Relinked heap heap')
    (hlinked : LinkedFrom heap'.pre heap'.next none (bases (front ++ back)))
    (hothers : ∀ other, other ∉ bases (front ++ back) → heap'.allocs other = heap.allocs other) :
    ({ pool with pBlock := (bases (front ++ back)).head? } : MemoryPool).Stores
        (heap'.delete chunk.base) (front ++ back) ∧
      (heap'.delete chunk.base).bytes = heap.bytes ∧
      (heap'.delete chunk.base).sizes = Function.update heap.sizes chunk.base none ∧
      ∀ other, other ∉ bases (front ++ chunk :: back) →
        (heap'.delete chunk.base).allocs other = heap.allocs other := by
  have hnodup := hstores.nodup_middle
  have hblock : ∀ base ∈ bases (front ++ back),
      (heap'.delete chunk.base).block base = heap'.block base := by
    intro base hbase
    apply block_congr (delete_allocs_of_ne _)
    rintro rfl
    exact hnodup.1 hbase
  refine ⟨?_, ?_, ?_, ?_⟩
  · apply hstores.relink (fun other hother => mem_middle hother chunk) hnodup.2
    · obtain ⟨base, hbase, hinit⟩ := hstores.init
      refine ⟨base, ?_, hinit⟩
      rw [(bases_middle _ _ _).mem_iff, bases_cons, List.mem_cons] at hbase
      apply hbase.resolve_left
      rintro rfl
      exact hnotInit hinit.symm
    · exact (hstores.apart.of_sizes hrelinked.sizes).delete chunk.base
    · apply hlinked.congr
      · intro base hbase
        rw [Heap.pre, Heap.pre, hblock base hbase]
      · intro base hbase
        rw [Heap.next, Heap.next, hblock base hbase]
    · intro other hother
      exact delete_holds (hrelinked.holds (hstores.holds other (mem_middle hother chunk)))
        (hstores.base_ne hother)
  · rw [delete_bytes, hrelinked.bytes]
  · rw [delete_sizes, hrelinked.sizes]
  · intro other hother
    obtain ⟨hne, hrest⟩ := notMem_bases_middle.mp hother
    rw [delete_allocs_of_ne hne, hothers other hrest]

/-- A block that is unused, and not the initial one, is given back. -/
theorem settle_of_unused (hstores : pool.Stores heap (front ++ chunk :: back))
    (hfull : chunk.free.length = chunk.num) (hnotInit : some chunk.base ≠ pool.initHead) :
    ∃ heap', pool.settle heap chunk.base =
        some ({ pool with pBlock := (bases (front ++ back)).head? }, heap') ∧
      ({ pool with pBlock := (bases (front ++ back)).head? } : MemoryPool).Stores heap'
        (front ++ back) ∧
      heap'.bytes = heap.bytes ∧ heap'.sizes = Function.update heap.sizes chunk.base none ∧
      ∀ other, other ∉ bases (front ++ chunk :: back) → heap'.allocs other = heap.allocs other := by
  have hmem : chunk ∈ front ++ chunk :: back := List.mem_append_right _ List.mem_cons_self
  obtain ⟨header, hfound, hdescribes, _⟩ := (hstores.holds chunk hmem).found
  have hcount : header.nFree = header.nUnitNum ∧ some chunk.base ≠ pool.initHead :=
    ⟨by rw [hdescribes.nFree, hdescribes.unitNum, hfull], hnotInit⟩
  cases front with
  | nil =>
      cases back with
      | nil =>
          -- the initial block is in the list, and would be the one that is given back
          obtain ⟨base, hbase, hinit⟩ := hstores.init
          obtain rfl := List.mem_singleton.mp hbase
          exact absurd hinit.symm hnotInit
      | cons second back =>
          have hstores₀ : pool.Stores heap (chunk :: second :: back) := hstores
          obtain ⟨middle, hmodify, hrelinked, hlinked, hothers⟩ := unlinkHead_of_stores hstores₀
          have hpPre : header.pPre = none := (pre_of_found hfound).symm.trans hstores₀.linked.1
          have hpNext : header.pNext = some second.base :=
            (next_of_found hfound).symm.trans hstores₀.linked.2.1
          refine ⟨middle.delete chunk.base, ?_, hstores.delete hnotInit hrelinked hlinked ?_⟩
          · simp only [settle, hfound, Option.bind_eq_bind, Option.bind_some, if_pos hcount, hpPre,
              hpNext, hmodify]
            rfl
          · intro other hother
            exact hothers other (List.ne_of_not_mem_cons hother)
  | cons head rest =>
      obtain ⟨pre, hpPre⟩ := hstores.exists_pre hfound
      obtain ⟨middle, hrun, hrelinked, hlinked, hothers⟩ := unlink_of_stores hstores hfound hpPre
      -- the head stays in front
      have hhead : pool.pBlock = (bases (head :: rest ++ back)).head? := hstores.head
      refine ⟨middle.delete chunk.base, ?_, hstores.delete hnotInit hrelinked hlinked hothers⟩
      simp only [settle, hfound, Option.bind_eq_bind, Option.bind_some, if_pos hcount, hpPre, hrun,
        ← hhead]

/-- A block goes to the front of a list whose head is used up. -/
theorem settle_of_moved {head : Chunk} (hstores : pool.Stores heap (head :: rest ++ chunk :: back))
    (hused : ¬ (chunk.free.length = chunk.num ∧ some chunk.base ≠ pool.initHead))
    (hempty : head.free = []) :
    ∃ heap', pool.settle heap chunk.base = some ({ pool with pBlock := some chunk.base }, heap') ∧
      ({ pool with pBlock := some chunk.base } : MemoryPool).Stores heap'
        (chunk :: (head :: rest ++ back)) ∧
      heap'.bytes = heap.bytes ∧ heap'.sizes = heap.sizes ∧
      ∀ other, other ∉ bases (head :: rest ++ chunk :: back) →
        heap'.allocs other = heap.allocs other := by
  have hmem : chunk ∈ head :: rest ++ chunk :: back := List.mem_append_right _ List.mem_cons_self
  have hheadMem : head ∈ head :: rest ++ chunk :: back := List.mem_cons_self
  obtain ⟨header, hfound, hdescribes, _⟩ := (hstores.holds chunk hmem).found
  obtain ⟨headHeader, hheadFound, hheadDescribes, _⟩ := (hstores.holds head hheadMem).found
  have hcount : ¬ (header.nFree = header.nUnitNum ∧ some chunk.base ≠ pool.initHead) := by
    rw [hdescribes.nFree, hdescribes.unitNum]
    exact hused
  have hheadCount : headHeader.nFree ≤ 0 := by
    rw [hheadDescribes.nFree, hempty]
    exact Nat.le_refl 0
  have hhead : pool.pBlock = some head.base := hstores.head
  have hnodup := hstores.nodup_middle
  have hsub : ∀ other ∈ chunk :: (head :: rest ++ back), other ∈ head :: rest ++ chunk :: back := by
    intro other hother
    exact List.perm_middle.mem_iff.mpr hother
  obtain ⟨pre, hpPre⟩ := hstores.exists_pre hfound
  -- the block leaves the list, and is put back in front of it
  obtain ⟨middle, hunlink, hrelinked, hlinked, hothers⟩ := unlink_of_stores hstores hfound hpPre
  obtain ⟨headHeader', hheadFound', _⟩ := (hrelinked.holds (hstores.holds head hheadMem)).found
  obtain ⟨header', hfound', _⟩ := (hrelinked.holds (hstores.holds chunk hmem)).found
  obtain ⟨heap', hpush, hrelinked', hlinked', hothers'⟩ :=
    pushFront_linked hlinked (List.nodup_cons.mpr hnodup) hheadFound' hfound'
  refine ⟨heap', ?_, ?_, ?_, hrelinked'.sizes.trans hrelinked.sizes, ?_⟩
  · simp only [settle, hfound, Option.bind_eq_bind, Option.bind_some, if_neg hcount, hhead,
      hheadFound, hpPre, if_pos hheadCount, hunlink, hpush]
  · apply hstores.relink hsub (List.nodup_cons.mpr hnodup) _ _ hlinked'
    · intro other hother
      exact hrelinked'.holds (hrelinked.holds (hstores.holds other (hsub other hother)))
    · obtain ⟨base, hbase, hinit⟩ := hstores.init
      exact ⟨base, (bases_middle _ _ _).mem_iff.mp hbase, hinit⟩
    · exact (hstores.apart.of_sizes hrelinked.sizes).of_sizes hrelinked'.sizes
  · rw [hrelinked'.bytes, hrelinked.bytes]
  · intro other hother
    obtain ⟨hchunk, hrest⟩ := notMem_bases_middle.mp hother
    have hheadBase : other ≠ head.base := List.ne_of_not_mem_cons hrest
    rw [hothers' other hheadBase hchunk, hothers other hrest]

/-- Otherwise the list stays as it is. -/
theorem settle_of_kept (hstores : pool.Stores heap (front ++ chunk :: back))
    (hused : ¬ (chunk.free.length = chunk.num ∧ some chunk.base ≠ pool.initHead))
    (hhead : ∀ head, front.head? = some head → head.free ≠ []) :
    pool.settle heap chunk.base = some (pool, heap) := by
  have hmem : chunk ∈ front ++ chunk :: back := List.mem_append_right _ List.mem_cons_self
  obtain ⟨header, hfound, hdescribes, _⟩ := (hstores.holds chunk hmem).found
  have hcount : ¬ (header.nFree = header.nUnitNum ∧ some chunk.base ≠ pool.initHead) := by
    rw [hdescribes.nFree, hdescribes.unitNum]
    exact hused
  have hlinked := hstores.linked
  rw [bases_append, bases_cons] at hlinked
  cases front with
  | nil =>
      have hpBlock : pool.pBlock = some chunk.base := hstores.head
      have hpPre : header.pPre = none := (pre_of_found hfound).symm.trans hlinked.1
      simp only [settle, hfound, Option.bind_eq_bind, Option.bind_some, if_neg hcount,
        hpBlock, hpPre]
  | cons head rest =>
      have hpBlock : pool.pBlock = some head.base := hstores.head
      obtain ⟨headHeader, hheadFound, hheadDescribes, _⟩ :=
        (hstores.holds head List.mem_cons_self).found
      have hheadCount : ¬ headHeader.nFree ≤ 0 := by
        rw [hheadDescribes.nFree, Nat.le_zero, List.length_eq_zero_iff]
        exact hhead head rfl
      simp only [settle, hfound, Option.bind_eq_bind, Option.bind_some, if_neg hcount, hpBlock,
        hheadFound, if_neg hheadCount]
      cases header.pPre with
      | none => rfl
      | some pre => rfl

theorem Stores.pool_eq (hstores : pool.Stores heap chunks) :
    { pool with pBlock := (bases chunks).head? } = pool := by
  rw [← hstores.head]

/-- What `Free` does once the unit is back in its block. -/
theorem settle_spec (hstores : pool.Stores heap (front ++ chunk :: back)) :
    ∃ heap', pool.settle heap chunk.base =
        some ({ pool with pBlock := (bases (settled pool.initHead front chunk back)).head? },
          heap') ∧
      ({ pool with pBlock := (bases (settled pool.initHead front chunk back)).head? } :
        MemoryPool).Stores heap' (settled pool.initHead front chunk back) ∧
      heap'.bytes = heap.bytes ∧ heap'.sizes = settledSizes pool.initHead chunk heap.sizes ∧
      ∀ other, other ∉ bases (front ++ chunk :: back) → heap'.allocs other = heap.allocs other := by
  by_cases hused : chunk.free.length = chunk.num ∧ some chunk.base ≠ pool.initHead
  · have hsettled : settled pool.initHead front chunk back = front ++ back := if_pos hused
    rw [hsettled, settledSizes, if_pos hused]
    exact settle_of_unused hstores hused.1 hused.2
  · rw [settledSizes, if_neg hused]
    cases front with
    | nil =>
        have hsettled : settled pool.initHead [] chunk back = [] ++ chunk :: back := if_neg hused
        rw [hsettled, hstores.pool_eq]
        exact ⟨heap, settle_of_kept hstores hused (fun _ hnone => by cases hnone), hstores, rfl,
          rfl, fun _ _ => rfl⟩
    | cons head rest =>
        by_cases hempty : head.free = []
        · have hsettled : settled pool.initHead (head :: rest) chunk back =
              chunk :: (head :: rest ++ back) := (if_neg hused).trans (if_pos hempty)
          rw [hsettled]
          exact settle_of_moved hstores hused hempty
        · have hsettled : settled pool.initHead (head :: rest) chunk back =
              head :: rest ++ chunk :: back := (if_neg hused).trans (if_neg hempty)
          have hhead : ∀ other, (head :: rest).head? = some other → other.free ≠ [] := by
            intro other hother
            cases hother
            exact hempty
          rw [hsettled, hstores.pool_eq]
          exact ⟨heap, settle_of_kept hstores hused hhead, hstores, rfl, rfl, fun _ _ => rfl⟩

/-- `Free` of a live unit. -/
theorem free_spec (hstores : pool.Stores heap (front ++ chunk :: back)) (hlive : chunk.Live unit) :
    ∃ heap' cells, pool.free heap (payload pool.nUnitSize chunk.base unit) =
        some ({ pool with
          pBlock := (bases (settled pool.initHead front (chunk.push unit) back)).head? }, heap') ∧
      ({ pool with pBlock := (bases (settled pool.initHead front (chunk.push unit) back)).head? } :
        MemoryPool).Stores heap' (settled pool.initHead front (chunk.push unit) back) ∧
      heap'.bytes = heap.bytes.write (payload pool.nUnitSize chunk.base unit) cells ∧
      cells.length = 2 ∧
      heap'.sizes = settledSizes pool.initHead (chunk.push unit) heap.sizes ∧
      ∀ other, other ∉ bases (front ++ chunk :: back) → heap'.allocs other = heap.allocs other := by
  have hmem : chunk ∈ front ++ chunk :: back := List.mem_append_right _ List.mem_cons_self
  obtain ⟨middle, cells, hpush, hstores', hbytes, hcells, hsizes, hothers⟩ :=
    push_spec hstores hlive
  obtain ⟨heap', hsettle, hstores'', hbytes', hsizes', hothers'⟩ := settle_spec hstores'
  refine ⟨heap', cells, ?_, hstores'', hbytes'.trans hbytes, hcells, hsizes ▸ hsizes', ?_⟩
  · have hsettle' : pool.settle middle chunk.base = _ := hsettle
    simp only [free, findBlock_spec hstores hmem hlive.1, hpush, Option.bind_eq_bind,
      Option.bind_some, hsettle']
  · intro other hother
    have hother' : other ∉ bases (front ++ chunk.push unit :: back) := by
      rw [bases_append, bases_cons] at hother ⊢
      exact hother
    rw [hothers' other hother', hothers]
    rintro rfl
    exact hother (mem_bases hmem)

/-! ## `FreeAll` -/

/-- One pass of `FreeAll`. -/
theorem freeAllPass_spec (hstores : pool.Stores heap (front ++ chunk :: back)) :
    ∃ heap', freeAllPass (heap, some chunk.base) = .again (heap', (bases back).head?) ∧
      pool.Stores heap' (front ++ chunk.reset :: back) ∧
      ∀ other, other ≠ chunk.base → Kept heap heap' other := by
  have hmem : chunk ∈ front ++ chunk :: back := List.mem_append_right _ List.mem_cons_self
  have hvalid := hstores.valid chunk hmem
  obtain ⟨header, hfound, hdescribes, _⟩ := (hstores.holds chunk hmem).found
  obtain ⟨heap', hreset, hholds, hallocs, hbytes⟩ := reset_spec hvalid hstores.sized.unitSize hfound
    hdescribes.this hdescribes.unitSize hdescribes.unitNum
  have hrecounted := Recounted.of_counters hfound hallocs
  have hkept : ∀ other, other ≠ chunk.base → Kept heap heap' other := by
    intro other hne
    apply Kept.of_outside (hrecounted.others other hne) (hstores.apart_of_ne hmem hne)
    intro address haddress
    apply hbytes
    simp only [sizeofMemoryBlock, aDataOffset] at haddress ⊢
    omega
  have hbase : chunk.reset.base = chunk.base := rfl
  have hstores' := hstores.replace hbase hholds hvalid.reset hrecounted hkept
  refine ⟨heap', ?_, hstores', hkept⟩
  have hlinked := hstores'.linked
  rw [bases_append, bases_cons] at hlinked
  obtain ⟨header', hfound', _⟩ := hholds.found
  have hblock : heap'.block chunk.base = some header' := hfound'
  have hnext : header'.pNext = (bases back).head? :=
    (next_of_found hblock).symm.trans hlinked.next_eq
  simp only [freeAllPass, hreset, hblock, hnext]

/-- The loop of `FreeAll`, from some block on. -/
theorem freeAllPasses_spec (hstores : pool.Stores heap (front ++ back)) :
    ∃ heap', Loop.Yields freeAllPass (heap, (bases back).head?) (some heap') ∧
      pool.Stores heap' (front ++ back.map Chunk.reset) ∧
      ∀ other, other ∉ bases back → Kept heap heap' other := by
  induction back generalizing heap front with
  | nil => exact ⟨heap, .of_leave rfl, hstores, fun other _ => Kept.refl heap other⟩
  | cons chunk back ih =>
      obtain ⟨middle, hpass, hstores', hkept⟩ := freeAllPass_spec hstores
      rw [List.append_cons] at hstores'
      obtain ⟨heap', hyields, hstores'', hkept'⟩ := ih hstores'
      refine ⟨heap', hyields.of_again hpass, ?_, ?_⟩
      · rw [List.map_cons, List.append_cons]
        exact hstores''
      · intro other hother
        rw [bases_cons, List.mem_cons, not_or] at hother
        exact (hkept other hother.1).trans (hkept' other hother.2)

/-- `FreeAll` ends, and makes all units of all blocks free. -/
theorem freeAll_spec (hstores : pool.Stores heap chunks) :
    ∃ fuel heap', pool.freeAll fuel heap = some heap' ∧
      pool.Stores heap' (chunks.map Chunk.reset) ∧
      ∀ other, other ∉ bases chunks → Kept heap heap' other := by
  have hstores₀ : pool.Stores heap ([] ++ chunks) := hstores
  obtain ⟨heap', ⟨fuel, hrun⟩, hstores', hkept⟩ := freeAllPasses_spec hstores₀
  refine ⟨fuel, heap', ?_, hstores', hkept⟩
  rw [freeAll, hstores.head, hrun, Option.join_some]

/-! ## The constructor, and what does not concern the pool -/

theorem nUnitSize_of_new {nUnitSize nInitUnitNum nGrowUnitNum : Nat}
    (hnew : new heap fresh nUnitSize nInitUnitNum nGrowUnitNum = some (pool, heap')) :
    pool.nUnitSize = (nUnitSize + 2) % 65536 := by
  simp only [new, Option.bind_eq_bind, Option.bind_eq_some_iff, Option.some.injEq,
    Prod.mk.injEq] at hnew
  obtain ⟨_, _, _, _, _, _, _, _, rfl, _⟩ := hnew
  rfl

theorem nGrowUnitNum_of_new {nUnitSize nInitUnitNum nGrowUnitNum : Nat}
    (hnew : new heap fresh nUnitSize nInitUnitNum nGrowUnitNum = some (pool, heap')) :
    pool.nGrowUnitNum = nGrowUnitNum := by
  simp only [new, Option.bind_eq_bind, Option.bind_eq_some_iff, Option.some.injEq,
    Prod.mk.injEq] at hnew
  obtain ⟨_, _, _, _, _, _, _, _, rfl, _⟩ := hnew
  rfl

/-- The constructor fails when the size of the first block overflows. -/
theorem product_of_new {nUnitSize nInitUnitNum nGrowUnitNum : Nat}
    (hnew : new heap fresh nUnitSize nInitUnitNum nGrowUnitNum = some (pool, heap')) :
    nInitUnitNum * pool.nUnitSize < 2 ^ 31 := by
  have hunitSize := nUnitSize_of_new hnew
  simp only [new, Option.bind_eq_bind, Option.bind_eq_some_iff] at hnew
  obtain ⟨_, _, _, _, _, _, made, hmade, _⟩ := hnew
  rw [hunitSize]
  by_contra hover
  rw [newBlock, intMul, if_neg hover] at hmade
  cases hmade

theorem new_spec {nUnitSize nInitUnitNum nGrowUnitNum : Nat}
    (hnew : new heap fresh nUnitSize nInitUnitNum nGrowUnitNum = some (pool, heap'))
    (hapart : heap.Apart)
    (hfresh : Fresh heap fresh
      (sizeofMemoryBlock + (nUnitSize + 2) % 65536 * nInitUnitNum))
    (hinitLt : nInitUnitNum < 65536) (hgrowLt : nGrowUnitNum < 65536)
    (hgrow : nGrowUnitNum * ((nUnitSize + 2) % 65536) < 2 ^ 31) :
    pool.Stores heap' [grown fresh nInitUnitNum] ∧
      ∀ other, other ≠ fresh → Kept heap heap' other := by
  have hproduct := product_of_new hnew
  rw [nUnitSize_of_new hnew] at hproduct
  simp only [new, Option.bind_eq_bind, Option.bind_eq_some_iff, Option.guard_eq_some',
    exists_const, Option.some.injEq, Prod.mk.injEq] at hnew
  obtain ⟨hunitSize, hinitPos, hgrowPos, made, hmade, rfl, rfl⟩ := hnew
  generalize (nUnitSize + 2) % 65536 = unitSize at *
  have hvalid := grown_valid hinitPos hinitLt hproduct hfresh
  obtain ⟨heap', header, hnew, hholds, hallocs, hsize, hpPre, hpNext, hbytes⟩ :=
    newBlock_spec heap hvalid hunitSize
  obtain rfl : heap' = made := Option.some.inj (hnew.symm.trans hmade)
  have hblock : heap'.block fresh = some header := by
    rw [block_eq_some_iff, hallocs]
    exact Function.update_self _ _ _
  refine ⟨⟨⟨hunitSize, hgrowPos, hgrowLt, hgrow⟩, ?_, ?_, List.nodup_singleton _, rfl,
    ?_, ?_, ?_⟩, ?_⟩
  · exact hapart.allocate (hsize ▸ hfresh) hallocs
  · refine ⟨?_, ?_, trivial⟩
    · exact (pre_of_found hblock).trans hpPre
    · exact (next_of_found hblock).trans hpNext
  · exact ⟨fresh, List.mem_singleton_self _, rfl⟩
  · rw [List.forall_mem_singleton]
    exact hholds
  · rw [List.forall_mem_singleton]
    exact hvalid
  · intro other hne
    apply Kept.of_outside _ (hfresh.apart other)
    · intro address haddress
      apply hbytes
      rw [← Nat.add_assoc] at haddress
      exact haddress
    · rw [hallocs]
      exact Function.update_of_ne hne _ _

/-- The constructor returns, given memory. -/
theorem exists_new {nUnitSize nInitUnitNum nGrowUnitNum : Nat}
    (hunitSize : 4 ≤ (nUnitSize + 2) % 65536) (hinitPos : 1 ≤ nInitUnitNum)
    (hgrowPos : 1 ≤ nGrowUnitNum) (hinitLt : nInitUnitNum < 65536)
    (hproduct : nInitUnitNum * ((nUnitSize + 2) % 65536) < 2 ^ 31)
    (hfresh : Fresh heap fresh
      (sizeofMemoryBlock + (nUnitSize + 2) % 65536 * nInitUnitNum)) :
    ∃ pool heap', new heap fresh nUnitSize nInitUnitNum nGrowUnitNum = some (pool, heap') ∧
      heap'.sizes = Function.update heap.sizes fresh
        (some (sizeofMemoryBlock + (nUnitSize + 2) % 65536 * nInitUnitNum)) := by
  have hvalid := grown_valid hinitPos hinitLt hproduct hfresh
  obtain ⟨heap', header, hnew, _, hallocs, hsize, _⟩ := newBlock_spec heap hvalid hunitSize
  have hmade : heap.newBlock fresh ((nUnitSize + 2) % 65536) nInitUnitNum = some heap' := hnew
  refine ⟨⟨some fresh, some fresh, (nUnitSize + 2) % 65536, nInitUnitNum, nGrowUnitNum⟩,
    heap', ?_, ?_⟩
  · simp only [new, guard, if_pos hunitSize, if_pos hinitPos, if_pos hgrowPos, hmade,
      Option.bind_eq_bind, pure, Option.bind_some]
  · rw [sizes_of_update hallocs, hsize]
    rfl

/-- Writing inside the payload of a live unit changes nothing for the pool. -/
theorem Stores.write (hstores : pool.Stores heap chunks) (hmem : chunk ∈ chunks)
    (hlive : chunk.Live unit) {start : Nat} {cells : List Byte}
    (hlower : payload pool.nUnitSize chunk.base unit ≤ start)
    (hupper : start + cells.length ≤ unitAddr pool.nUnitSize chunk.base unit + pool.nUnitSize) :
    pool.Stores (heap.write start cells) chunks := by
  have hholds : ∀ other ∈ chunks, (heap.write start cells).Holds pool.nUnitSize other := by
    intro other hother
    by_cases hsame : other = chunk
    · subst hsame
      refine (hstores.holds other hother).congr (block_congr rfl) ?_ ?_
      · intro unit' _
        exact unitIndex_write hstores.sized.unitSize hlower hupper
      · intro unit' hfree
        apply unitLink_write hstores.sized.unitSize _ ((Nat.le_add_right _ _).trans hlower) hupper
        rintro rfl
        exact hlive.2 hfree
    · apply (hstores.holds other hother).of_kept (hstores.valid other hother) hstores.sized.unitSize
      have hne : other.base ≠ chunk.base := fun hbase =>
        hsame (List.inj_on_of_nodup_map hstores.nodup hother hmem hbase)
      exact hstores.kept_of_write hmem hlive.1 rfl hlower hupper hne rfl
  exact ⟨hstores.sized, hstores.apart, hstores.linked, hstores.nodup, hstores.head, hstores.init,
    hholds, hstores.valid⟩

end MemoryPool

end SelectNet
