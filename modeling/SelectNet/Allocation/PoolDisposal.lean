import SelectNet.Allocation.PoolSteps
import SelectNet.Allocation.SizedPools

/-!
# The end of the pools

`dispose` deletes the blocks of a pool, reading the link of each before it goes, and
the destructor of a `VarMemPool` does so for every pool. The pools own their blocks,
and `malloc` gives what is too large for them. Whatever else was allocated when the
constructor began is as it was, at any time and at the end.
-/

namespace SelectNet

open Heap

/-! ## Deleting a list of blocks -/

namespace Heap

/-- One `delete` after the other. -/
def deleteAll (heap : Heap) (blocks : List Nat) : Heap := blocks.foldl Heap.delete heap

variable {heap : Heap} {blocks : List Nat} {base : Nat}

theorem deleteAll_append (heap : Heap) (front back : List Nat) :
    heap.deleteAll (front ++ back) = (heap.deleteAll front).deleteAll back :=
  List.foldl_append

@[simp] theorem deleteAll_bytes (heap : Heap) (blocks : List Nat) :
    (heap.deleteAll blocks).bytes = heap.bytes := by
  induction blocks generalizing heap with
  | nil => rfl
  | cons base rest ih => exact ih _

theorem deleteAll_allocs_of_notMem (hnot : base ∉ blocks) :
    (heap.deleteAll blocks).allocs base = heap.allocs base := by
  induction blocks generalizing heap with
  | nil => rfl
  | cons first rest ih =>
      rw [List.mem_cons, not_or] at hnot
      exact (ih hnot.2).trans (delete_allocs_of_ne hnot.1)

theorem deleteAll_allocs_of_mem (hmem : base ∈ blocks) :
    (heap.deleteAll blocks).allocs base = none := by
  induction blocks generalizing heap with
  | nil => cases hmem
  | cons first rest ih =>
      by_cases hrest : base ∈ rest
      · exact ih hrest
      · obtain rfl := (List.mem_cons.mp hmem).resolve_right hrest
        exact (deleteAll_allocs_of_notMem hrest).trans (Function.update_self _ _ _)

theorem Apart.deleteAll (hapart : heap.Apart) (blocks : List Nat) :
    (heap.deleteAll blocks).Apart := by
  induction blocks generalizing heap with
  | nil => exact hapart
  | cons base rest ih => exact ih (hapart.delete base)

/-- What is not deleted is kept, with its contents. -/
theorem Kept.deleteAll (hnot : base ∉ blocks) : Kept heap (heap.deleteAll blocks) base :=
  Kept.of_bytes_eq (deleteAll_allocs_of_notMem hnot) (deleteAll_bytes heap blocks)

end Heap

/-! ## The destructors -/

namespace MemoryPool

/-- One pass of the loop of `dispose`, at `curBlock`. -/
def disposePass : Heap × Option Nat → Pass (Heap × Option Nat) (Option Heap)
  | (heap, none) => .leave (some heap)
  | (heap, some curBlock) =>
      match heap.block curBlock with
      | none => .leave none
      | some header => .again (heap.delete curBlock, header.pNext)

/-- `dispose`, which is all that the destructor does. -/
def dispose (fuel : Nat) (pool : MemoryPool) (heap : Heap) : Option (MemoryPool × Heap) :=
  (Loop.run disposePass fuel (heap, pool.pBlock)).join.map fun heap =>
    ({ pool with pBlock := none }, heap)

/-- The loop deletes the blocks of a list, each once. -/
theorem disposePasses_spec {heap : Heap} {before : Option Nat} {blocks : List Nat}
    (hlinked : LinkedFrom heap.pre heap.next before blocks) (hnodup : blocks.Nodup)
    (hblocks : ∀ base ∈ blocks, ∃ header, heap.block base = some header) :
    Loop.Yields disposePass (heap, blocks.head?) (some (heap.deleteAll blocks)) := by
  induction blocks generalizing heap before with
  | nil => exact .of_leave rfl
  | cons base rest ih =>
      obtain ⟨_, hnext, hrest⟩ := hlinked
      obtain ⟨hnot, hnodup⟩ := List.nodup_cons.mp hnodup
      obtain ⟨⟨header, hfound⟩, hblocks⟩ := List.forall_mem_cons.mp hblocks
      -- the blocks behind it do not notice that this one is gone
      have hsame : ∀ other ∈ rest, (heap.delete base).block other = heap.block other := by
        intro other hother
        apply block_congr
        exact delete_allocs_of_ne fun heq => hnot (heq ▸ hother)
      have hpass : disposePass (heap, some base) = .again (heap.delete base, rest.head?) := by
        rw [next_of_found hfound] at hnext
        simp only [disposePass, hfound, hnext]
      have hlater : LinkedFrom (heap.delete base).pre (heap.delete base).next (some base) rest := by
        refine hrest.congr ?_ ?_
        · intro other hother
          rw [Heap.pre, Heap.pre, hsame other hother]
        · intro other hother
          rw [Heap.next, Heap.next, hsame other hother]
      refine Loop.Yields.of_again hpass (ih hlater hnodup ?_)
      intro other hother
      rw [hsame other hother]
      exact hblocks other hother

/-- `dispose` ends, and deletes every block of the pool. -/
theorem dispose_spec {pool : MemoryPool} {heap : Heap} {chunks : List Chunk}
    (hstores : pool.Stores heap chunks) :
    ∃ fuel, ∀ more, fuel ≤ more → pool.dispose more heap =
      some ({ pool with pBlock := none }, heap.deleteAll (bases chunks)) := by
  have hblocks : ∀ base ∈ bases chunks, ∃ header, heap.block base = some header := by
    intro base hbase
    obtain ⟨chunk, hmem, rfl⟩ := List.mem_map.mp hbase
    obtain ⟨header, hfound, _⟩ := (hstores.holds chunk hmem).found
    exact ⟨header, hfound⟩
  obtain ⟨fuel, hrun⟩ := disposePasses_spec hstores.linked hstores.nodup hblocks
  refine ⟨fuel, fun more hle => ?_⟩
  rw [dispose, hstores.head, Loop.run_mono hrun hle]
  rfl

end MemoryPool

namespace VarMemPool

/-- The loop of the destructor. -/
def destroy (fuel : Nat) (pools : VarMemPool) (heap : Heap) : Option Heap :=
  pools.poolArr.foldlM (fun heap pool => (pool.dispose fuel heap).map Prod.snd) heap

/-- The blocks of that many pools. -/
def blocks (count : Nat) (chunks : Nat → List Chunk) : List Nat :=
  (List.range count).flatMap fun index => bases (chunks index)

theorem mem_blocks {count base : Nat} {chunks : Nat → List Chunk} :
    base ∈ blocks count chunks ↔ ∃ index < count, base ∈ bases (chunks index) := by
  simp only [blocks, List.mem_flatMap, List.mem_range]

/-- Pools that have no block in common are deleted one after the other. -/
theorem destroy_spec {pools : List MemoryPool} {heap : Heap} {chunks : Nat → List Chunk}
    (hapart : heap.Apart)
    (hstores : ∀ (index : Nat) (pool : MemoryPool), pools[index]? = some pool →
      pool.Stores heap (chunks index))
    (hseparate : ∀ one < pools.length, ∀ two < pools.length, one ≠ two →
      ∀ base ∈ bases (chunks one), base ∉ bases (chunks two)) :
    ∃ fuel, ∀ more, fuel ≤ more →
      destroy more ⟨pools⟩ heap = some (heap.deleteAll (blocks pools.length chunks)) := by
  induction pools generalizing heap chunks with
  | nil => exact ⟨0, fun _ _ => rfl⟩
  | cons pool rest ih =>
      have hlater : ∀ (index : Nat) (other : MemoryPool), rest[index]? = some other →
          other.Stores (heap.deleteAll (bases (chunks 0))) (chunks (index + 1)) := by
        intro index other hother
        have hlt := (List.getElem?_eq_some_iff.mp hother).1
        refine (hstores (index + 1) other hother).of_kept ?_ (hapart.deleteAll _)
        intro base hbase
        exact Kept.deleteAll (hseparate (index + 1) (Nat.succ_lt_succ hlt) 0
          (Nat.zero_lt_succ _) (Nat.succ_ne_zero _) base hbase)
      have hapart' : ∀ one < rest.length, ∀ two < rest.length, one ≠ two →
          ∀ base ∈ bases (chunks (one + 1)), base ∉ bases (chunks (two + 1)) :=
        fun one hone two htwo hne => hseparate (one + 1) (Nat.succ_lt_succ hone) (two + 1)
          (Nat.succ_lt_succ htwo) fun hsame => hne (Nat.succ.inj hsame)
      obtain ⟨fuel, hdispose⟩ := MemoryPool.dispose_spec (hstores 0 pool rfl)
      obtain ⟨fuel', hdestroy⟩ := ih (hapart.deleteAll _) hlater hapart'
      refine ⟨max fuel fuel', fun more hmore => ?_⟩
      have hfirst := hdispose more (Nat.le_trans (Nat.le_max_left _ _) hmore)
      have hrest := hdestroy more (Nat.le_trans (Nat.le_max_right _ _) hmore)
      simp only [destroy, List.foldlM_cons, hfirst, Option.map_some, Option.bind_eq_bind,
        Option.bind_some] at hrest ⊢
      rw [hrest, blocks, blocks, List.length_cons, List.range_succ_eq_map, List.flatMap_cons,
        List.flatMap_map, deleteAll_append]

end VarMemPool

/-! ## What a pool adds to the heap and takes from it -/

namespace MemoryPool

variable {pool pool' : MemoryPool} {heap heap' : Heap} {chunks chunks' : List Chunk}
  {fresh p base : Nat}

/-- Besides the blocks of a pool, before and after, nothing is allocated or deleted. -/
def Exchanges (heap heap' : Heap) (chunks chunks' : List Chunk) : Prop :=
  ∀ base ∉ bases chunks',
    heap'.sizes base = if base ∈ bases chunks then none else heap.sizes base

/-- `Alloc` allocates a block for the pool, or nothing. -/
theorem Stores.exchanges_alloc (hstores : pool.Stores heap chunks)
    (hgrow : pool.CanGrow heap fresh) (halloc : pool.alloc heap fresh = some (p, pool', heap'))
    (hstores' : pool'.Stores heap' chunks') : Exchanges heap heap' chunks chunks' := by
  obtain ⟨chunk, rest, rfl⟩ := hstores.exists_head
  cases hfree : chunk.free with
  | cons unit more =>
      obtain ⟨heap₂, halloc₂, hstores₂, _, hsizes, _⟩ := alloc_of_free hstores hfree fresh
      obtain ⟨_, rfl, rfl⟩ : _ ∧ pool' = pool ∧ heap' = heap₂ := by
        simpa [halloc] using halloc₂
      obtain rfl := hstores'.unique hstores₂
      intro base hbase
      rw [hsizes, if_neg (show base ∉ bases (chunk :: rest) from hbase)]
  | nil =>
      have hfresh := hgrow (hstores.full hfree)
      obtain ⟨heap₂, halloc₂, hstores₂, _, hsizes, _⟩ := alloc_of_full hstores hfree hfresh
      obtain ⟨_, rfl, rfl⟩ : _ ∧ pool' = { pool with pBlock := some fresh } ∧ heap' = heap₂ := by
        simpa [halloc] using halloc₂
      obtain rfl := hstores'.unique hstores₂
      intro base hbase
      rw [bases_cons, List.mem_cons, not_or] at hbase
      have hne : base ≠ fresh := hbase.1
      rw [hsizes, Function.update_of_ne hne, if_neg hbase.2]

/-- `Free` deletes a block of the pool, or nothing. -/
theorem Stores.exchanges_free (hstores : pool.Stores heap chunks)
    (hused : Used pool.nUnitSize chunks p base) (hfree : pool.free heap p = some (pool', heap'))
    (hstores' : pool'.Stores heap' chunks') : Exchanges heap heap' chunks chunks' := by
  obtain ⟨chunk, hmem, rfl, unit, hunit, rfl⟩ := hused
  obtain ⟨front, back, rfl⟩ := List.append_of_mem hmem
  obtain ⟨heap₂, _, hfree₂, hstores₂, _, _, hsizes, _⟩ := free_spec hstores hunit
  rw [hfree, Option.some.injEq, Prod.mk.injEq] at hfree₂
  obtain ⟨rfl, rfl⟩ := hfree₂
  obtain rfl := hstores'.unique hstores₂
  intro other hother
  have hpushed : (chunk.push unit).base = chunk.base := rfl
  rw [hsizes]
  unfold settledSizes
  unfold settled at hother
  split
  next hdropped =>
    rw [if_pos hdropped] at hother
    by_cases hsame : other = chunk.base
    · rw [hsame, hpushed, Function.update_self, if_pos (mem_bases hmem)]
    · rw [hpushed, Function.update_of_ne hsame, if_neg]
      exact fun hbase => absurd hbase (notMem_bases_middle.mpr ⟨hsame, hother⟩)
  next hkept =>
    -- the block is moved at most, and it is there before and after
    rw [if_neg hkept] at hother
    have hnot : other ≠ chunk.base ∧ other ∉ bases (front ++ back) := by
      cases front with
      | nil => exact not_or.mp fun hmem => hother (List.mem_cons.mpr hmem)
      | cons head rest =>
          simp only at hother
          split at hother
          next => exact not_or.mp fun hmem => hother (List.mem_cons.mpr hmem)
          next =>
            have hmiddle : other ≠ (chunk.push unit).base ∧ other ∉ bases (head :: rest ++ back) :=
              notMem_bases_middle.mp hother
            exact hmiddle
    rw [if_neg (notMem_bases_middle.mpr hnot)]

end MemoryPool

/-! ## What belongs to the pools -/

open VarMemPool MemoryPool

namespace VarState

variable {before : Heap} {s next : VarState} {chunks chunks' : Nat → List Chunk} {base : Nat}

/-- What is allocated at this address belongs to a pool, or to a user who got it from
`malloc`. -/
def Owns (s : VarState) (chunks : Nat → List Chunk) (base : Nat) : Prop :=
  (∃ index < poolNum, base ∈ bases (chunks index)) ∨ ∃ size, ⟨base, size, .malloc⟩ ∈ s.live

/-- Besides what is owned everything is as it was before the constructor. -/
structure Around (before : Heap) (s : VarState) (chunks : Nat → List Chunk) : Prop where
  inv : s.Inv chunks
  outside : ∀ base, ¬ s.Owns chunks base → s.heap.sizes base = before.sizes base
  kept : ∀ base, before.sizes base ≠ none →
    ¬ s.Owns chunks base ∧ Kept before s.heap base

/-- A lease lies in what is owned. -/
theorem Located.owns {lease : Lease} {alloc : Allocation}
    (hlocated : s.Located chunks lease base alloc) (hlive : lease ∈ s.live) :
    s.Owns chunks base := by
  obtain ⟨p, size, source⟩ := lease
  cases source with
  | malloc =>
      obtain ⟨rfl, _⟩ := hlocated.plain rfl
      exact Or.inr ⟨size, hlive⟩
  | pool index =>
      obtain ⟨hindex, ⟨chunk, hmem, rfl, _⟩, _⟩ := hlocated.used index rfl
      exact Or.inl ⟨index, hindex, mem_bases hmem⟩

theorem Around.allocated (haround : s.Around before chunks) (hbase : before.sizes base ≠ none) :
    s.heap.sizes base ≠ none := by
  obtain ⟨_, hkept⟩ := haround.kept base hbase
  rwa [sizes, hkept.1, ← sizes]

/-- The constructor allocates the first block of each pool, and nothing else. -/
theorem kept_of_constructs {configs : List PoolConfig} {heap heap' : Heap}
    {pools : List MemoryPool} (hmade : Constructs configs heap pools heap') (hapart : heap.Apart)
    (hfits : ∀ config ∈ configs, config.Fits)
    (hnot : ∀ pool ∈ pools, pool.initHead ≠ some base) : Kept heap heap' base := by
  induction hmade with
  | done => exact Kept.refl _ base
  | @next config more heap middle heap' fresh pool pools hfresh hnew hmore ih =>
      obtain ⟨hfit, hfits⟩ := List.forall_mem_cons.mp hfits
      obtain ⟨hfirst, hnot⟩ := List.forall_mem_cons.mp hnot
      obtain ⟨hstores, hkept⟩ := MemoryPool.new_spec hnew hapart hfresh hfit.unitNum hfit.unitNum
        hfit.product
      obtain ⟨head, hhead, hinit⟩ := hstores.init
      obtain rfl := List.mem_singleton.mp hhead
      exact (hkept base fun hsame => hfirst (hsame ▸ hinit)).trans (ih hstores.apart hfits hnot)

/-- What the constructor has allocated belongs to the pools. -/
theorem Around.start (hapart : before.Apart) (hnone : s.live = [])
    (hmade : Constructs poolConfig before s.pools.poolArr s.heap) :
    ∃ chunks, s.Around before chunks := by
  obtain ⟨chunks, hinv⟩ := Constructed.explained ⟨hnone, before, hapart, hmade⟩
  obtain ⟨chunks₀, hpools, _⟩ := hmade.constructed hapart poolConfig_fits
  have howns : ∀ base, s.Owns chunks base → before.sizes base = none := by
    rintro base (⟨index, hindex, hbase⟩ | ⟨size, hlease⟩)
    · obtain ⟨pool, hpool⟩ := hinv.exists_pool hindex
      have hconfig := List.getElem?_eq_getElem (show index < poolConfig.length from hindex)
      have hsame : chunks index = chunks₀ index :=
        (hinv.stores index pool hpool).1.unique (hpools.stores index pool _ hpool hconfig).1
      rw [hsame] at hbase
      have hlt : index < s.pools.poolArr.length := hinv.count.symm ▸ hindex
      rw [sizes, hpools.unallocated index hlt base hbase, Option.map_none]
    · rw [hnone] at hlease
      cases hlease
  have hkept : ∀ base, ¬ s.Owns chunks base → Kept before s.heap base := by
    intro base hnot
    refine kept_of_constructs hmade hapart poolConfig_fits ?_
    intro pool hpool hinit
    obtain ⟨index, hget⟩ := List.mem_iff_getElem?.mp hpool
    obtain ⟨head, hhead, hinit'⟩ := (hinv.stores index pool hget).1.init
    obtain rfl := Option.some.inj (hinit.symm.trans hinit')
    exact hnot (Or.inl ⟨index, hinv.lt_of_pool hget, hhead⟩)
  refine ⟨chunks, hinv, fun base hnot => ?_, fun base hbase => ?_⟩
  · rw [sizes, sizes, (hkept base hnot).1]
  · have hnot : ¬ s.Owns chunks base := fun h => hbase (howns base h)
    exact ⟨hnot, hkept base hnot⟩

/-- Writing into a lease. -/
theorem Around.write (haround : s.Around before chunks) {lease : Lease} (hlive : lease ∈ s.live)
    {offset : Nat} {cells : List Byte} (hinside : offset + cells.length ≤ lease.size.toNat) :
    Around before { s with heap := s.heap.write (lease.p + offset) cells } chunks := by
  refine ⟨haround.inv.write hlive hinside, haround.outside, fun base hbase => ?_⟩
  obtain ⟨hnot, hkept⟩ := haround.kept base hbase
  obtain ⟨other, alloc, hlocated⟩ := haround.inv.located hlive
  have hlower := hlocated.lower
  have hupper := hlocated.upper
  refine ⟨hnot, hkept.trans (Kept.of_write haround.inv.apart hlocated.found ?_ ?_ ?_)⟩
  · rintro rfl
    exact hnot (hlocated.owns hlive)
  · omega
  · omega

/-- The pools besides the one that is called have the blocks they had. -/
theorem Inv.chunks_eq (hinv : s.Inv chunks) (hnext : next.Inv chunks') {index other : Nat}
    (hindex : index < poolNum) (hother : other < poolNum) (hne : other ≠ index)
    (hpool : next.pools.poolArr[other]? = s.pools.poolArr[other]?)
    (hkept : ∀ other, other ∉ bases (chunks index) → s.heap.sizes other ≠ none →
      Kept s.heap next.heap other) : chunks' other = chunks other := by
  obtain ⟨pool, hget⟩ := hinv.exists_pool hother
  refine (hnext.stores other pool (hpool.trans hget)).1.unique ?_
  refine (hinv.stores other pool hget).1.of_kept ?_ hnext.apart
  intro base hbase
  exact hkept base (hinv.separate other hother index hindex hne base hbase)
    (hinv.sizes_ne_none hother hbase)

/-- A call of one pool, which exchanges blocks with the heap. -/
theorem Around.pool (haround : s.Around before chunks) (hnext : next.Inv chunks') {index : Nat}
    {pool' : MemoryPool} (hindex : index < poolNum)
    (hset : next.pools.poolArr = s.pools.poolArr.set index pool')
    (hmalloc : ∀ p size, ⟨p, size, .malloc⟩ ∈ next.live ↔ ⟨p, size, .malloc⟩ ∈ s.live)
    (hnew : s.BasesNew chunks chunks')
    (hexchanges : Exchanges s.heap next.heap (chunks index) (chunks' index))
    (hkept : ∀ other, other ∉ bases (chunks index) → s.heap.sizes other ≠ none →
      Kept s.heap next.heap other) : next.Around before chunks' := by
  have hothers : ∀ other < poolNum, other ≠ index → chunks' other = chunks other := by
    intro other hother hne
    refine haround.inv.chunks_eq hnext hindex hother hne ?_ hkept
    rw [hset, List.getElem?_set_ne (Ne.symm hne)]
  -- what is owned afterwards was owned, or is where nothing was
  have howned : ∀ base, s.heap.sizes base ≠ none → next.Owns chunks' base → s.Owns chunks base := by
    rintro base hsome (⟨other, hother, hbase⟩ | ⟨size, hlease⟩)
    · exact Or.inl ⟨other, hother, (hnew other base hbase).resolve_right hsome⟩
    · exact Or.inr ⟨size, (hmalloc base size).mp hlease⟩
  refine ⟨hnext, fun base hnot => ?_, fun base hbase => ?_⟩
  · have hbase : base ∉ bases (chunks' index) := fun hmem => hnot (Or.inl ⟨index, hindex, hmem⟩)
    rw [hexchanges base hbase]
    split
    next hold =>
      -- a block that is gone was the pool's, so it was not there before
      by_contra hsome
      exact (haround.kept base (Ne.symm hsome)).1 (Or.inl ⟨index, hindex, hold⟩)
    next hold =>
      apply haround.outside
      rintro (⟨other, hother, hmem⟩ | ⟨size, hlease⟩)
      · by_cases hsame : other = index
        · exact hold (hsame ▸ hmem)
        · exact hnot (Or.inl ⟨other, hother, hothers other hother hsame ▸ hmem⟩)
      · exact hnot (Or.inr ⟨size, (hmalloc base size).mpr hlease⟩)
  · obtain ⟨hnot, hsame⟩ := haround.kept base hbase
    have hsome := haround.allocated hbase
    have hother : base ∉ bases (chunks index) := fun hmem => hnot (Or.inl ⟨index, hindex, hmem⟩)
    exact ⟨fun howns => hnot (howned base hsome howns), hsame.trans (hkept base hother hsome)⟩

section Calls

variable {pools pools' : VarMemPool} {heap heap' : Heap} {size : Int} {fresh p index : Nat}
  {source : Source}

/-- How `Alloc` may have returned. -/
theorem alloc_cases (halloc : pools.alloc heap size fresh = some (p, source, pools', heap')) :
    (source = .malloc ∧ p = fresh ∧ pools' = pools ∧ heap' = heap.malloc fresh size.toNat) ∨
      ∃ index pool pool', source = .pool index ∧ pools.poolArr[index]? = some pool ∧
        pool.alloc heap fresh = some (p, pool', heap') ∧
        pools'.poolArr = pools.poolArr.set index pool' := by
  have hfrom : ∀ index, pools.allocFrom heap index fresh = some (p, source, pools', heap') →
      ∃ index pool pool', source = .pool index ∧ pools.poolArr[index]? = some pool ∧
        pool.alloc heap fresh = some (p, pool', heap') ∧
        pools'.poolArr = pools.poolArr.set index pool' := by
    intro index hcall
    simp only [allocFrom, Option.bind_eq_bind, Option.bind_eq_some_iff, Option.some.injEq,
      Prod.mk.injEq] at hcall
    obtain ⟨pool, hpool, ⟨_, pool', _⟩, hcall, rfl, rfl, rfl, rfl⟩ := hcall
    exact ⟨index, pool, pool', rfl, hpool, hcall, rfl⟩
  unfold VarMemPool.alloc at halloc
  split at halloc
  next =>
    rw [Option.some.injEq, Prod.mk.injEq, Prod.mk.injEq, Prod.mk.injEq] at halloc
    obtain ⟨rfl, rfl, rfl, rfl⟩ := halloc
    exact Or.inl ⟨rfl, rfl, rfl, rfl⟩
  next =>
    split at halloc
    next => exact Or.inr (hfrom 0 halloc)
    next =>
      obtain ⟨index, _, hcall⟩ := Option.bind_eq_some_iff.mp halloc
      exact Or.inr (hfrom index hcall)

theorem free_cases (hfree : pools.free heap p size = some (source, pools', heap')) :
    (source = .malloc ∧ pools' = pools ∧ heap' = heap.delete p) ∨
      ∃ index pool pool', source = .pool index ∧ pools.poolArr[index]? = some pool ∧
        pool.free heap p = some (pool', heap') ∧
        pools'.poolArr = pools.poolArr.set index pool' := by
  have hto : ∀ index, pools.freeTo heap index p = some (source, pools', heap') →
      ∃ index pool pool', source = .pool index ∧ pools.poolArr[index]? = some pool ∧
        pool.free heap p = some (pool', heap') ∧
        pools'.poolArr = pools.poolArr.set index pool' := by
    intro index hcall
    simp only [freeTo, Option.bind_eq_bind, Option.bind_eq_some_iff, Option.some.injEq,
      Prod.mk.injEq] at hcall
    obtain ⟨pool, hpool, ⟨pool', _⟩, hcall, rfl, rfl, rfl⟩ := hcall
    exact ⟨index, pool, pool', rfl, hpool, hcall, rfl⟩
  unfold VarMemPool.free at hfree
  split at hfree
  next =>
    obtain ⟨released, hrelease, hsame⟩ := Option.bind_eq_some_iff.mp hfree
    rw [Option.some.injEq, Prod.mk.injEq, Prod.mk.injEq] at hsame
    obtain ⟨rfl, rfl, rfl⟩ := hsame
    unfold Heap.release at hrelease
    split at hrelease
    next => exact Or.inl ⟨rfl, rfl, (Option.some.inj hrelease).symm⟩
    next => cases hrelease
  next =>
    split at hfree
    next => exact Or.inr (hto 0 hfree)
    next =>
      obtain ⟨index, _, hcall⟩ := Option.bind_eq_some_iff.mp hfree
      exact Or.inr (hto index hcall)

end Calls

/-- A region from `malloc`, whose owner is a user. -/
theorem Around.malloc (haround : s.Around before chunks) {size : Int} {fresh : Nat}
    (hfresh : s.heap.Fresh fresh size.toNat)
    (hinv : Inv ⟨s.pools, s.heap.malloc fresh size.toNat, ⟨fresh, size, .malloc⟩ :: s.live⟩
      chunks) :
    Around before ⟨s.pools, s.heap.malloc fresh size.toNat, ⟨fresh, size, .malloc⟩ :: s.live⟩
      chunks := by
  have hallocs : (s.heap.malloc fresh size.toNat).allocs =
      Function.update s.heap.allocs fresh (some (.plain size.toNat)) := rfl
  refine ⟨hinv, fun base hnot => ?_, fun base hbase => ?_⟩
  · have hne : base ≠ fresh := by
      rintro rfl
      exact hnot (Or.inr ⟨size, List.mem_cons_self⟩)
    rw [sizes_of_update hallocs, Function.update_of_ne hne]
    apply haround.outside
    rintro (hpool | ⟨size', hlease⟩)
    · exact hnot (Or.inl hpool)
    · exact hnot (Or.inr ⟨size', List.mem_cons_of_mem _ hlease⟩)
  · obtain ⟨hnot, hkept⟩ := haround.kept base hbase
    have hne : base ≠ fresh := by
      rintro rfl
      refine haround.allocated hbase ?_
      rw [sizes, hfresh.unused, Option.map_none]
    refine ⟨?_, hkept.trans (Kept.of_bytes_eq (Function.update_of_ne hne _ _) rfl)⟩
    rintro (hpool | ⟨size', hlease⟩)
    · exact hnot (Or.inl hpool)
    · rcases List.mem_cons.mp hlease with hsame | hold
      · cases hsame
        exact hne rfl
      · exact hnot (Or.inr ⟨size', hold⟩)

/-- The region goes back to where nothing was. -/
theorem Around.release (haround : s.Around before chunks) {lease : Lease} (hlive : lease ∈ s.live)
    (hsource : lease.source = .malloc)
    (hinv : Inv ⟨s.pools, s.heap.delete lease.p, s.live.erase lease⟩ chunks) :
    Around before ⟨s.pools, s.heap.delete lease.p, s.live.erase lease⟩ chunks := by
  obtain ⟨p, size, source⟩ := lease
  obtain rfl : source = .malloc := hsource
  have howned : s.Owns chunks p := Or.inr ⟨size, hlive⟩
  refine ⟨hinv, fun base hnot => ?_, fun base hbase => ?_⟩
  · rw [delete_sizes]
    by_cases hsame : base = p
    · subst hsame
      rw [Function.update_self]
      by_contra hsome
      exact (haround.kept base (Ne.symm hsome)).1 howned
    · rw [Function.update_of_ne hsame]
      apply haround.outside
      rintro (hpool | ⟨size', hlease⟩)
      · exact hnot (Or.inl hpool)
      · refine hnot (Or.inr ⟨size', (List.mem_erase_of_ne ?_).mpr hlease⟩)
        intro hlease'
        cases hlease'
        exact hsame rfl
  · obtain ⟨hnot, hkept⟩ := haround.kept base hbase
    have hne : base ≠ p := by
      rintro rfl
      exact hnot howned
    refine ⟨?_, hkept.trans (Kept.of_bytes_eq (delete_allocs_of_ne hne) rfl)⟩
    rintro (hpool | ⟨size', hlease⟩)
    · exact hnot (Or.inl hpool)
    · exact hnot (Or.inr ⟨size', List.mem_of_mem_erase hlease⟩)

/-- `Alloc` keeps what does not belong to the pools. -/
theorem Around.alloc (haround : s.Around before chunks) {size : Int} {fresh p : Nat}
    {source : Source} {pools : VarMemPool} {heap : Heap}
    (halloc : s.pools.alloc s.heap size fresh = some (p, source, pools, heap))
    (hroom : s.Room size fresh source) :
    ∃ chunks', Around before ⟨pools, heap, ⟨p, size, source⟩ :: s.live⟩ chunks' := by
  obtain ⟨chunks', hnew, hnext⟩ := haround.inv.step (.alloc halloc hroom)
  have hsource := source_of_alloc halloc
  rcases alloc_cases halloc with
    ⟨rfl, rfl, rfl, rfl⟩ | ⟨index, pool, pool', rfl, hpool, hcall, hset⟩
  · have hlarge : size > unitSize (poolNum - 1) := by
      by_contra hsmall
      rw [sourceOf, if_neg hsmall] at hsource
      cases hsource
    obtain ⟨_, hrun⟩ := uniform_alloc_malloc hlarge hroom
    obtain ⟨heap', _, hsame, hinv⟩ := hrun s.heap haround.inv rfl
    rw [halloc, Option.some.injEq, Prod.mk.injEq, Prod.mk.injEq, Prod.mk.injEq] at hsame
    obtain ⟨_, _, _, rfl⟩ := hsame
    exact ⟨chunks, haround.malloc hroom hinv⟩
  · have hindex := haround.inv.lt_of_pool hpool
    have hstores := (haround.inv.stores index pool hpool).1
    have hgrow := hroom pool hpool
    have hpool' : pools.poolArr[index]? = some pool' := by
      rw [hset, List.getElem?_set_self (haround.inv.count.symm ▸ hindex)]
    have hstores' := (hnext.stores index pool' hpool').1
    obtain ⟨_, _, _, _, _, _, hrun⟩ := alloc_spec hstores hgrow
    obtain ⟨_, hsame, _, _, hkept⟩ := hrun s.heap hstores rfl
    rw [hcall, Option.some.injEq, Prod.mk.injEq, Prod.mk.injEq] at hsame
    obtain ⟨_, _, rfl⟩ := hsame
    refine ⟨chunks', haround.pool hnext hindex hset ?_ hnew
      (hstores.exchanges_alloc hgrow hcall hstores') hkept⟩
    intro q size'
    simp

/-- So does `Free`. -/
theorem Around.free (haround : s.Around before chunks) {lease : Lease} (hlive : lease ∈ s.live)
    {source : Source} {pools : VarMemPool} {heap : Heap}
    (hfree : s.pools.free s.heap lease.p lease.size = some (source, pools, heap)) :
    ∃ chunks', Around before ⟨pools, heap, s.live.erase lease⟩ chunks' := by
  obtain ⟨chunks', hnew, hnext⟩ := haround.inv.step (.free hlive hfree)
  have hsource : source = lease.source := by
    obtain ⟨_, _, _, _, hrun⟩ := haround.inv.free hlive
    obtain ⟨_, _, hsame, _⟩ := hrun s.heap haround.inv rfl
    rw [hfree, Option.some.injEq, Prod.mk.injEq] at hsame
    exact hsame.1
  rcases free_cases hfree with ⟨rfl, rfl, rfl⟩ | ⟨index, pool, pool', rfl, hpool, hcall, hset⟩
  · obtain ⟨_, hrun⟩ := haround.inv.free_malloc hlive hsource.symm
    obtain ⟨heap', _, hsame, hinv⟩ := hrun s.heap haround.inv rfl
    rw [hfree, Option.some.injEq, Prod.mk.injEq, Prod.mk.injEq] at hsame
    obtain ⟨_, _, rfl⟩ := hsame
    exact ⟨chunks, haround.release hlive hsource.symm hinv⟩
  · have hindex := haround.inv.lt_of_pool hpool
    obtain ⟨hstores, hunitSize⟩ := haround.inv.stores index pool hpool
    have hpool' : pools.poolArr[index]? = some pool' := by
      rw [hset, List.getElem?_set_self (haround.inv.count.symm ▸ hindex)]
    have hstores' := (hnext.stores index pool' hpool').1
    obtain ⟨_, base, hused⟩ := (haround.inv.pooled lease.p index).mp
      ⟨lease.size, by rw [hsource]; exact hlive⟩
    rw [← hunitSize] at hused
    obtain ⟨_, _, _, _, _, hrun⟩ := free_of_used hstores hused
    obtain ⟨_, hsame, _, _, hkept⟩ := hrun s.heap hstores rfl
    rw [hcall, Option.some.injEq, Prod.mk.injEq] at hsame
    obtain ⟨_, rfl⟩ := hsame
    refine ⟨chunks', haround.pool hnext hindex hset ?_ hnew
      (hstores.exchanges_free hused hcall hstores') fun other hother _ => hkept other hother⟩
    intro q size'
    refine ⟨fun hmem => List.mem_of_mem_erase hmem, fun hmem => ?_⟩
    refine (List.mem_erase_of_ne ?_).mpr hmem
    rintro rfl
    cases hsource

theorem Around.step (haround : s.Around before chunks) {op : VarOp} (hstep : s.Step op next) :
    ∃ chunks', next.Around before chunks' := by
  cases hstep with
  | alloc halloc hroom => exact haround.alloc halloc hroom
  | free hlive hfree => exact haround.free hlive hfree
  | write hlive hinside => exact ⟨chunks, haround.write hlive hinside⟩

theorem Around.runs (haround : s.Around before chunks) {ops : List VarOp}
    (hruns : Machine.Runs VarState.Step s ops next) : ∃ chunks', next.Around before chunks' := by
  induction hruns with
  | start => exact ⟨chunks, haround⟩
  | next _ hstep ih =>
      obtain ⟨chunks', hmiddle⟩ := ih
      exact hmiddle.step hstep

end VarState

/-- Pools are made where other things are allocated, used in any way, and destroyed. The
destructor ends, deletes each block once, and leaves what was there before the
constructor as it was, with what the users have from `malloc`. -/
theorem destroyed_pools_return_all {before : Heap} {start s : VarState} {ops : List VarOp}
    (hapart : before.Apart) (hnone : start.live = [])
    (hmade : Constructs poolConfig before start.pools.poolArr start.heap)
    (hruns : Machine.Runs VarState.Step start ops s) :
    ∃ fuel after, s.pools.destroy fuel s.heap = some after ∧
      (∀ p size, ⟨p, size, .malloc⟩ ∈ s.live → after.allocs p = some (.plain size.toNat)) ∧
      (∀ base, (∀ size, ⟨base, size, .malloc⟩ ∉ s.live) →
        after.allocs base = before.allocs base) ∧
      ∀ base, before.allocs base ≠ none → Kept before after base := by
  obtain ⟨chunks, hstart⟩ := VarState.Around.start hapart hnone hmade
  obtain ⟨chunks', haround⟩ := hstart.runs hruns
  have hinv := haround.inv
  obtain ⟨fuel, hdestroy⟩ := destroy_spec hinv.apart
    (fun index pool hpool => (hinv.stores index pool hpool).1) (hinv.count.symm ▸ hinv.separate)
  rw [hinv.count] at hdestroy
  have hkept : ∀ base, before.allocs base ≠ none →
      Kept before (s.heap.deleteAll (blocks poolNum chunks')) base := by
    intro base hbase
    obtain ⟨hnot, hsame⟩ := haround.kept base (fun h => hbase (Option.map_eq_none_iff.mp h))
    exact hsame.trans (Kept.deleteAll fun hmem => hnot (Or.inl (mem_blocks.mp hmem)))
  refine ⟨fuel, _, hdestroy fuel (Nat.le_refl _), ?_, ?_, hkept⟩
  · intro p size hlease
    have hplain := hinv.plain p size hlease
    rw [deleteAll_allocs_of_notMem, hplain]
    intro hmem
    obtain ⟨index, hindex, hbase⟩ := mem_blocks.mp hmem
    obtain ⟨header, hfound⟩ := hinv.allocated hindex hbase
    rw [hplain] at hfound
    cases hfound
  · intro base hlease
    cases hbefore : before.allocs base with
    | some alloc =>
        have hsome : before.allocs base ≠ none := by
          rw [hbefore]
          exact Option.some_ne_none _
        exact (hkept base hsome).1.trans hbefore
    | none =>
        by_cases hmem : base ∈ blocks poolNum chunks'
        · exact deleteAll_allocs_of_mem hmem
        · have hnot : ¬ s.Owns chunks' base := by
            rintro (hpool | ⟨size, hlive⟩)
            · exact hmem (mem_blocks.mpr hpool)
            · exact hlease size hlive
          have hsame := haround.outside base hnot
          rw [sizes, sizes, hbefore, Option.map_none, Option.map_eq_none_iff] at hsame
          exact (deleteAll_allocs_of_notMem hmem).trans hsame

/-- Twenty bytes are handed out, and the pools are destroyed. Somebody else's sixteen
bytes are all that is allocated before and after. -/
theorem destroyed_pools_return_all_one : ∃ (start s : VarState) (ops : List VarOp) (fuel : Nat)
    (after : Heap), Machine.Runs VarState.Step start ops s ∧ s.live.length = 1 ∧
      s.pools.destroy fuel s.heap = some after ∧ after.allocs = (vacant.malloc 64 16).allocs := by
  have hfresh : vacant.Fresh 64 16 := vacant_fresh (by decide) (by decide)
  have hapart : (vacant.malloc 64 16).Apart := vacant_apart.allocate hfresh rfl
  have hbelow : Below (vacant.malloc 64 16) 4096 := by
    intro base size hfound
    rw [sizes_of_update rfl, Function.update_apply] at hfound
    split at hfound
    next hsame =>
      cases hfound
      exact ⟨by omega, by simp only [Allocation.size]; omega⟩
    next => cases hfound
  have hsizes : ∀ config ∈ poolConfig, 4 ≤ (config.unitSize + 2) % 65536 ∧ 1 ≤ config.unitNum := by
    decide
  obtain ⟨pools, heap, hmade, _⟩ :=
    exists_constructs hbelow (by decide) poolConfig_fits hsizes (by decide)
  obtain ⟨chunks, hstart⟩ := VarState.Around.start (s := ⟨⟨pools⟩, heap, []⟩) hapart rfl hmade
  have hroom : VarState.Room ⟨⟨pools⟩, heap, []⟩ 20 8192 (sourceOf 20) :=
    fun pool hpool => hstart.inv.canGrow_of_none rfl hpool
  obtain ⟨p, pools', _, _, _, hrun⟩ := hstart.inv.alloc hroom
  obtain ⟨heap', _, halloc, _⟩ := hrun heap hstart.inv rfl
  have hruns := Machine.Runs.single (VarState.Step.alloc halloc hroom)
  obtain ⟨fuel, after, hdestroy, _, hallocs, _⟩ :=
    destroyed_pools_return_all hapart rfl hmade hruns
  refine ⟨_, _, _, fuel, after, hruns, rfl, hdestroy, funext fun base => hallocs base ?_⟩
  intro size hlease
  have hsource : Source.malloc = sourceOf 20 :=
    congrArg Lease.source (List.mem_singleton.mp hlease)
  exact absurd hsource (by decide)

end SelectNet
