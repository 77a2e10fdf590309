import Mathlib.Algebra.Order.BigOperators.Group.List
import Mathlib.Data.List.Nodup
import SelectNet.Allocation.BlockSizes
import SelectNet.CommonLib.MemInfo

/-!
# What GetInfo reports

The counters of the blocks are those of the chunks, and what the chunks have
handed out is what is live. `GetInfo` reports that as far as 16 bits go.
-/

namespace SelectNet

open VarMemPool MemoryPool Heap

/-! ## Live units -/

section Units

variable {unitSize : Nat} {chunk : Chunk} {chunks : List Chunk} {pool : MemoryPool} {heap : Heap}

/-- Units that a chunk has handed out. -/
def Chunk.liveUnits (chunk : Chunk) : List Nat :=
  (List.range chunk.num).filter fun unit => decide (unit ∉ chunk.free)

/-- Pointers that a pool has handed out. -/
def livePointers (unitSize : Nat) (chunks : List Chunk) : List Nat :=
  chunks.flatMap fun chunk => chunk.liveUnits.map (payload unitSize chunk.base)

/-- Units on the free chains. -/
def chained (chunks : List Chunk) : Nat := (chunks.map fun chunk => chunk.free.length).sum

theorem Chunk.mem_liveUnits {unit : Nat} : unit ∈ chunk.liveUnits ↔ chunk.Live unit := by
  rw [liveUnits, List.mem_filter, List.mem_range, decide_eq_true_iff]
  rfl

/-- A unit is on the free chain or handed out. -/
theorem Chunk.Valid.length_liveUnits (hvalid : chunk.Valid unitSize) :
    chunk.liveUnits.length + chunk.free.length = chunk.num := by
  have hperm : ((List.range chunk.num).filter fun unit => decide (unit ∈ chunk.free)).Perm
      chunk.free := by
    rw [List.perm_ext_iff_of_nodup (List.nodup_range.filter _) hvalid.nodup]
    intro unit
    rw [List.mem_filter, List.mem_range, decide_eq_true_iff, and_iff_right_iff_imp]
    exact hvalid.below unit
  have hsplit := List.length_eq_length_filter_add (l := List.range chunk.num)
    (fun unit => decide (unit ∈ chunk.free))
  rw [hperm.length_eq, List.length_range] at hsplit
  simp only [← decide_not] at hsplit
  rw [liveUnits]
  omega

theorem mem_livePointers {p : Nat} :
    p ∈ livePointers unitSize chunks ↔ ∃ base, Used unitSize chunks p base := by
  simp only [livePointers, List.mem_flatMap, List.mem_map, Chunk.mem_liveUnits, Used]
  constructor
  · rintro ⟨chunk, hmem, unit, hlive, rfl⟩
    exact ⟨chunk.base, chunk, hmem, rfl, unit, hlive, rfl⟩
  · rintro ⟨_, chunk, hmem, rfl, unit, hlive, rfl⟩
    exact ⟨chunk, hmem, unit, hlive, rfl⟩

theorem length_livePointers (hvalid : ∀ chunk ∈ chunks, chunk.Valid unitSize) :
    (livePointers unitSize chunks).length + chained chunks = units chunks := by
  induction chunks with
  | nil => rfl
  | cons chunk rest ih =>
      obtain ⟨hchunk, hrest⟩ := List.forall_mem_cons.mp hvalid
      have hsum := ih hrest
      have hone := hchunk.length_liveUnits
      simp only [livePointers, chained, units, List.flatMap_cons, List.length_append,
        List.length_map, List.map_cons, List.sum_cons] at hsum ⊢
      omega

theorem MemoryPool.Stores.nodup_livePointers (hstores : pool.Stores heap chunks) :
    (livePointers pool.nUnitSize chunks).Nodup := by
  rw [livePointers, List.nodup_flatMap]
  constructor
  · intro chunk hmem
    refine (List.nodup_range.filter _).map_on ?_
    intro one hone two htwo hsame
    exact (hstores.payload_inj hmem hmem (Chunk.mem_liveUnits.mp hone).1
      (Chunk.mem_liveUnits.mp htwo).1 hsame).2
  · apply (hstores.nodup.of_map _).pairwise_of_forall_ne
    intro one hone two htwo hne p hp hp'
    obtain ⟨unit, hunit, rfl⟩ := List.mem_map.mp hp
    obtain ⟨unit', hunit', hsame⟩ := List.mem_map.mp hp'
    exact hne (hstores.payload_inj hone htwo (Chunk.mem_liveUnits.mp hunit).1
      (Chunk.mem_liveUnits.mp hunit').1 hsame.symm).1

end Units

namespace VarState

variable {s : VarState} {chunks : Nat → List Chunk}

/-- Live allocations that come from pools. -/
def livePoolUnits (s : VarState) : Nat := s.live.countP fun lease => lease.source ≠ .malloc

theorem Inv.countP_source (hinv : s.Inv chunks) {index : Nat} (hindex : index < poolNum) :
    (s.live.countP fun lease => lease.source = .pool index) + chained (chunks index) =
      units (chunks index) := by
  obtain ⟨pool, hpool⟩ := hinv.exists_pool hindex
  obtain ⟨hstores, hunitSize⟩ := hinv.stores index pool hpool
  have hperm : ((s.live.filter fun lease => lease.source = .pool index).map Lease.p).Perm
      (livePointers pool.nUnitSize (chunks index)) := by
    rw [List.perm_ext_iff_of_nodup (hinv.once.sublist (List.filter_sublist.map Lease.p))
      hstores.nodup_livePointers]
    intro p
    rw [mem_livePointers, hunitSize]
    have hpooled := hinv.pooled p index
    rw [and_iff_right hindex] at hpooled
    rw [← hpooled, List.mem_map]
    simp only [List.mem_filter, decide_eq_true_iff]
    constructor
    · rintro ⟨⟨_, size, _⟩, ⟨hlive, rfl⟩, rfl⟩
      exact ⟨size, hlive⟩
    · rintro ⟨size, hlive⟩
      exact ⟨_, ⟨hlive, rfl⟩, rfl⟩
  rw [List.countP_eq_length_filter, ← List.length_map Lease.p, hperm.length_eq]
  exact length_livePointers hstores.valid

/-- A sum that has one term in a row. -/
theorem sum_map_ite (count index : Nat) :
    ((List.range count).map fun other => if index = other then 1 else 0).sum =
      if index < count then 1 else 0 := by
  induction count with
  | zero => rfl
  | succ count ih =>
      rw [List.range_succ, List.map_append, List.sum_append, ih, List.map_singleton,
        List.sum_singleton]
      split <;> split <;> split <;> omega

/-- Every lease that is not from `malloc` is from one of the pools. -/
theorem Inv.livePoolUnits_eq (hinv : s.Inv chunks) :
    s.livePoolUnits = ((List.range poolNum).map fun index =>
      s.live.countP fun lease => lease.source = .pool index).sum := by
  have hsource : ∀ lease ∈ s.live, ∀ index, lease.source = .pool index → index < poolNum :=
    fun lease hlive index hpool => (routed_pool (hinv.routed lease hlive) hpool).2.2.1
  unfold livePoolUnits
  generalize s.live = live at hsource
  induction live with
  | nil => simp
  | cons lease rest ih =>
      obtain ⟨hlease, hrest⟩ := List.forall_mem_cons.mp hsource
      simp only [List.countP_cons, List.sum_map_add, ih hrest]
      congr 1
      cases hfrom : lease.source with
      | malloc => simp
      | pool index => simpa [hlease index hfrom] using (sum_map_ite poolNum index).symm

theorem Inv.livePoolUnits_add (hinv : s.Inv chunks) :
    s.livePoolUnits + ((List.range poolNum).map fun index => chained (chunks index)).sum =
      ((List.range poolNum).map fun index => units (chunks index)).sum := by
  rw [hinv.livePoolUnits_eq, ← List.sum_map_add]
  congr 1
  exact List.map_congr_left fun index hindex => hinv.countP_source (List.mem_range.mp hindex)

/-! ## The blocks -/

/-- What is true of the header of every block. -/
structure Sound (block : MemoryBlock) : Prop where
  shaped : block.Shaped
  pos : 0 < block.nUnitNum
  free : block.nFree ≤ block.nUnitNum
  product : block.nUnitNum * block.nUnitSize < 2 ^ 31

theorem exists_blocks {heap : Heap} {unitSize : Nat} {chunks : List Chunk}
    (hholds : ∀ chunk ∈ chunks, heap.Holds unitSize chunk)
    (hvalid : ∀ chunk ∈ chunks, chunk.Valid unitSize)
    (hshaped : ∀ base ∈ bases chunks, heap.Shaped base) :
    ∃ blocks, (bases chunks).map heap.block = blocks.map some ∧
      (∀ block ∈ blocks, Sound block) ∧ totalUnits blocks = units chunks ∧
      freeUnits blocks = chained chunks ∧ totalBytes blocks = units chunks * unitSize := by
  induction chunks with
  | nil => exact ⟨[], rfl, nofun, rfl, rfl, (Nat.zero_mul _).symm⟩
  | cons chunk rest ih =>
      obtain ⟨hhold, hholds⟩ := List.forall_mem_cons.mp hholds
      obtain ⟨hone, hvalid⟩ := List.forall_mem_cons.mp hvalid
      rw [bases_cons, List.forall_mem_cons] at hshaped
      obtain ⟨blocks, hblocks, hsound, htotal, hfree, hbytes⟩ := ih hholds hvalid hshaped.2
      obtain ⟨block, hfound, hdescribes, _⟩ := hhold.found
      refine ⟨block :: blocks, ?_, ?_, ?_, ?_, ?_⟩
      · rw [bases_cons, List.map_cons, List.map_cons, hfound, hblocks]
      · rw [List.forall_mem_cons]
        refine ⟨⟨hshaped.1 block hfound, ?_, ?_, ?_⟩, hsound⟩
        · exact hdescribes.unitNum ▸ hone.numPos
        · rw [hdescribes.nFree, hdescribes.unitNum]
          exact hone.length_le
        · rw [hdescribes.unitNum, hdescribes.unitSize]
          exact hone.product
      · rw [totalUnits, List.map_cons, List.sum_cons, hdescribes.unitNum]
        exact congrArg (chunk.num + ·) htotal
      · rw [freeUnits, List.map_cons, List.sum_cons, hdescribes.nFree]
        exact congrArg (chunk.free.length + ·) hfree
      · rw [totalBytes, List.map_cons, List.sum_cons, hdescribes.unitNum, hdescribes.unitSize,
          units, List.map_cons, List.sum_cons, Nat.add_mul]
        exact congrArg (chunk.num * unitSize + ·) hbytes

/-- The blocks of the pools have the units of the chunks. -/
theorem ShapedInv.exists_lists (hinv : s.ShapedInv chunks) :
    ∃ blocks, s.pools.Lists s.heap blocks ∧ (∀ block ∈ blocks, Sound block) ∧
      totalUnits blocks = ((List.range poolNum).map fun index => units (chunks index)).sum ∧
      freeUnits blocks = ((List.range poolNum).map fun index => chained (chunks index)).sum ∧
      totalBytes blocks = ((List.range poolNum).map fun index =>
        units (chunks index) * (unitSize index + 2)).sum := by
  have hpool : ∀ index, ∃ blocks : List MemoryBlock, index < poolNum →
      (∃ pool, s.pools.poolArr[index]? = some pool ∧ pool.Lists s.heap blocks) ∧
      (∀ block ∈ blocks, Sound block) ∧ totalUnits blocks = units (chunks index) ∧
      freeUnits blocks = chained (chunks index) ∧
      totalBytes blocks = units (chunks index) * (unitSize index + 2) := by
    intro index
    by_cases hindex : index < poolNum
    · obtain ⟨pool, hpool⟩ := hinv.inv.exists_pool hindex
      obtain ⟨hstores, hunitSize⟩ := hinv.inv.stores index pool hpool
      obtain ⟨blocks, hblocks, hrest⟩ :=
        exists_blocks hstores.holds hstores.valid (hinv.shaped index hindex)
      rw [hunitSize] at hrest
      exact ⟨blocks, fun _ =>
        ⟨⟨pool, hpool, bases (chunks index), hstores.linked, hstores.head, hblocks⟩, hrest⟩⟩
    · exact ⟨[], fun hlt => absurd hlt hindex⟩
  choose each heach using hpool
  refine ⟨((List.range poolNum).map each).flatten, ⟨(List.range poolNum).map each, ?_, rfl⟩,
    ?_, ?_, ?_, ?_⟩
  · rw [List.forall₂_iff_get]
    refine ⟨by rw [hinv.inv.count, List.length_map, List.length_range], ?_⟩
    intro index hindex hindex'
    obtain ⟨⟨pool, hpool, hlists⟩, _⟩ := heach index (hinv.inv.count ▸ hindex)
    rw [List.getElem?_eq_getElem hindex, Option.some.injEq] at hpool
    simpa [hpool] using hlists
  · intro block hblock
    obtain ⟨_, hmem, hblock⟩ := List.mem_flatten.mp hblock
    obtain ⟨index, hindex, rfl⟩ := List.mem_map.mp hmem
    exact (heach index (List.mem_range.mp hindex)).2.1 block hblock
  · rw [totalUnits, List.map_flatten, List.sum_flatten, List.map_map, List.map_map]
    congr 1
    exact List.map_congr_left fun index hindex => (heach index (List.mem_range.mp hindex)).2.2.1
  · rw [freeUnits, List.map_flatten, List.sum_flatten, List.map_map, List.map_map]
    congr 1
    exact List.map_congr_left fun index hindex => (heach index (List.mem_range.mp hindex)).2.2.2.1
  · rw [totalBytes, List.map_flatten, List.sum_flatten, List.map_map, List.map_map]
    congr 1
    exact List.map_congr_left fun index hindex => (heach index (List.mem_range.mp hindex)).2.2.2.2

end VarState

/-! ## The report -/

/-- The fields are the sums over the blocks, and the units that are not free are
the live ones. -/
structure MemInfo.Exact (info : MemInfo) (blocks : List MemoryBlock) (live : Nat) : Prop where
  blockNum : info.blockNum = blocks.length
  totalUnit : info.totalUnit = totalUnits blocks
  used : (info.totalUnit : Int) - info.freeUnit = live
  totalMem : info.totalMem = totalBytes blocks
  freeMem : info.freeMem = freeBytes blocks

section Sums

variable {blocks : List MemoryBlock}

theorem freeBytes_le (hsound : ∀ block ∈ blocks, VarState.Sound block) :
    freeBytes blocks ≤ totalBytes blocks :=
  List.sum_le_sum fun block hblock => Nat.mul_le_mul_right _ (hsound block hblock).free

theorem length_le_totalUnits (hsound : ∀ block ∈ blocks, VarState.Sound block) :
    blocks.length ≤ totalUnits blocks := by
  rw [totalUnits, ← List.length_map MemoryBlock.nUnitNum]
  apply List.length_le_sum_of_one_le
  intro count hcount
  obtain ⟨block, hblock, rfl⟩ := List.mem_map.mp hcount
  exact (hsound block hblock).pos

theorem sum_nSize (hsound : ∀ block ∈ blocks, VarState.Sound block) :
    (blocks.map MemoryBlock.nSize).sum = totalBytes blocks := by
  rw [totalBytes]
  congr 1
  exact List.map_congr_left fun block hblock => (hsound block hblock).shaped

end Sums

/-- A tally is exact if and only if the units are fewer than a `USHORT` counts. -/
theorem MemInfo.Tallies.exact_iff {info : MemInfo} {blocks : List MemoryBlock} {live : Nat}
    (htallies : info.Tallies blocks) (hsound : ∀ block ∈ blocks, VarState.Sound block)
    (hlive : live + freeUnits blocks = totalUnits blocks) (hbytes : totalBytes blocks < 2 ^ 32) :
    info.Exact blocks live ↔ totalUnits blocks < 65536 := by
  have htotal := htallies.totalUnit
  have hfree := htallies.freeUnit
  have hmem := htallies.totalMem
  rw [sum_nSize hsound] at hmem
  constructor
  · intro hexact
    have hsame := hexact.totalUnit
    omega
  · intro hshort
    have hlen := length_le_totalUnits hsound
    have hnum := htallies.blockNum
    have hfreeMem := htallies.freeMem
    have hle := freeBytes_le hsound
    exact ⟨by omega, by omega, by omega, by omega, by omega⟩

/-- What `GetInfo` reports is a tally of the blocks. -/
theorem VarState.ShapedInv.getInfo {s : VarState} {chunks : Nat → List Chunk}
    (hinv : s.ShapedInv chunks) {blocks : List MemoryBlock}
    (hlists : s.pools.Lists s.heap blocks) (hbytes : totalBytes blocks < 2 ^ 32) :
    ∃ fuel info, s.pools.getInfo fuel s.heap .zeroed = some info ∧
      (info.Exact blocks s.livePoolUnits ↔ totalUnits blocks < 65536) := by
  obtain ⟨blocks', hlists', hsound, htotal, hfree, _⟩ := hinv.exists_lists
  obtain rfl := hlists.unique hlists'
  have hproduct : ∀ block ∈ blocks, block.nFree * block.nUnitSize < 2 ^ 31 := fun block hblock =>
    (Nat.mul_le_mul_right _ (hsound block hblock).free).trans_lt (hsound block hblock).product
  obtain ⟨info, hinfo, htallies⟩ := hlists.getInfo hinv.inv.count hproduct
  refine ⟨_, info, hinfo, htallies.exact_iff hsound ?_ hbytes⟩
  rw [hfree, htotal]
  exact hinv.inv.livePoolUnits_add

/-- `GetInfo` on a zeroed `MemInfo` returns, and is exact if and only if the pools
have fewer than 65536 units, as long as the bytes can be counted. -/
theorem getInfo_exact_iff {s : VarState} (hreach : varMachine.Reachable s)
    {blocks : List MemoryBlock} (hlists : s.pools.Lists s.heap blocks)
    (hbytes : totalBytes blocks < 2 ^ 32) :
    (∃ fuel info, s.pools.getInfo fuel s.heap .zeroed = some info) ∧
      ∀ fuel info, s.pools.getInfo fuel s.heap .zeroed = some info →
        (info.Exact blocks s.livePoolUnits ↔ totalUnits blocks < 65536) := by
  obtain ⟨chunks, hinv⟩ := VarState.sizesNoted_of_reachable hreach
  obtain ⟨fuel, info, hinfo, hexact⟩ := hinv.getInfo hlists hbytes
  refine ⟨⟨fuel, info, hinfo⟩, fun other info' hinfo' => ?_⟩
  rwa [VarMemPool.getInfo_unique hinfo' hinfo]

/-! ## Many small allocations -/

namespace VarState

/-- The size of a block of the smallest class. -/
def blockSize : Nat := sizeofMemoryBlock + 18 * 1000

/-- What is below this after so many allocations of the smallest class. -/
def bound (count : Nat) : Nat := 4096 + total poolConfig + blockSize * count

theorem bound_succ (count : Nat) : bound (count + 1) = bound count + blockSize := by
  unfold bound
  generalize 4096 + total poolConfig = start
  rw [Nat.mul_add, Nat.mul_one, Nat.add_assoc]

/-- The pool for the smallest class has grown by at most a block each time. -/
structure Filled (s : VarState) (chunks : Nat → List Chunk) (count : Nat) : Prop where
  inv : s.ShapedInv chunks
  live : s.livePoolUnits = count
  below : Below s.heap (bound count)
  first : units (chunks 0) ≤ 1000 + 1000 * count
  others : ∀ index < poolNum, index ≠ 0 → units (chunks index) = 1000
  grows : ∀ pool, s.pools.poolArr[0]? = some pool → pool.nGrowUnitNum = 1000

theorem exists_new : ∃ (s : VarState) (chunks : Nat → List Chunk),
    s.Constructed ∧ s.Filled chunks 0 := by
  obtain ⟨s, hmade, hbound⟩ := exists_constructed
  obtain ⟨chunks, hinv, hfirst⟩ := hmade.exists_shapedInv
  have hunitNum : ∀ config ∈ poolConfig, config.unitNum = 1000 := by decide
  have hone : ∀ index < poolNum, ∃ pool, s.pools.poolArr[index]? = some pool ∧
      pool.nGrowUnitNum = 1000 ∧ units (chunks index) = 1000 := by
    intro index hindex
    obtain ⟨pool, hpool⟩ := hinv.inv.exists_pool hindex
    have hconfig := List.getElem?_eq_getElem (show index < poolConfig.length from hindex)
    obtain ⟨hgrow, base, hchunks⟩ := hfirst index pool _ hpool hconfig
    rw [hunitNum _ (List.getElem_mem _)] at hgrow hchunks
    refine ⟨pool, hpool, hgrow, ?_⟩
    rw [hchunks, units, List.map_singleton, List.sum_singleton, grown]
  refine ⟨s, chunks, hmade, hinv, ?_, hbound, ?_, ?_, ?_⟩
  · rw [livePoolUnits, hmade.none]
    rfl
  · obtain ⟨_, _, _, hunits⟩ := hone 0 (by decide)
    omega
  · intro index hindex _
    exact (hone index hindex).choose_spec.2.2
  · intro pool hpool
    obtain ⟨pool', hpool', hgrow, _⟩ := hone 0 (by decide)
    cases hpool.symm.trans hpool'
    exact hgrow

theorem Below.mono {heap heap' : Heap} {bound more : Nat} (hbelow : Below heap bound)
    (hsizes : heap'.sizes = heap.sizes) (hle : bound ≤ more) : Below heap' more := by
  intro base size hfound
  rw [hsizes] at hfound
  obtain ⟨hlt, hend⟩ := hbelow base size hfound
  exact ⟨by omega, by omega⟩

/-- One more allocation of 16 bytes. -/
theorem Filled.alloc {s : VarState} {chunks : Nat → List Chunk} {count : Nat}
    (hfilled : s.Filled chunks count) (hroom : bound (count + 1) ≤ 2 ^ 64) :
    ∃ op next chunks', s.Step op next ∧ next.Filled chunks' (count + 1) := by
  have hbound := bound_succ count
  have hpos : 0 < bound count := Nat.lt_of_lt_of_le (by decide) (Nat.le_add_right _ _)
  have hinv := hfilled.inv.inv
  obtain ⟨pool, hpool⟩ := hinv.exists_pool (show 0 < poolNum by decide)
  obtain ⟨hstores, hunitSize⟩ := hinv.stores 0 pool hpool
  have hunitSize : pool.nUnitSize = 18 := hunitSize
  have hgrow := hfilled.grows pool hpool
  have hcanGrow : pool.CanGrow s.heap (bound count) := by
    intro _
    rw [hunitSize, hgrow]
    exact hfilled.below.fresh hpos (hbound ▸ hroom)
  obtain ⟨p, block, chunks', sizes', hhanded, hgrown, hrun⟩ := alloc_spec hstores hcanGrow
  obtain ⟨heap', halloc, hstores', hsizes', hkept⟩ := hrun s.heap hstores rfl
  have hclass : classOf 16 = some 0 := by decide
  have hle : (16 : Int) ≤ unitSize (poolNum - 1) := by decide
  have hnext := hinv.hand hle hclass hpool hhanded hstores' hkept
  have hstep : s.Step (.alloc 16 (bound count) p (.pool 0)) _ :=
    .alloc (alloc_of_class hle hclass hpool halloc) fun other hother => by
      cases hpool.symm.trans hother
      exact hcanGrow
  refine ⟨_, _, Function.update chunks 0 chunks', hstep,
    hfilled.inv.of_step hstep (.update hhanded.bases) hnext, ?_, ?_, ?_, ?_, ?_⟩
  · rw [livePoolUnits, List.countP_cons, ← livePoolUnits, hfilled.live]
    rfl
  · rcases hgrown with ⟨hsame, _⟩ | ⟨hmore, _⟩
    · exact Below.mono hfilled.below (hsizes'.trans hsame) (hbound ▸ Nat.le_add_right _ _)
    · rw [hunitSize, hgrow] at hmore
      exact hbound ▸ hfilled.below.update (hsizes'.trans hmore) (by decide)
  · have hfirst := hfilled.first
    rw [Function.update_self]
    rcases hgrown with ⟨_, hsame⟩ | ⟨_, hmore⟩
    · omega
    · omega
  · intro index hindex hne
    rw [Function.update_of_ne hne]
    exact hfilled.others index hindex hne
  · intro other hother
    rw [List.getElem?_set_self (hinv.count.symm ▸ (by decide : 0 < poolNum))] at hother
    cases hother
    exact hgrow

theorem exists_filled (count : Nat) (hroom : bound count ≤ 2 ^ 64) :
    ∃ s chunks, varMachine.Reachable s ∧ s.Filled chunks count := by
  induction count with
  | zero =>
      obtain ⟨s, chunks, hmade, hfilled⟩ := exists_new
      exact ⟨s, chunks, .start hmade, hfilled⟩
  | succ count ih =>
      have hle : bound count ≤ bound (count + 1) := bound_succ count ▸ Nat.le_add_right _ _
      obtain ⟨s, chunks, hreach, hfilled⟩ := ih (hle.trans hroom)
      obtain ⟨op, next, chunks', hstep, hnext⟩ := hfilled.alloc hroom
      exact ⟨next, chunks', hreach.next hstep, hnext⟩

theorem range_poolNum : List.range poolNum = [0, 1, 2, 3, 4, 5, 6] := by decide

/-- The blocks have the live units, and little more. -/
theorem Filled.exists_lists {s : VarState} {chunks : Nat → List Chunk} {count : Nat}
    (hfilled : s.Filled chunks count) :
    ∃ blocks, s.pools.Lists s.heap blocks ∧ count ≤ totalUnits blocks ∧
      totalUnits blocks ≤ 7000 + 1000 * count ∧ totalBytes blocks ≤ 2046000 + 18000 * count := by
  obtain ⟨blocks, hlists, _, htotal, _, hbytes⟩ := hfilled.inv.exists_lists
  have hlive := hfilled.inv.inv.livePoolUnits_add
  rw [hfilled.live, ← htotal] at hlive
  refine ⟨blocks, hlists, by omega, ?_⟩
  have hfirst := hfilled.first
  simp only [range_poolNum, List.map_cons, List.map_nil, List.sum_cons, List.sum_nil,
    hfilled.others 1 (by decide) (by decide), hfilled.others 2 (by decide) (by decide),
    hfilled.others 3 (by decide) (by decide), hfilled.others 4 (by decide) (by decide),
    hfilled.others 5 (by decide) (by decide), hfilled.others 6 (by decide) (by decide)]
    at htotal hbytes
  simp only [unitSize, poolConfig, List.getD_cons_zero, List.getD_cons_succ] at hbytes
  omega

end VarState

/-- Three live units beside the free ones of all pools are reported exactly. -/
theorem getInfo_exact_three : ∃ s blocks fuel info, varMachine.Reachable s ∧
    s.livePoolUnits = 3 ∧ s.pools.Lists s.heap blocks ∧ 3 ≤ totalUnits blocks ∧
    s.pools.getInfo fuel s.heap .zeroed = some info ∧ info.Exact blocks s.livePoolUnits := by
  obtain ⟨s, chunks, hreach, hfilled⟩ := VarState.exists_filled 3 (by decide)
  obtain ⟨blocks, hlists, hmany, htotal, hbytes⟩ := hfilled.exists_lists
  obtain ⟨⟨fuel, info, hinfo⟩, hexact⟩ := getInfo_exact_iff hreach hlists (by omega)
  have hthree := (hexact fuel info hinfo).mpr (by omega)
  exact ⟨s, blocks, fuel, info, hreach, hfilled.live, hlists, hmany, hinfo, hthree⟩

/-- After 65536 allocations of 16 bytes the units do not fit any more, though the
bytes do. -/
theorem getInfo_wraps_units : ¬ ∀ s, varMachine.Reachable s → ∀ blocks,
    s.pools.Lists s.heap blocks → totalBytes blocks < 2 ^ 32 → ∃ fuel info,
      s.pools.getInfo fuel s.heap .zeroed = some info ∧ info.Exact blocks s.livePoolUnits := by
  intro hall
  obtain ⟨s, chunks, hreach, hfilled⟩ := VarState.exists_filled 65536 (by decide)
  obtain ⟨blocks, hlists, hmany, _, hbytes⟩ := hfilled.exists_lists
  obtain ⟨fuel, info, hinfo, hexact⟩ := hall s hreach blocks hlists (by omega)
  obtain ⟨other, info', hinfo', hiff⟩ := hfilled.inv.getInfo hlists (by omega)
  obtain rfl := VarMemPool.getInfo_unique hinfo hinfo'
  exact absurd (hiff.mp hexact) (Nat.not_lt.mpr hmany)

end SelectNet
