import SelectNet.CommonLib.VarMemPool

/-!
# MemInfo

`GetInfo` walks over the blocks of a pool and adds to the fields of a `MemInfo`,
whose byte counts have 32 bits and whose other counts have 16.
-/

namespace SelectNet

open Heap

structure MemInfo where
  totalMem : Nat
  freeMem : Nat
  totalUnit : Nat
  freeUnit : Nat
  blockNum : Nat
  deriving DecidableEq

namespace MemInfo

/-- `memset(&info, 0, sizeof(MemInfo))` -/
def zeroed : MemInfo := ⟨0, 0, 0, 0, 0⟩

/-- What `GetInfo` adds for one block. The product is one of `int`s. -/
def count (info : MemInfo) (curBlock : MemoryBlock) : Option MemInfo :=
  (intMul curBlock.nFree curBlock.nUnitSize).map fun free =>
    { totalMem := (info.totalMem + curBlock.nSize) % 2 ^ 32
      freeMem := (info.freeMem + free) % 2 ^ 32
      totalUnit := (info.totalUnit + curBlock.nUnitNum) % 65536
      freeUnit := (info.freeUnit + curBlock.nFree) % 65536
      blockNum := (info.blockNum + 1) % 65536 }

end MemInfo

/-- One pass of the loop of `MemoryPool::GetInfo`, at `curBlock`. -/
def MemoryPool.getInfoPass (heap : Heap) :
    MemInfo × Option Nat → Pass (MemInfo × Option Nat) (Option MemInfo)
  | (info, none) => .leave (some info)
  | (info, some curBlock) =>
      match heap.block curBlock with
      | none => .leave none
      | some header =>
          match info.count header with
          | none => .leave none
          | some info => .again (info, header.pNext)

def MemoryPool.getInfo (fuel : Nat) (pool : MemoryPool) (heap : Heap) (info : MemInfo) :
    Option MemInfo :=
  (Loop.run (getInfoPass heap) fuel (info, pool.pBlock)).join

def VarMemPool.getInfo (fuel : Nat) (pools : VarMemPool) (heap : Heap) (memInfo : MemInfo) :
    Option MemInfo :=
  (List.range poolNum).foldlM (fun memInfo i => do
    let pool ← pools.poolArr[i]?
    pool.getInfo fuel heap memInfo) memInfo

/-! ## Counting blocks -/

/-- The blocks of a pool, in the order of its list. -/
def MemoryPool.Lists (pool : MemoryPool) (heap : Heap) (blocks : List MemoryBlock) : Prop :=
  ∃ addresses, LinkedFrom heap.pre heap.next none addresses ∧
    pool.pBlock = addresses.head? ∧ addresses.map heap.block = blocks.map some

/-- The blocks of all pools. -/
def VarMemPool.Lists (pools : VarMemPool) (heap : Heap) (blocks : List MemoryBlock) : Prop :=
  ∃ each : List (List MemoryBlock),
    List.Forall₂ (fun pool blocks => pool.Lists heap blocks) pools.poolArr each ∧
      each.flatten = blocks

/-! What the blocks have together. -/

def totalUnits (blocks : List MemoryBlock) : Nat := (blocks.map MemoryBlock.nUnitNum).sum

def freeUnits (blocks : List MemoryBlock) : Nat := (blocks.map MemoryBlock.nFree).sum

def totalBytes (blocks : List MemoryBlock) : Nat :=
  (blocks.map fun block => block.nUnitNum * block.nUnitSize).sum

def freeBytes (blocks : List MemoryBlock) : Nat :=
  (blocks.map fun block => block.nFree * block.nUnitSize).sum

namespace MemInfo

/-- The fields are the sums over these blocks, as far as they have room. -/
structure Tallies (info : MemInfo) (blocks : List MemoryBlock) : Prop where
  totalMem : info.totalMem = (blocks.map MemoryBlock.nSize).sum % 2 ^ 32
  freeMem : info.freeMem = freeBytes blocks % 2 ^ 32
  totalUnit : info.totalUnit = totalUnits blocks % 65536
  freeUnit : info.freeUnit = freeUnits blocks % 65536
  blockNum : info.blockNum = blocks.length % 65536

variable {info : MemInfo} {blocks : List MemoryBlock}

theorem zeroed_tallies : zeroed.Tallies [] := ⟨rfl, rfl, rfl, rfl, rfl⟩

theorem Tallies.count (htallies : info.Tallies blocks) {block : MemoryBlock}
    (hproduct : block.nFree * block.nUnitSize < 2 ^ 31) :
    ∃ next, info.count block = some next ∧ next.Tallies (blocks ++ [block]) := by
  refine ⟨_, by rw [MemInfo.count, intMul_of_lt hproduct, Option.map_some], ?_⟩
  have hfree := htallies.freeMem
  have htotal := htallies.totalUnit
  have hunit := htallies.freeUnit
  unfold freeBytes at hfree
  unfold totalUnits at htotal
  unfold freeUnits at hunit
  constructor
  all_goals
    simp only [freeBytes, totalUnits, freeUnits, List.map_append, List.map_singleton,
      List.sum_append, List.sum_singleton, List.length_append, List.length_singleton]
  · rw [htallies.totalMem, Nat.mod_add_mod]
  · rw [hfree, Nat.mod_add_mod]
  · rw [htotal, Nat.mod_add_mod]
  · rw [hunit, Nat.mod_add_mod]
  · rw [htallies.blockNum, Nat.mod_add_mod]

end MemInfo

/-! ## What GetInfo counts -/

section GetInfo

variable {heap : Heap} {info : MemInfo} {before : Option Nat} {fuel : Nat} {addresses : List Nat}
  {counted blocks : List MemoryBlock}

/-- The loop counts the blocks from an address on. -/
theorem MemoryPool.getInfoPass_run (hlinked : LinkedFrom heap.pre heap.next before addresses)
    (hblocks : addresses.map heap.block = blocks.map some)
    (hproduct : ∀ block ∈ blocks, block.nFree * block.nUnitSize < 2 ^ 31)
    (htallies : info.Tallies counted) (hfuel : addresses.length < fuel) :
    ∃ last, Loop.run (getInfoPass heap) fuel (info, addresses.head?) = some (some last) ∧
      last.Tallies (counted ++ blocks) := by
  induction addresses generalizing before fuel info counted blocks with
  | nil =>
      obtain ⟨fuel, rfl⟩ : ∃ n, fuel = n + 1 := ⟨fuel - 1, by omega⟩
      obtain rfl : blocks = [] := List.map_eq_nil_iff.mp hblocks.symm
      rw [List.append_nil]
      exact ⟨info, Loop.run_of_leave rfl fuel, htallies⟩
  | cons address rest ih =>
      obtain ⟨fuel, rfl⟩ : ∃ n, fuel = n + 1 := ⟨fuel - 1, by omega⟩
      obtain ⟨block, more, rfl, hfound, hmore⟩ := List.map_eq_cons_iff.mp hblocks.symm
      obtain ⟨_, hnext, hrest⟩ := hlinked
      rw [Heap.next, ← hfound, Option.bind_some] at hnext
      obtain ⟨hone, hall⟩ := List.forall_mem_cons.mp hproduct
      obtain ⟨next, hcount, hnextTallies⟩ := htallies.count hone
      have hpass : getInfoPass heap (info, some address) = .again (next, rest.head?) := by
        simp only [getInfoPass, ← hfound, hcount, hnext]
      obtain ⟨last, hrun, hlast⟩ :=
        ih hrest hmore.symm hall hnextTallies (Nat.lt_of_succ_lt_succ hfuel)
      refine ⟨last, (Loop.run_of_again hpass fuel).trans hrun, ?_⟩
      rwa [List.append_assoc, List.singleton_append] at hlast

theorem MemoryPool.Lists.getInfo {pool : MemoryPool} (hlists : pool.Lists heap blocks)
    (hproduct : ∀ block ∈ blocks, block.nFree * block.nUnitSize < 2 ^ 31)
    (htallies : info.Tallies counted) (hfuel : blocks.length < fuel) :
    ∃ last, pool.getInfo fuel heap info = some last ∧ last.Tallies (counted ++ blocks) := by
  obtain ⟨addresses, hlinked, hhead, hblocks⟩ := hlists
  have hlen := congrArg List.length hblocks
  rw [List.length_map, List.length_map] at hlen
  obtain ⟨last, hrun, hlast⟩ :=
    MemoryPool.getInfoPass_run hlinked hblocks hproduct htallies (hlen ▸ hfuel)
  refine ⟨last, ?_, hlast⟩
  rw [MemoryPool.getInfo, hhead, hrun]
  rfl

/-- The pools are counted one after the other. -/
theorem VarMemPool.Lists.getInfo {pools : VarMemPool} (hlists : pools.Lists heap blocks)
    (hcount : pools.poolArr.length = poolNum)
    (hproduct : ∀ block ∈ blocks, block.nFree * block.nUnitSize < 2 ^ 31) :
    ∃ info, pools.getInfo (blocks.length + 1) heap .zeroed = some info ∧ info.Tallies blocks := by
  obtain ⟨each, heach, rfl⟩ := hlists
  obtain ⟨hlen, hget⟩ := List.forall₂_iff_get.mp heach
  have hprefix : ∀ count ≤ poolNum, ∃ info,
      (List.range count).foldlM (fun memInfo i => do
        let pool ← pools.poolArr[i]?
        pool.getInfo (each.flatten.length + 1) heap memInfo) MemInfo.zeroed = some info ∧
      info.Tallies (each.take count).flatten := by
    intro count hle
    induction count with
    | zero => exact ⟨_, rfl, MemInfo.zeroed_tallies⟩
    | succ count ih =>
        obtain ⟨info, hfold, htallies⟩ := ih (Nat.le_of_succ_le hle)
        have hpool : count < pools.poolArr.length := hcount ▸ hle
        have hblocks : count < each.length := hlen ▸ hpool
        have hmem : each.get ⟨count, hblocks⟩ ∈ each := List.get_mem _ _
        have hfuel : (each.get ⟨count, hblocks⟩).length < each.flatten.length + 1 :=
          Nat.lt_succ_of_le (List.sublist_flatten_of_mem hmem).length_le
        obtain ⟨next, hnext, hnextTallies⟩ := (hget count hpool hblocks).getInfo
          (fun block hblock => hproduct block (List.mem_flatten_of_mem hmem hblock)) htallies hfuel
        refine ⟨next, ?_, ?_⟩
        · rw [List.range_succ, List.foldlM_append, hfold]
          simp only [Option.bind_eq_bind, Option.bind_some, List.foldlM_cons, List.foldlM_nil,
            List.getElem?_eq_getElem hpool]
          rw [List.get_eq_getElem] at hnext
          rw [hnext]
          rfl
        · rw [List.take_add_one, List.getElem?_eq_getElem hblocks, Option.toList_some,
            List.flatten_append, List.flatten_singleton]
          exact hnextTallies
  obtain ⟨info, hfold, htallies⟩ := hprefix poolNum (Nat.le_refl _)
  rw [← hcount, hlen, List.take_length] at htallies
  exact ⟨info, hfold, htallies⟩

theorem MemoryPool.getInfo_mono {pool : MemoryPool} {more : Nat} {last : MemInfo}
    (hinfo : pool.getInfo fuel heap info = some last) (hle : fuel ≤ more) :
    pool.getInfo more heap info = some last := by
  rw [MemoryPool.getInfo, Option.join_eq_some_iff] at hinfo ⊢
  exact Loop.run_mono hinfo hle

/-- More fuel never changes what is reported. -/
theorem VarMemPool.getInfo_mono {pools : VarMemPool} {more : Nat} {last : MemInfo}
    (hinfo : pools.getInfo fuel heap info = some last) (hle : fuel ≤ more) :
    pools.getInfo more heap info = some last := by
  unfold VarMemPool.getInfo at hinfo ⊢
  generalize List.range poolNum = indices at hinfo ⊢
  induction indices generalizing info with
  | nil => exact hinfo
  | cons index rest ih =>
      simp only [List.foldlM_cons, Option.bind_eq_bind, Option.bind_eq_some_iff] at hinfo ⊢
      obtain ⟨middle, ⟨pool, hpool, hone⟩, hrest⟩ := hinfo
      exact ⟨middle, ⟨pool, hpool, MemoryPool.getInfo_mono hone hle⟩, ih hrest⟩

theorem VarMemPool.getInfo_unique {pools : VarMemPool} {other : Nat} {one two : MemInfo}
    (hone : pools.getInfo fuel heap info = some one)
    (htwo : pools.getInfo other heap info = some two) : one = two := by
  have hleft := getInfo_mono hone (Nat.le_max_left fuel other)
  have hright := getInfo_mono htwo (Nat.le_max_right fuel other)
  exact Option.some.inj (hleft.symm.trans hright)

end GetInfo

/-! ## The blocks are determined -/

theorem MemoryPool.Lists.unique {pool : MemoryPool} {heap : Heap} {one two : List MemoryBlock}
    (hone : pool.Lists heap one) (htwo : pool.Lists heap two) : one = two := by
  obtain ⟨addresses, hlinked, hhead, hblocks⟩ := hone
  obtain ⟨addresses', hlinked', hhead', hblocks'⟩ := htwo
  obtain rfl := hlinked.unique hlinked' (hhead.symm.trans hhead')
  exact List.map_injective_iff.mpr (Option.some_injective _) (hblocks.symm.trans hblocks')

theorem VarMemPool.Lists.unique {pools : VarMemPool} {heap : Heap} {one two : List MemoryBlock}
    (hone : pools.Lists heap one) (htwo : pools.Lists heap two) : one = two := by
  obtain ⟨each, heach, rfl⟩ := hone
  obtain ⟨each', heach', rfl⟩ := htwo
  have hunique : Relator.RightUnique fun (pool : MemoryPool) blocks => pool.Lists heap blocks :=
    fun _ _ _ hone htwo => hone.unique htwo
  rw [List.right_unique_forall₂' hunique heach heach']

end SelectNet
