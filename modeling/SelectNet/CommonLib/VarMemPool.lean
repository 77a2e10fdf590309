import Mathlib.Algebra.GroupWithZero.Nat
import SelectNet.CommonLib.PoolUnits

/-!
# Pools by size

`VarMemPool`: seven pools for units of 16 to 1024 bytes, and `malloc` for what
is larger. `Alloc` and `Free` choose the pool from the size alone, each on its
own; what they answer here also says where they went. A `SafeMemPool` is a
`MemoryPool` that holds a lock during each call.
-/

namespace SelectNet

/-- `VarMemPool::PoolConfig` -/
structure PoolConfig where
  unitSize : Nat
  unitNum : Nat

/-- Sizes that a `MemoryPool` can be made with. -/
structure PoolConfig.Fits (config : PoolConfig) : Prop where
  unitNum : config.unitNum < 65536
  product : config.unitNum * ((config.unitSize + 2) % 65536) < 2 ^ 31

/-- Where memory comes from. -/
inductive Source where
  | malloc
  | pool (index : Nat)
  deriving DecidableEq

structure VarMemPool where
  poolArr : List MemoryPool

namespace Heap

/-- `malloc(size)`, with memory at `fresh`. -/
def malloc (heap : Heap) (fresh size : Nat) : Heap :=
  { heap with allocs := Function.update heap.allocs fresh (some (.plain size)) }

/-- `free(p)`: `p` has to come from `malloc`. -/
def release (heap : Heap) (p : Nat) : Option Heap :=
  match heap.allocs p with
  | some (.plain _) => some (heap.delete p)
  | _ => none

end Heap

namespace VarMemPool

/-- `POOL_NUM` -/
def poolNum : Nat := 7

def poolConfig : List PoolConfig :=
  [⟨16, 1000⟩, ⟨32, 1000⟩, ⟨64, 1000⟩, ⟨128, 1000⟩, ⟨256, 1000⟩, ⟨512, 1000⟩, ⟨1024, 1000⟩]

/-- `poolConfig[index].unitSize` -/
def unitSize (index : Nat) : Nat := (poolConfig.getD index ⟨0, 0⟩).unitSize

/-- One pass of the search in `getPool`. The bounds are at most six, for which
`d + (u - d) * 0.5` is exact before it is truncated. -/
def getPoolPass (size : Int) : Nat × Nat → Pass (Nat × Nat) Nat
  | (d, u) =>
      if u - d > 1 then
        let m := d + (u - d) / 2
        if (unitSize m : Int) ≥ size then .again (d, m) else .again (m, u)
      else .leave u

/-- `getPool`, as the index of the pool. -/
def getPool (size : Int) : Option Nat :=
  Loop.run (getPoolPass size) poolNum (0, poolNum - 1)

/-- `_poolArr[index]->Alloc()` -/
def allocFrom (pools : VarMemPool) (heap : Heap) (index fresh : Nat) :
    Option (Nat × Source × VarMemPool × Heap) := do
  let pool ← pools.poolArr[index]?
  let (p, pool, heap) ← pool.alloc heap fresh
  some (p, .pool index, ⟨pools.poolArr.set index pool⟩, heap)

/-- `_poolArr[index]->Free(p)` -/
def freeTo (pools : VarMemPool) (heap : Heap) (index p : Nat) :
    Option (Source × VarMemPool × Heap) := do
  let pool ← pools.poolArr[index]?
  let (pool, heap) ← pool.free heap p
  some (.pool index, ⟨pools.poolArr.set index pool⟩, heap)

def alloc (pools : VarMemPool) (heap : Heap) (size : Int) (fresh : Nat) :
    Option (Nat × Source × VarMemPool × Heap) :=
  if size > unitSize (poolNum - 1) then some (fresh, .malloc, pools, heap.malloc fresh size.toNat)
  else if size ≤ unitSize 0 then pools.allocFrom heap 0 fresh
  else do
    let index ← getPool size
    pools.allocFrom heap index fresh

def free (pools : VarMemPool) (heap : Heap) (p : Nat) (size : Int) :
    Option (Source × VarMemPool × Heap) :=
  if size > unitSize (poolNum - 1) then do
    let heap ← heap.release p
    some (.malloc, pools, heap)
  else if size ≤ unitSize 0 then pools.freeTo heap 0 p
  else do
    let index ← getPool size
    pools.freeTo heap index p

/-- The loop of the constructor: one pool after the other, each in memory that
is fresh when its turn comes. -/
inductive Constructs : List PoolConfig → Heap → List MemoryPool → Heap → Prop where
  | done {heap : Heap} : Constructs [] heap [] heap
  | next {config : PoolConfig} {more : List PoolConfig} {heap middle heap' : Heap} {fresh : Nat}
      {pool : MemoryPool} {pools : List MemoryPool}
      (hfresh : heap.Fresh fresh
        (sizeofMemoryBlock + (config.unitSize + 2) % 65536 * config.unitNum))
      (hnew : MemoryPool.new heap fresh config.unitSize config.unitNum config.unitNum =
        some (pool, middle))
      (hmore : Constructs more middle pools heap') :
      Constructs (config :: more) heap (pool :: pools) heap'

/-! ## Routing -/

/-- Each class is at least as large as the ones in front of it. -/
theorem unitSize_mono {small large : Nat} (hle : small ≤ large) (hlt : large < poolNum) :
    unitSize small ≤ unitSize large := by
  have hall : ∀ large < poolNum, ∀ small ≤ large, unitSize small ≤ unitSize large := by decide
  exact hall large hlt small hle

/-- The class looked for lies behind the lower bound, and not behind the upper. -/
def Between (size : Int) (bounds : Nat × Nat) : Prop :=
  bounds.1 < bounds.2 ∧ bounds.2 < poolNum ∧ (unitSize bounds.1 : Int) < size ∧
    size ≤ unitSize bounds.2

/-- Each pass of the search halves the interval. -/
theorem getPoolPass_again {size : Int} {bounds next : Nat × Nat} (hbetween : Between size bounds)
    (hagain : getPoolPass size bounds = .again next) :
    Between size next ∧ next.2 - next.1 < bounds.2 - bounds.1 := by
  obtain ⟨hlt, hnum, hlower, hupper⟩ := hbetween
  rw [getPoolPass] at hagain
  split at hagain
  next hwide =>
    simp only at hagain
    split at hagain
    next hlarge =>
      cases hagain
      exact ⟨⟨by omega, by omega, hlower, hlarge⟩, by omega⟩
    next hsmall =>
      cases hagain
      exact ⟨⟨by omega, hnum, Int.not_le.mp hsmall, hupper⟩, by omega⟩
  next => cases hagain

theorem getPoolPass_leave {size : Int} {bounds : Nat × Nat} {index : Nat}
    (hbetween : Between size bounds) (hleave : getPoolPass size bounds = .leave index) :
    index < poolNum ∧ size ≤ unitSize index ∧
      ∀ smaller < index, (unitSize smaller : Int) < size := by
  obtain ⟨hlt, hnum, hsmall, hlarge⟩ := hbetween
  rw [getPoolPass] at hleave
  split at hleave
  next =>
    simp only at hleave
    split at hleave
    next => cases hleave
    next => cases hleave
  next hnarrow =>
    cases hleave
    refine ⟨hnum, hlarge, ?_⟩
    intro smaller hsmaller
    have hmono : unitSize smaller ≤ unitSize bounds.1 :=
      unitSize_mono (by omega) (hlt.trans hnum)
    omega

/-- The search ends at the smallest class that is large enough. -/
theorem getPool_spec {size : Int} (hlower : (unitSize 0 : Int) < size)
    (hupper : size ≤ unitSize (poolNum - 1)) :
    ∃ index, getPool size = some index ∧ index < poolNum ∧ size ≤ unitSize index ∧
      ∀ smaller < index, (unitSize smaller : Int) < size := by
  have hstart : Between size (0, poolNum - 1) := ⟨by decide, by decide, hlower, hupper⟩
  obtain ⟨index, hrun⟩ := Loop.exists_run_of_variant (fun bounds : Nat × Nat => bounds.2 - bounds.1)
    (fun _ _ hbetween hagain => getPoolPass_again hbetween hagain) hstart
    (show poolNum - 1 - 0 < poolNum by decide)
  have hagain : ∀ bounds next, Between size bounds → getPoolPass size bounds = .again next →
      Between size next :=
    fun _ _ hbetween hagain => (getPoolPass_again hbetween hagain).1
  have hleave : ∀ bounds result, Between size bounds → getPoolPass size bounds = .leave result →
      result < poolNum ∧ size ≤ unitSize result ∧
        ∀ smaller < result, (unitSize smaller : Int) < size :=
    fun _ _ hbetween hleave => getPoolPass_leave hbetween hleave
  have hpost := Loop.Yields.induction hagain hleave hstart ⟨poolNum, hrun⟩
  exact ⟨index, hrun, hpost⟩

/-- The pool for what `malloc` is not needed for. -/
def classOf (size : Int) : Option Nat := if size ≤ unitSize 0 then some 0 else getPool size

theorem classOf_spec {size : Int} (hupper : size ≤ unitSize (poolNum - 1)) :
    ∃ index, classOf size = some index ∧ index < poolNum ∧ size ≤ unitSize index := by
  by_cases hsmall : size ≤ unitSize 0
  · exact ⟨0, if_pos hsmall, by decide, hsmall⟩
  · obtain ⟨index, hget, hlt, hle, _⟩ := getPool_spec (Int.not_le.mp hsmall) hupper
    exact ⟨index, (if_neg hsmall).trans hget, hlt, hle⟩

/-- Where a size leads. -/
def sourceOf (size : Int) : Source :=
  if size > unitSize (poolNum - 1) then .malloc else .pool ((classOf size).getD 0)

section Routes

variable {pools : VarMemPool} {heap heap' : Heap} {size : Int} {index fresh p : Nat}
  {pool pool' : MemoryPool}

theorem alloc_eq_allocFrom (hle : size ≤ unitSize (poolNum - 1))
    (hclass : classOf size = some index) :
    pools.alloc heap size fresh = pools.allocFrom heap index fresh := by
  rw [alloc, if_neg (Int.not_lt.mpr hle)]
  rw [classOf] at hclass
  split
  next hsmall =>
    rw [if_pos hsmall, Option.some.injEq] at hclass
    rw [hclass]
  next hlarge =>
    rw [if_neg hlarge] at hclass
    rw [hclass]
    rfl

theorem free_eq_freeTo (hle : size ≤ unitSize (poolNum - 1)) (hclass : classOf size = some index) :
    pools.free heap p size = pools.freeTo heap index p := by
  rw [free, if_neg (Int.not_lt.mpr hle)]
  rw [classOf] at hclass
  split
  next hsmall =>
    rw [if_pos hsmall, Option.some.injEq] at hclass
    rw [hclass]
  next hlarge =>
    rw [if_neg hlarge] at hclass
    rw [hclass]
    rfl

theorem alloc_of_class (hle : size ≤ unitSize (poolNum - 1)) (hclass : classOf size = some index)
    (hpool : pools.poolArr[index]? = some pool)
    (halloc : pool.alloc heap fresh = some (p, pool', heap')) :
    pools.alloc heap size fresh = some (p, .pool index,
      ⟨pools.poolArr.set index pool'⟩, heap') := by
  rw [alloc_eq_allocFrom hle hclass]
  simp only [allocFrom, hpool, halloc, Option.bind_eq_bind, Option.bind_some]

theorem free_of_class (hle : size ≤ unitSize (poolNum - 1)) (hclass : classOf size = some index)
    (hpool : pools.poolArr[index]? = some pool)
    (hfree : pool.free heap p = some (pool', heap')) :
    pools.free heap p size = some (.pool index, ⟨pools.poolArr.set index pool'⟩, heap') := by
  rw [free_eq_freeTo hle hclass]
  simp only [freeTo, hpool, hfree, Option.bind_eq_bind, Option.bind_some]

theorem alloc_of_large (hlarge : size > unitSize (poolNum - 1)) :
    pools.alloc heap size fresh = some (fresh, .malloc, pools, heap.malloc fresh size.toNat) :=
  if_pos hlarge

theorem free_of_large (hlarge : size > unitSize (poolNum - 1)) {given : Nat}
    (hfound : heap.allocs p = some (.plain given)) :
    pools.free heap p size = some (.malloc, pools, heap.delete p) := by
  rw [free, if_pos hlarge, Heap.release, hfound]
  rfl

/-- `Alloc` goes where the size leads. -/
theorem source_of_alloc {source : Source} {pools' : VarMemPool}
    (halloc : pools.alloc heap size fresh = some (p, source, pools', heap')) :
    source = sourceOf size := by
  by_cases hlarge : size > unitSize (poolNum - 1)
  · rw [alloc_of_large hlarge, Option.some.injEq, Prod.mk.injEq, Prod.mk.injEq] at halloc
    rw [sourceOf, if_pos hlarge, halloc.2.1]
  · obtain ⟨index, hclass, _⟩ := classOf_spec (Int.not_lt.mp hlarge)
    rw [alloc_eq_allocFrom (Int.not_lt.mp hlarge) hclass] at halloc
    simp only [allocFrom, Option.bind_eq_bind, Option.bind_eq_some_iff, Option.some.injEq,
      Prod.mk.injEq] at halloc
    obtain ⟨_, _, _, _, _, hsource, _⟩ := halloc
    rw [sourceOf, if_neg hlarge, hclass, Option.getD_some, hsource]

end Routes

/-! ## The constructor -/

open Heap

theorem poolConfig_fits : ∀ config ∈ poolConfig, config.Fits := by
  have hnum : ∀ config ∈ poolConfig, config.unitNum < 65536 := by decide
  have hproduct : ∀ config ∈ poolConfig,
      config.unitNum * ((config.unitSize + 2) % 65536) < 2 ^ 31 := by decide
  exact fun config hconfig => ⟨hnum config hconfig, hproduct config hconfig⟩

theorem unitSize_add_two {index : Nat} (hindex : index < poolNum) :
    (unitSize index + 2) % 65536 = unitSize index + 2 := by
  have hle := unitSize_mono (Nat.le_sub_one_of_lt hindex) (by decide : poolNum - 1 < poolNum)
  have hlargest : unitSize (poolNum - 1) = 1024 := rfl
  omega

/-- The pools that a row of configurations has given. -/
structure Constructed (configs : List PoolConfig) (heap : Heap) (pools : List MemoryPool)
    (heap' : Heap) (chunks : Nat → List Chunk) : Prop where
  apart : heap'.Apart
  count : pools.length = configs.length
  stores : ∀ (index : Nat) (pool : MemoryPool) (config : PoolConfig),
    pools[index]? = some pool → configs[index]? = some config →
    pool.Stores heap' (chunks index) ∧ pool.nUnitSize = (config.unitSize + 2) % 65536
  separate : ∀ one < pools.length, ∀ two < pools.length, one ≠ two →
    ∀ base ∈ bases (chunks one), base ∉ bases (chunks two)
  notUsed : ∀ index < pools.length, ∀ unitSize p base, ¬ Used unitSize (chunks index) p base
  unallocated : ∀ index < pools.length, ∀ base ∈ bases (chunks index), heap.allocs base = none
  kept : ∀ other, heap.allocs other ≠ none → Kept heap heap' other

theorem Constructed.done {heap : Heap} (hapart : heap.Apart) :
    Constructed [] heap [] heap fun _ => [] where
  apart := hapart
  count := rfl
  stores := by
    intro index pool config hpool
    cases hpool
  separate := fun one hone => absurd hone (Nat.not_lt_zero one)
  notUsed := fun index hindex => absurd hindex (Nat.not_lt_zero index)
  unallocated := fun index hindex => absurd hindex (Nat.not_lt_zero index)
  kept := fun other _ => Kept.refl heap other

/-- The chunks of one more pool, which comes before the others. -/
def chunksCons (first : List Chunk) (chunks : Nat → List Chunk) : Nat → List Chunk
  | 0 => first
  | index + 1 => chunks index

/-- A pool whose only block is where nothing was is apart from those that are
made behind it. -/
theorem Constructed.cons {config : PoolConfig} {configs : List PoolConfig}
    {heap middle heap' : Heap} {fresh : Nat} {pool : MemoryPool} {pools : List MemoryPool}
    {chunks : Nat → List Chunk} (hrest : Constructed configs middle pools heap' chunks)
    (hunused : heap.allocs fresh = none)
    (hstores : pool.Stores middle [grown fresh config.unitNum])
    (hunitSize : pool.nUnitSize = (config.unitSize + 2) % 65536)
    (hkept : ∀ other, other ≠ fresh → Kept heap middle other) :
    Constructed (config :: configs) heap (pool :: pools) heap'
      (chunksCons [grown fresh config.unitNum] chunks) := by
  have hmade : middle.allocs fresh ≠ none := by
    obtain ⟨header, hfound, _⟩ := hstores.allocated (List.mem_singleton_self _)
    exact fun hnone => Option.some_ne_none _ (hfound.symm.trans hnone)
  -- the later pools are made where nothing was, and this block is there by then
  have hbehind : ∀ index < pools.length, ∀ base ∈ bases (chunks index), base ≠ fresh := by
    rintro index hindex base hbase rfl
    exact hmade (hrest.unallocated index hindex base hbase)
  refine ⟨hrest.apart, ?_, ?_, ?_, ?_, ?_, ?_⟩
  · rw [List.length_cons, List.length_cons, hrest.count]
  · intro index pool' config' hpool' hconfig'
    cases index with
    | zero =>
        cases hpool'
        cases hconfig'
        refine ⟨hstores.of_kept ?_ hrest.apart, hunitSize⟩
        intro base hbase
        obtain rfl := List.mem_singleton.mp hbase
        exact hrest.kept _ hmade
    | succ index => exact hrest.stores index pool' config' hpool' hconfig'
  · intro one hone two htwo hne base hbase hbase'
    cases one with
    | zero =>
        cases two with
        | zero => exact hne rfl
        | succ two =>
            exact hbehind two (Nat.lt_of_succ_lt_succ htwo) base hbase'
              (List.mem_singleton.mp hbase)
    | succ one =>
        cases two with
        | zero =>
            exact hbehind one (Nat.lt_of_succ_lt_succ hone) base hbase
              (List.mem_singleton.mp hbase')
        | succ two =>
            exact hrest.separate one (Nat.lt_of_succ_lt_succ hone) two
              (Nat.lt_of_succ_lt_succ htwo) (fun hsame => hne (congrArg _ hsame)) base hbase hbase'
  · intro index hindex unitSize p base
    cases index with
    | zero =>
        -- all units of a block that has just been made are free
        rw [chunksCons, used_grown_iff]
        rintro ⟨_, hmem, _⟩
        cases hmem
    | succ index => exact hrest.notUsed index (Nat.lt_of_succ_lt_succ hindex) unitSize p base
  · intro index hindex base hbase
    cases index with
    | zero =>
        obtain rfl := List.mem_singleton.mp hbase
        exact hunused
    | succ index =>
        have hlt := Nat.lt_of_succ_lt_succ hindex
        have hfree := hrest.unallocated index hlt base hbase
        rwa [(hkept base (hbehind index hlt base hbase)).1] at hfree
  · intro other hsome
    have hfirst := hkept other (fun hsame => hsome (hsame ▸ hunused))
    exact hfirst.trans (hrest.kept other (by rw [hfirst.1]; exact hsome))

/-- Each pool grows by what it has been made with, and has one block of that. -/
def FirstBlocks (configs : List PoolConfig) (pools : List MemoryPool)
    (chunks : Nat → List Chunk) : Prop :=
  ∀ (index : Nat) (pool : MemoryPool) (config : PoolConfig),
    pools[index]? = some pool → configs[index]? = some config →
    pool.nGrowUnitNum = config.unitNum ∧ ∃ base, chunks index = [grown base config.unitNum]

theorem Constructs.constructed {configs : List PoolConfig} {heap heap' : Heap}
    {pools : List MemoryPool} (hconstructs : Constructs configs heap pools heap')
    (hapart : heap.Apart) (hfits : ∀ config ∈ configs, config.Fits) :
    ∃ chunks, Constructed configs heap pools heap' chunks ∧ FirstBlocks configs pools chunks := by
  induction hconstructs with
  | done => exact ⟨fun _ => [], Constructed.done hapart, nofun⟩
  | @next config more heap middle heap' fresh pool pools hfresh hnew hmore ih =>
      obtain ⟨hfit, hfits⟩ := List.forall_mem_cons.mp hfits
      obtain ⟨hstores, hkept⟩ := MemoryPool.new_spec hnew hapart hfresh hfit.unitNum hfit.unitNum
        hfit.product
      obtain ⟨chunks, hrest, hfirst⟩ := ih hstores.apart hfits
      refine ⟨_, hrest.cons hfresh.unused hstores (MemoryPool.nUnitSize_of_new hnew) hkept, ?_⟩
      intro index pool' config' hpool' hconfig'
      cases index with
      | zero =>
          cases hpool'
          cases hconfig'
          exact ⟨MemoryPool.nGrowUnitNum_of_new hnew, fresh, rfl⟩
      | succ index => exact hfirst index pool' config' hpool' hconfig'

/-- Everything is allocated below an address. -/
def Below (heap : Heap) (bound : Nat) : Prop :=
  ∀ base size, heap.sizes base = some size → base < bound ∧ base + size ≤ bound

theorem Below.fresh {heap : Heap} {bound size : Nat} (hbelow : Below heap bound) (hpos : 0 < bound)
    (hsize : bound + size ≤ 2 ^ 64) : heap.Fresh bound size where
  notNull := hpos
  bound := hsize
  unused := by
    cases hfound : heap.allocs bound with
    | none => rfl
    | some alloc =>
        have hlt := hbelow bound alloc.size (by rw [sizes, hfound]; rfl)
        exact absurd hlt.1 (Nat.lt_irrefl bound)
  apart := fun other alloc hfound =>
    .inr (hbelow other alloc.size (by rw [sizes, hfound]; rfl)).2

theorem Below.update {heap heap' : Heap} {bound size : Nat} (hbelow : Below heap bound)
    (hsizes : heap'.sizes = Function.update heap.sizes bound (some size)) (hpos : 0 < size) :
    Below heap' (bound + size) := by
  intro base size' hfound
  rw [hsizes, Function.update_apply] at hfound
  split at hfound
  next hsame =>
    cases hfound
    exact ⟨by omega, by omega⟩
  next =>
    obtain ⟨hlt, hle⟩ := hbelow base size' hfound
    exact ⟨by omega, by omega⟩

/-- Memory for the blocks of a row of configurations. -/
def total (configs : List PoolConfig) : Nat :=
  (configs.map fun config =>
    sizeofMemoryBlock + (config.unitSize + 2) % 65536 * config.unitNum).sum

/-- The constructor returns, given memory. -/
theorem exists_constructs {configs : List PoolConfig} {heap : Heap} {bound : Nat}
    (hbelow : Below heap bound) (hpos : 0 < bound) (hfits : ∀ config ∈ configs, config.Fits)
    (hsizes : ∀ config ∈ configs, 4 ≤ (config.unitSize + 2) % 65536 ∧ 1 ≤ config.unitNum)
    (hroom : bound + total configs ≤ 2 ^ 64) :
    ∃ pools heap', Constructs configs heap pools heap' ∧ Below heap' (bound + total configs) := by
  induction configs generalizing heap bound with
  | nil => exact ⟨[], heap, .done, hbelow⟩
  | cons config more ih =>
      obtain ⟨hfit, hfits⟩ := List.forall_mem_cons.mp hfits
      obtain ⟨⟨hunitSize, hunitNum⟩, hsizes⟩ := List.forall_mem_cons.mp hsizes
      rw [total, List.map_cons, List.sum_cons, ← Nat.add_assoc] at hroom
      have hfresh := hbelow.fresh hpos (Nat.le_of_add_right_le hroom)
      obtain ⟨pool, middle, hnew, hmiddle⟩ := MemoryPool.exists_new hunitSize hunitNum hunitNum
        hfit.unitNum hfit.product hfresh
      have hbelow' := hbelow.update hmiddle (by rw [sizeofMemoryBlock]; omega)
      obtain ⟨pools, heap', hmore, hbound⟩ := ih hbelow' (by omega) hfits hsizes hroom
      refine ⟨pool :: pools, heap', .next hfresh hnew hmore, ?_⟩
      rwa [total, List.map_cons, List.sum_cons, ← Nat.add_assoc]

end VarMemPool

end SelectNet
