import SelectNet.Allocation.SizedPools

/-!
# The size that a block notes

`_nSize` is set when a block is made and never again; it stays the size of the
units of the block.
-/

namespace SelectNet

open VarMemPool MemoryPool Heap

/-- `_nSize` is the size of the units. -/
def MemoryBlock.Shaped (block : MemoryBlock) : Prop :=
  block.nSize = block.nUnitNum * block.nUnitSize

/-- The block at an address, if there is one, notes its size. -/
def Heap.Shaped (heap : Heap) (address : Nat) : Prop :=
  ∀ block, heap.block address = some block → block.Shaped

namespace Heap

variable {heap heap' : Heap} {address base : Nat}

theorem Shaped.setBlock (hshaped : heap.Shaped address) {block : MemoryBlock}
    (hblock : block.Shaped) :
    (heap.setBlock base block).Shaped address := by
  intro found hfound
  by_cases hsame : address = base
  · subst hsame
    rw [block_setBlock] at hfound
    exact Option.some.inj hfound ▸ hblock
  · rw [block_setBlock_of_ne _ hsame] at hfound
    exact hshaped found hfound

/-- Other fields than those of the size are assigned to. -/
theorem Shaped.assign (hshaped : heap.Shaped address) {old block : MemoryBlock}
    (hfound : heap.block base = some old) (hsize : block.nSize = old.nSize)
    (hunitSize : block.nUnitSize = old.nUnitSize) (hunitNum : block.nUnitNum = old.nUnitNum) :
    (heap.setBlock base block).Shaped address := by
  by_cases hsame : address = base
  · subst hsame
    have hold : old.nSize = old.nUnitNum * old.nUnitSize := hshaped old hfound
    rw [← hsize, ← hunitNum, ← hunitSize] at hold
    exact hshaped.setBlock hold
  · intro found hother
    rw [block_setBlock_of_ne _ hsame] at hother
    exact hshaped found hother

theorem Shaped.modify (hshaped : heap.Shaped address) {assign : MemoryBlock → MemoryBlock}
    (hmodify : heap.modify base assign = some heap')
    (hsize : ∀ block, (assign block).nSize = block.nSize)
    (hunitSize : ∀ block, (assign block).nUnitSize = block.nUnitSize)
    (hunitNum : ∀ block, (assign block).nUnitNum = block.nUnitNum) : heap'.Shaped address := by
  obtain ⟨block, hfound, rfl⟩ := Option.map_eq_some_iff.mp hmodify
  exact hshaped.assign hfound (hsize block) (hunitSize block) (hunitNum block)

theorem Shaped.of_allocs (hshaped : heap.Shaped address) (hallocs : heap'.allocs = heap.allocs) :
    heap'.Shaped address := by
  intro block hfound
  rw [block_congr (congrFun hallocs address)] at hfound
  exact hshaped block hfound

theorem Shaped.storeUShort (hshaped : heap.Shaped address) {place value : Nat}
    (hstore : heap.storeUShort base place value = some heap') : heap'.Shaped address := by
  unfold Heap.storeUShort at hstore
  split at hstore
  next => cases hstore
  next =>
    split at hstore
    next =>
      cases hstore
      exact hshaped.of_allocs rfl
    next => cases hstore

theorem Shaped.reset (hshaped : heap.Shaped address) (hreset : heap.reset base = some heap') :
    heap'.Shaped address := by
  simp only [Heap.reset, Option.bind_eq_bind, Option.bind_eq_some_iff] at hreset
  obtain ⟨block, hfound, hfold⟩ := hreset
  have hstart :
      (heap.setBlock base { block with nFree := block.nUnitNum, nFirst := 0 }).Shaped address :=
    hshaped.assign hfound rfl rfl rfl
  generalize heap.setBlock base { block with nFree := block.nUnitNum, nFirst := 0 } = start at *
  generalize List.range block.nUnitNum = units at hfold
  induction units generalizing start with
  | nil =>
      cases hfold
      exact hstart
  | cons unit rest ih =>
      rw [List.foldlM_cons, Option.bind_eq_bind, Option.bind_eq_some_iff] at hfold
      obtain ⟨middle, hunit, hrest⟩ := hfold
      simp only [resetUnit, Option.bind_eq_bind, Option.bind_eq_some_iff] at hunit
      obtain ⟨_, _, _, _, _, hfirst, hsecond⟩ := hunit
      exact ih middle ((hstart.storeUShort hfirst).storeUShort hsecond) hrest

theorem Shaped.newBlock (hshaped : heap.Shaped address) {nUnitSize nUnitNum : Nat}
    (hnew : heap.newBlock base nUnitSize nUnitNum = some heap') : heap'.Shaped address := by
  simp only [Heap.newBlock, Option.bind_eq_bind, Option.bind_eq_some_iff] at hnew
  obtain ⟨nSize, hproduct, hreset⟩ := hnew
  obtain ⟨_, hsize⟩ := Option.ite_none_right_eq_some.mp hproduct
  refine (hshaped.setBlock ?_).reset hreset
  exact (Option.some.inj hsize).symm

theorem Shaped.popUnit (hshaped : heap.Shaped address) {p : Nat}
    (hpop : heap.popUnit base = some (p, heap')) : heap'.Shaped address := by
  simp only [Heap.popUnit, Option.bind_eq_bind, Option.bind_eq_some_iff, Option.some.injEq,
    Prod.mk.injEq] at hpop
  obtain ⟨block, hfound, _, _, _, _, _, rfl⟩ := hpop
  exact hshaped.assign hfound rfl rfl rfl

theorem Shaped.pushUnit (hshaped : heap.Shaped address) {addr : Nat}
    (hpush : heap.pushUnit base addr = some heap') : heap'.Shaped address := by
  simp only [Heap.pushUnit, Option.bind_eq_bind, Option.bind_eq_some_iff] at hpush
  obtain ⟨block, hfound, _, _, _, _, middle, hstore, hmodify⟩ := hpush
  exact (hshaped.storeUShort hstore).modify hmodify (fun _ => rfl) (fun _ => rfl) fun _ => rfl

theorem Shaped.delete (hshaped : heap.Shaped address) : (heap.delete base).Shaped address := by
  intro block hfound
  by_cases hsame : address = base
  · subst hsame
    have hnone : (heap.delete address).allocs address = none := Function.update_self _ _ _
    rw [block_eq_some_iff, hnone] at hfound
    cases hfound
  · rw [block_congr (delete_allocs_of_ne hsame)] at hfound
    exact hshaped block hfound

theorem Shaped.malloc (hshaped : heap.Shaped address) (fresh size : Nat) :
    (heap.malloc fresh size).Shaped address := by
  intro block hfound
  by_cases hsame : address = fresh
  · subst hsame
    have hplain : (heap.malloc address size).allocs address = some (.plain size) :=
      Function.update_self _ _ _
    rw [block_eq_some_iff, hplain] at hfound
    cases hfound
  · have hother : (heap.malloc fresh size).allocs address = heap.allocs address :=
      Function.update_of_ne hsame _ _
    rw [block_congr hother] at hfound
    exact hshaped block hfound

theorem Shaped.release (hshaped : heap.Shaped address) {p : Nat}
    (hrelease : heap.release p = some heap') :
    heap'.Shaped address := by
  unfold Heap.release at hrelease
  split at hrelease
  next =>
    cases hrelease
    exact hshaped.delete
  next => cases hrelease

/-! ## Pools -/

theorem Shaped.pushFront (hshaped : heap.Shaped address) {head block : Nat}
    (hpush : MemoryPool.pushFront heap head block = some heap') : heap'.Shaped address := by
  simp only [MemoryPool.pushFront, Option.bind_eq_bind, Option.bind_eq_some_iff] at hpush
  obtain ⟨middle, hfirst, hsecond⟩ := hpush
  have hmiddle := hshaped.modify hfirst (fun _ => rfl) (fun _ => rfl) fun _ => rfl
  exact hmiddle.modify hsecond (fun _ => rfl) (fun _ => rfl) fun _ => rfl

theorem Shaped.unlink (hshaped : heap.Shaped address) {pre block : Nat}
    (hunlink : MemoryPool.unlink heap pre block = some heap') : heap'.Shaped address := by
  simp only [MemoryPool.unlink, Option.bind_eq_bind, Option.bind_eq_some_iff] at hunlink
  obtain ⟨_, _, middle, hfirst, _, _, hsecond⟩ := hunlink
  have hmiddle := hshaped.modify hfirst (fun _ => rfl) (fun _ => rfl) fun _ => rfl
  split at hsecond
  next => exact Option.some.inj hsecond ▸ hmiddle
  next => exact hmiddle.modify hsecond (fun _ => rfl) (fun _ => rfl) fun _ => rfl

variable {pool pool' : MemoryPool} {fresh p : Nat}

theorem Shaped.alloc (hshaped : heap.Shaped address)
    (halloc : pool.alloc heap fresh = some (p, pool', heap')) : heap'.Shaped address := by
  simp only [MemoryPool.alloc, Option.bind_eq_bind, Option.bind_eq_some_iff] at halloc
  obtain ⟨_, _, _, _, halloc⟩ := halloc
  split at halloc
  next =>
    simp only [Option.bind_eq_some_iff, Option.some.injEq, Prod.mk.injEq] at halloc
    obtain ⟨⟨_, _⟩, hpop, _, _, rfl⟩ := halloc
    exact hshaped.popUnit hpop
  next =>
    simp only [Option.bind_eq_some_iff, Option.some.injEq, Prod.mk.injEq] at halloc
    obtain ⟨made, hnew, linked, hpush, ⟨_, _⟩, hpop, _, _, rfl⟩ := halloc
    exact ((hshaped.newBlock hnew).pushFront hpush).popUnit hpop

theorem Shaped.settle (hshaped : heap.Shaped address) {freeBlock : Nat}
    (hsettle : pool.settle heap freeBlock = some (pool', heap')) : heap'.Shaped address := by
  simp only [MemoryPool.settle, Option.bind_eq_bind, Option.bind_eq_some_iff] at hsettle
  obtain ⟨header, _, hsettle⟩ := hsettle
  split at hsettle
  next =>
    split at hsettle
    next =>
      simp only [Option.bind_eq_some_iff, Option.some.injEq, Prod.mk.injEq] at hsettle
      obtain ⟨middle, hunlink, _, rfl⟩ := hsettle
      exact (hshaped.unlink hunlink).delete
    next =>
      simp only [Option.bind_eq_some_iff, Option.some.injEq, Prod.mk.injEq] at hsettle
      obtain ⟨_, _, middle, hmodify, _, rfl⟩ := hsettle
      exact (hshaped.modify hmodify (fun _ => rfl) (fun _ => rfl) fun _ => rfl).delete
  next =>
    simp only [Option.bind_eq_some_iff] at hsettle
    obtain ⟨_, _, _, _, hsettle⟩ := hsettle
    split at hsettle
    next =>
      split at hsettle
      next =>
        simp only [Option.bind_eq_some_iff, Option.some.injEq, Prod.mk.injEq] at hsettle
        obtain ⟨middle, hunlink, linked, hpush, _, rfl⟩ := hsettle
        exact (hshaped.unlink hunlink).pushFront hpush
      next =>
        cases hsettle
        exact hshaped
    next =>
      cases hsettle
      exact hshaped

theorem Shaped.free (hshaped : heap.Shaped address)
    (hfree : pool.free heap p = some (pool', heap')) :
    heap'.Shaped address := by
  simp only [MemoryPool.free, Option.bind_eq_bind, Option.bind_eq_some_iff] at hfree
  obtain ⟨_, _, middle, hpush, hsettle⟩ := hfree
  exact (hshaped.pushUnit hpush).settle hsettle

theorem Shaped.new (hshaped : heap.Shaped address) {nUnitSize nInitUnitNum nGrowUnitNum : Nat}
    (hnew : MemoryPool.new heap fresh nUnitSize nInitUnitNum nGrowUnitNum = some (pool, heap')) :
    heap'.Shaped address := by
  simp only [MemoryPool.new, Option.bind_eq_bind, Option.bind_eq_some_iff, Option.some.injEq,
    Prod.mk.injEq] at hnew
  obtain ⟨_, _, _, _, _, _, made, hmade, _, rfl⟩ := hnew
  exact hshaped.newBlock hmade

end Heap

/-! ## Runs -/

namespace VarState

variable {s next : VarState} {op : VarOp}

theorem shaped_allocFrom {pools pools' : VarMemPool} {heap heap' : Heap}
    {address index fresh p : Nat}
    {source : Source} (hshaped : heap.Shaped address)
    (halloc : pools.allocFrom heap index fresh = some (p, source, pools', heap')) :
    heap'.Shaped address := by
  simp only [allocFrom, Option.bind_eq_bind, Option.bind_eq_some_iff, Option.some.injEq,
    Prod.mk.injEq] at halloc
  obtain ⟨_, _, ⟨_, _, _⟩, hpool, _, _, _, rfl⟩ := halloc
  exact hshaped.alloc hpool

theorem shaped_freeTo {pools pools' : VarMemPool} {heap heap' : Heap} {address index p : Nat}
    {source : Source} (hshaped : heap.Shaped address)
    (hfree : pools.freeTo heap index p = some (source, pools', heap')) : heap'.Shaped address := by
  simp only [freeTo, Option.bind_eq_bind, Option.bind_eq_some_iff, Option.some.injEq,
    Prod.mk.injEq] at hfree
  obtain ⟨_, _, ⟨_, _⟩, hpool, _, _, rfl⟩ := hfree
  exact hshaped.free hpool

/-- No step changes the size of a block. -/
theorem Step.shaped (hstep : s.Step op next) {address : Nat} (hshaped : s.heap.Shaped address) :
    next.heap.Shaped address := by
  cases hstep with
  | @alloc size fresh _ _ _ _ halloc _ =>
      unfold VarMemPool.alloc at halloc
      split at halloc
      next =>
        cases halloc
        exact hshaped.malloc _ _
      next =>
        split at halloc
        next => exact shaped_allocFrom hshaped halloc
        next =>
          simp only [Option.bind_eq_bind, Option.bind_eq_some_iff] at halloc
          obtain ⟨_, _, halloc⟩ := halloc
          exact shaped_allocFrom hshaped halloc
  | free _ hfree =>
      unfold VarMemPool.free at hfree
      split at hfree
      next =>
        simp only [Option.bind_eq_bind, Option.bind_eq_some_iff, Option.some.injEq,
          Prod.mk.injEq] at hfree
        obtain ⟨_, hrelease, _, _, rfl⟩ := hfree
        exact hshaped.release hrelease
      next =>
        split at hfree
        next => exact shaped_freeTo hshaped hfree
        next =>
          simp only [Option.bind_eq_bind, Option.bind_eq_some_iff] at hfree
          obtain ⟨_, _, hfree⟩ := hfree
          exact shaped_freeTo hshaped hfree
  | write _ _ => exact hshaped.of_allocs rfl

theorem shaped_of_constructs {configs : List PoolConfig} {heap heap' : Heap}
    {pools : List MemoryPool} (hconstructs : Constructs configs heap pools heap') {address : Nat}
    (hshaped : heap.Shaped address) : heap'.Shaped address := by
  induction hconstructs with
  | done => exact hshaped
  | next _ hnew _ ih => exact ih (hshaped.new hnew)

/-- The pools store chunks whose blocks note their sizes. -/
structure ShapedInv (s : VarState) (chunks : Nat → List Chunk) : Prop where
  inv : s.Inv chunks
  shaped : ∀ index < poolNum, ∀ base ∈ bases (chunks index), s.heap.Shaped base

/-- Where nothing is, there is no block that notes a wrong size. -/
theorem shaped_of_unallocated {heap : Heap} {address : Nat} (hnone : heap.sizes address = none) :
    heap.Shaped address := by
  intro block hfound
  rw [sizes, block_eq_some_iff.mp hfound] at hnone
  cases hnone

theorem ShapedInv.of_step {chunks chunks' : Nat → List Chunk} (hinv : s.ShapedInv chunks)
    (hstep : s.Step op next) (hbases : s.BasesNew chunks chunks') (hnext : next.Inv chunks') :
    next.ShapedInv chunks' := by
  refine ⟨hnext, fun index hindex base hbase => hstep.shaped ?_⟩
  rcases hbases index base hbase with hold | hnone
  · exact hinv.shaped index hindex base hold
  · exact shaped_of_unallocated hnone

theorem Constructed.exists_shapedInv (hmade : s.Constructed) :
    ∃ chunks, s.ShapedInv chunks ∧ FirstBlocks poolConfig s.pools.poolArr chunks := by
  obtain ⟨chunks, heap, hinv, hfirst, hconstructs, hunallocated⟩ := hmade.exists_inv
  refine ⟨chunks, ⟨hinv, fun index hindex base hbase => ?_⟩, hfirst⟩
  apply shaped_of_constructs hconstructs
  apply shaped_of_unallocated
  rw [sizes, hunallocated index hindex base hbase, Option.map_none]

def SizesNoted (s : VarState) : Prop := ∃ chunks, s.ShapedInv chunks

theorem sizesNoted_of_reachable (hreach : varMachine.Reachable s) : s.SizesNoted := by
  have hinitial : ∀ state, varMachine.initial state → state.SizesNoted := by
    intro state hmade
    obtain ⟨chunks, hinv, _⟩ := Constructed.exists_shapedInv hmade
    exact ⟨chunks, hinv⟩
  have hstep : ∀ state op next, state.SizesNoted → varMachine.step state op next →
      next.SizesNoted := by
    rintro state op next ⟨chunks, hinv⟩ hstep
    obtain ⟨chunks', hbases, hnext⟩ := hinv.inv.step hstep
    exact ⟨chunks', hinv.of_step hstep hbases hnext⟩
  exact hreach.invariant hinitial hstep

end VarState

end SelectNet
