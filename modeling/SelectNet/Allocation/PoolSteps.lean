import SelectNet.Allocation.PoolSafety

/-!
# Steps of a pool on its chunks

The heap determines the chunks of a pool, so that a step of the pool is one on
lists of chunks. Invariants about how many units the blocks have are stated and
kept there.
-/

namespace SelectNet

open MemoryPool Heap

/-- A block holds one chunk only. -/
theorem Heap.Holds.unique {heap : Heap} {unitSize : Nat} {chunk chunk' : Chunk}
    (hholds : heap.Holds unitSize chunk) (hholds' : heap.Holds unitSize chunk')
    (hbase : chunk.base = chunk'.base) : chunk = chunk' := by
  obtain ⟨header, hfound, hdescribes, hchain⟩ := hholds.found
  obtain ⟨header', hfound', hdescribes', hchain'⟩ := hholds'.found
  obtain rfl : header = header' := by
    rw [hbase] at hfound
    exact Option.some.inj (hfound.symm.trans hfound')
  have hnum : chunk.num = chunk'.num := hdescribes.unitNum.symm.trans hdescribes'.unitNum
  have hlength : chunk.free.length = chunk'.free.length :=
    hdescribes.nFree.symm.trans hdescribes'.nFree
  have hfree : chunk.free = chunk'.free := by
    rw [← hchain, ← hchain', hlength, hbase]
  cases chunk
  cases chunk'
  simp only at hbase hnum hfree
  rw [hbase, hnum, hfree]

/-- The heap determines the chunks of a pool. -/
theorem MemoryPool.Stores.unique {pool : MemoryPool} {heap : Heap} {chunks chunks' : List Chunk}
    (hstores : pool.Stores heap chunks) (hstores' : pool.Stores heap chunks') :
    chunks = chunks' := by
  have hbases : bases chunks = bases chunks' :=
    hstores.linked.unique hstores'.linked (hstores.head.symm.trans hstores'.head)
  have hholds := hstores.holds
  have hholds' := hstores'.holds
  clear hstores hstores'
  induction chunks generalizing chunks' with
  | nil => exact (List.map_eq_nil_iff.mp hbases.symm).symm
  | cons chunk rest ih =>
      cases chunks' with
      | nil => cases hbases
      | cons chunk' rest' =>
          rw [List.forall_mem_cons] at hholds hholds'
          obtain ⟨hbase, hrest⟩ := List.cons.inj hbases
          rw [hholds.1.unique hholds'.1 hbase, ih hrest hholds.2 hholds'.2]

/-- What happens to the chunks of a pool and to what is live. -/
inductive ChunkStep (pool : MemoryPool) (live : List (Nat × Nat)) :
    List Chunk → PoolOp → List Chunk → List (Nat × Nat) → Prop where
  | pop {fresh unit : Nat} {chunk : Chunk} {rest : List Chunk} {more : List Nat}
      (hfree : chunk.free = unit :: more) :
      ChunkStep pool live (chunk :: rest) (.alloc fresh) (chunk.pop :: rest)
        ((payload pool.nUnitSize chunk.base unit, chunk.base) :: live)
  | grow {fresh : Nat} {chunk : Chunk} {rest : List Chunk} (hfull : chunk.free = []) :
      ChunkStep pool live (chunk :: rest) (.alloc fresh)
        ((grown fresh pool.nGrowUnitNum).pop :: chunk :: rest)
        ((payload pool.nUnitSize fresh 0, fresh) :: live)
  | push {unit : Nat} {chunk : Chunk} {front back : List Chunk} (hlive : chunk.Live unit)
      (hmem : (payload pool.nUnitSize chunk.base unit, chunk.base) ∈ live) :
      ChunkStep pool live (front ++ chunk :: back)
        (.free (payload pool.nUnitSize chunk.base unit))
        (settled pool.initHead front (chunk.push unit) back)
        (live.erase (payload pool.nUnitSize chunk.base unit, chunk.base))
  | reset {chunks : List Chunk} : ChunkStep pool live chunks .freeAll (chunks.map Chunk.reset) []
  | write {p offset : Nat} {cells : List Byte} {chunks : List Chunk} :
      ChunkStep pool live chunks (.write p offset cells) chunks live

namespace PoolState

variable {s next : PoolState} {chunks : List Chunk} {op : PoolOp}

/-- Every step of a pool is one on its chunks. -/
theorem Inv.step_chunks (hinv : s.Inv chunks) (hstep : s.Step op next) :
    ∃ chunks', ChunkStep s.pool s.live chunks op chunks' next.live ∧ next.Inv chunks' ∧
      next.pool.initHead = s.pool.initHead ∧ next.pool.nUnitSize = s.pool.nUnitSize := by
  obtain ⟨chunks', hnext⟩ := hinv.step hstep
  cases hstep with
  | @alloc fresh p block pool heap hgrow halloc hblock =>
      obtain ⟨chunk, rest, rfl⟩ := hinv.stores.exists_head
      cases hfree : chunk.free with
      | nil =>
          have hfresh := hgrow (hinv.stores.full hfree)
          obtain ⟨heap', halloc', hstores, _⟩ := alloc_of_full hinv.stores hfree hfresh
          rw [halloc, Option.some.injEq, Prod.mk.injEq, Prod.mk.injEq] at halloc'
          obtain ⟨rfl, rfl, rfl⟩ := halloc'
          obtain rfl := Option.some.inj hblock
          -- the heap tells the chunks, so those of the invariant are these
          obtain rfl := hnext.stores.unique hstores
          exact ⟨_, .grow hfree, hnext, rfl, rfl⟩
      | cons unit more =>
          obtain ⟨heap', halloc', hstores, _⟩ := alloc_of_free hinv.stores hfree fresh
          rw [halloc, Option.some.injEq, Prod.mk.injEq, Prod.mk.injEq] at halloc'
          obtain ⟨rfl, rfl, rfl⟩ := halloc'
          obtain rfl : chunk.base = block :=
            Option.some.inj (hinv.stores.head.symm.trans hblock)
          obtain rfl := hnext.stores.unique hstores
          exact ⟨_, .pop hfree, hnext, rfl, rfl⟩
  | @free p block pool heap hlive hfree =>
      obtain ⟨chunk, hmem, rfl, unit, hunit, rfl⟩ := (hinv.live _ _).mp hlive
      obtain ⟨front, back, rfl⟩ := List.append_of_mem hmem
      obtain ⟨heap', _, hfree', hstores, _⟩ := free_spec hinv.stores hunit
      rw [hfree, Option.some.injEq, Prod.mk.injEq] at hfree'
      obtain ⟨rfl, rfl⟩ := hfree'
      obtain rfl := hnext.stores.unique hstores
      exact ⟨_, .push hunit hlive, hnext, rfl, rfl⟩
  | freeAll hfree =>
      obtain ⟨fuel, heap', hfree', hreset⟩ := hinv.freeAll
      obtain rfl := freeAll_unique hfree hfree'
      obtain rfl := hnext.stores.unique hreset.stores
      exact ⟨_, .reset, hnext, rfl, rfl⟩
  | write hlive hinside => exact ⟨chunks, .write, hinv.write hlive hinside, rfl, rfl⟩

/-- The pool itself writes into no payload that is live before and after. -/
theorem Inv.step_bytes (hinv : s.Inv chunks) (hstep : s.Step op next)
    (hpool : ∀ p offset cells, op ≠ .write p offset cells) {p base : Nat}
    (hlive : (p, base) ∈ s.live) (hkept : (p, base) ∈ next.live) {address : Nat}
    (hlower : p ≤ address) (hupper : address < p + s.payloadSize) :
    next.heap.bytes address = s.heap.bytes address := by
  have hused := (hinv.live _ _).mp hlive
  cases hstep with
  | @alloc fresh q block pool heap hgrow halloc hblock =>
      obtain ⟨chunk, rest, rfl⟩ := hinv.stores.exists_head
      cases hfree : chunk.free with
      | nil =>
          have hfresh := hgrow (hinv.stores.full hfree)
          obtain ⟨heap', halloc', _, hbytes, _⟩ := alloc_of_full hinv.stores hfree hfresh
          rw [halloc, Option.some.injEq, Prod.mk.injEq, Prod.mk.injEq] at halloc'
          obtain ⟨_, _, rfl⟩ := halloc'
          obtain ⟨header, hfound, hfrom, hto⟩ := hinv.stores.payload_inside hused
          have hapart := hfresh.apart base _ (block_eq_some_iff.mp hfound)
          -- the new block is apart from the one the payload is in
          simp only [Allocation.size, sizeofMemoryBlock, aDataOffset, payloadSize] at *
          apply hbytes
          omega
      | cons unit more =>
          obtain ⟨heap', halloc', _, hbytes, _⟩ := alloc_of_free hinv.stores hfree fresh
          rw [halloc, Option.some.injEq, Prod.mk.injEq, Prod.mk.injEq] at halloc'
          obtain ⟨_, _, rfl⟩ := halloc'
          exact congrFun hbytes address
  | @free q block pool heap hfreed hfree =>
      have hused' := (hinv.live _ _).mp hfreed
      have hne : p ≠ q := by
        rintro rfl
        obtain rfl := hinv.stores.used_unique hused hused'
        exact (hinv.once.of_map _).not_mem_erase hkept
      -- `Free` writes its link into the payload that is given back
      have hapart := hinv.stores.payloads_apart hused hused' hne
      obtain ⟨chunk, hmem, rfl, unit, hunit, rfl⟩ := hused'
      obtain ⟨front, back, rfl⟩ := List.append_of_mem hmem
      obtain ⟨heap', cells, hfree', _, hbytes, hcells, _⟩ := free_spec hinv.stores hunit
      rw [hfree, Option.some.injEq, Prod.mk.injEq] at hfree'
      obtain ⟨_, rfl⟩ := hfree'
      have hsize := hinv.stores.sized.unitSize
      rw [payloadSize] at hupper
      rw [hbytes]
      rcases hapart with hbefore | hafter
      · exact Memory.write_of_lt _ _ (by omega)
      · exact Memory.write_of_ge _ _ (by omega)
  | freeAll hfree => cases hkept
  | write hlive hinside => exact absurd rfl (hpool _ _ _)

/-- A pool starts with one block. -/
theorem Constructed.grown (hmade : s.Constructed) :
    ∃ base num, s.Inv [grown base num] ∧ s.pool.initHead = some base := by
  obtain ⟨_, heap, fresh, nUnitSize, nInitUnitNum, nGrowUnitNum, hnew, hapart, hfresh, _, hinit,
    hgrow, _, hproduct⟩ := id hmade
  obtain ⟨chunks, hinv⟩ := hmade.explained
  have hunitSize : s.pool.nUnitSize = (nUnitSize + 2) % 65536 := nUnitSize_of_new hnew
  rw [hunitSize] at hfresh hproduct
  obtain ⟨hstores, _⟩ := new_spec hnew hapart hfresh hinit hgrow hproduct
  obtain rfl := hinv.stores.unique hstores
  obtain ⟨base, hbase, hhead⟩ := hstores.init
  obtain rfl := List.mem_singleton.mp hbase
  exact ⟨_, _, hinv, hhead⟩

/-! ## Steps there are -/

variable {chunk : Chunk} {rest front back : List Chunk} {unit fresh : Nat} {more : List Nat}

/-- `Alloc` with a free unit in front takes that unit. -/
theorem Inv.exists_pop (hinv : s.Inv (chunk :: rest)) (hfree : chunk.free = unit :: more)
    (fresh : Nat) : ∃ next, s.Step (.alloc fresh) next ∧ next.Inv (chunk.pop :: rest) ∧
      next.live = (payload s.pool.nUnitSize chunk.base unit, chunk.base) :: s.live ∧
      next.pool = s.pool ∧ next.heap.sizes = s.heap.sizes := by
  have hgrow : s.pool.CanGrow s.heap fresh := by
    intro hfull
    rw [hinv.stores.free_eq_nil_of_full hfull] at hfree
    cases hfree
  obtain ⟨p, block, pool, heap, chunks', halloc, hblock, _, hnext⟩ := hinv.alloc hgrow
  have hstep := Step.alloc hgrow halloc hblock
  obtain ⟨heap', halloc', hstores, _, hsizes, _⟩ := alloc_of_free hinv.stores hfree fresh
  rw [halloc, Option.some.injEq, Prod.mk.injEq, Prod.mk.injEq] at halloc'
  obtain ⟨rfl, rfl, rfl⟩ := halloc'
  obtain rfl : chunk.base = block := Option.some.inj (hinv.stores.head.symm.trans hblock)
  obtain rfl := hnext.stores.unique hstores
  exact ⟨_, hstep, hnext, rfl, rfl, hsizes⟩

/-- `Alloc` with nothing free in front makes a block, if there is memory. -/
theorem Inv.exists_grow (hinv : s.Inv (chunk :: rest)) (hfull : chunk.free = [])
    (hfresh : s.heap.Fresh fresh (sizeofMemoryBlock + s.pool.nUnitSize * s.pool.nGrowUnitNum)) :
    ∃ next, s.Step (.alloc fresh) next ∧
      next.Inv ((grown fresh s.pool.nGrowUnitNum).pop :: chunk :: rest) ∧
      next.live = (payload s.pool.nUnitSize fresh 0, fresh) :: s.live ∧
      next.pool = { s.pool with pBlock := some fresh } ∧
      next.heap.sizes = Function.update s.heap.sizes fresh
        (some (sizeofMemoryBlock + s.pool.nUnitSize * s.pool.nGrowUnitNum)) := by
  obtain ⟨p, block, pool, heap, chunks', halloc, hblock, _, hnext⟩ := hinv.alloc fun _ => hfresh
  have hstep := Step.alloc (fun _ => hfresh) halloc hblock
  obtain ⟨heap', halloc', hstores, _, hsizes, _⟩ := alloc_of_full hinv.stores hfull hfresh
  rw [halloc, Option.some.injEq, Prod.mk.injEq, Prod.mk.injEq] at halloc'
  obtain ⟨rfl, rfl, rfl⟩ := halloc'
  obtain rfl := Option.some.inj hblock
  obtain rfl := hnext.stores.unique hstores
  exact ⟨_, hstep, hnext, rfl, rfl, hsizes⟩

/-- `Free` of a live unit. -/
theorem Inv.exists_push (hinv : s.Inv (front ++ chunk :: back)) (hlive : chunk.Live unit) :
    ∃ next, s.Step (.free (payload s.pool.nUnitSize chunk.base unit)) next ∧
      next.Inv (settled s.pool.initHead front (chunk.push unit) back) ∧
      next.live = s.live.erase (payload s.pool.nUnitSize chunk.base unit, chunk.base) ∧
      next.pool = { s.pool with
        pBlock := (bases (settled s.pool.initHead front (chunk.push unit) back)).head? } ∧
      next.heap.sizes = settledSizes s.pool.initHead (chunk.push unit) s.heap.sizes := by
  have hused : (payload s.pool.nUnitSize chunk.base unit, chunk.base) ∈ s.live :=
    (hinv.live _ _).mpr
      ⟨chunk, List.mem_append_right _ List.mem_cons_self, rfl, unit, hlive, rfl⟩
  obtain ⟨pool, heap, chunks', hfree, hnext⟩ := hinv.free hused
  have hstep := Step.free hused hfree
  obtain ⟨heap', _, hfree', hstores, _, _, hsizes, _⟩ := free_spec hinv.stores hlive
  rw [hfree, Option.some.injEq, Prod.mk.injEq] at hfree'
  obtain ⟨rfl, rfl⟩ := hfree'
  obtain rfl := hnext.stores.unique hstores
  exact ⟨_, hstep, hnext, rfl, rfl, hsizes⟩

/-- A pool of one eight-byte unit that grows by two, in a heap of its own. -/
theorem exists_small : ∃ s : PoolState, s.Constructed ∧ s.Inv [grown 4096 1] ∧ s.live = [] ∧
    s.pool = ⟨some 4096, some 4096, 10, 1, 2⟩ ∧
    s.heap.sizes = Function.update (fun _ => none) 4096 (some 58) := by
  have hfresh : vacant.Fresh 4096 (sizeofMemoryBlock + 10 * 1) :=
    vacant_fresh (by decide) (by decide)
  obtain ⟨pool, heap, hnew, hsizes⟩ : ∃ pool heap, new vacant 4096 8 1 2 = some (pool, heap) ∧
      heap.sizes = Function.update vacant.sizes 4096 (some (sizeofMemoryBlock + 10 * 1)) :=
    exists_new (by decide) (by decide) (by decide) (by decide) (by decide) hfresh
  have hpool : pool = ⟨some 4096, some 4096, 10, 1, 2⟩ := by
    simp only [new, Option.bind_eq_bind, Option.bind_eq_some_iff, Option.some.injEq,
      Prod.mk.injEq] at hnew
    obtain ⟨_, _, _, _, _, _, _, _, rfl, _⟩ := hnew
    rfl
  obtain ⟨hstores, _⟩ := new_spec hnew vacant_apart hfresh (by decide) (by decide) (by decide)
  have hinitProduct : 1 * 10 < 2 ^ 31 := by decide
  have hgrowProduct : 2 * 10 < 2 ^ 31 := by decide
  have hmade : Constructed ⟨pool, heap, []⟩ := by
    subst hpool
    exact ⟨rfl, vacant, 4096, 8, 1, 2, hnew, vacant_apart, hfresh, by decide, by decide, by decide,
      hinitProduct, hgrowProduct⟩
  obtain ⟨chunks, hinv⟩ := hmade.explained
  obtain rfl := hinv.stores.unique hstores
  exact ⟨_, hmade, hinv, rfl, hpool, hsizes⟩

end PoolState

end SelectNet
