import SelectNet.CommonLib.VarMemPool
import SelectNet.Foundation.Machine

/-!
# Memory of every size is handed out once

Runs of a `VarMemPool`: `Alloc` of any size, `Free` with the same size, and
writes of the users into what they own. A run records what is live: the
pointer, the size asked for, and where it came from.
-/

namespace SelectNet

open VarMemPool MemoryPool Heap

/-- A live allocation. -/
structure Lease where
  p : Nat
  size : Int
  source : Source
  deriving DecidableEq

structure VarState where
  pools : VarMemPool
  heap : Heap
  live : List Lease

/-- What happens, with what the calls answer. `fresh` is where the system would
find memory if it is asked for some. -/
inductive VarOp where
  | alloc (size : Int) (fresh p : Nat) (source : Source)
  | free (p : Nat) (size : Int) (source : Source)
  | write (p offset : Nat) (cells : List Byte)

namespace VarState

/-- There is memory at `fresh` for what the source may need. -/
def Room (s : VarState) (size : Int) (fresh : Nat) : Source → Prop
  | .malloc => s.heap.Fresh fresh size.toNat
  | .pool index => ∀ pool, s.pools.poolArr[index]? = some pool → pool.CanGrow s.heap fresh

inductive Step (s : VarState) : VarOp → VarState → Prop where
  | alloc {size : Int} {fresh p : Nat} {source : Source} {pools : VarMemPool} {heap : Heap}
      (halloc : s.pools.alloc s.heap size fresh = some (p, source, pools, heap))
      (hroom : s.Room size fresh source) :
      Step s (.alloc size fresh p source) ⟨pools, heap, ⟨p, size, source⟩ :: s.live⟩
  | free {lease : Lease} {source : Source} {pools : VarMemPool} {heap : Heap}
      (hlive : lease ∈ s.live)
      (hfree : s.pools.free s.heap lease.p lease.size = some (source, pools, heap)) :
      Step s (.free lease.p lease.size source) ⟨pools, heap, s.live.erase lease⟩
  | write {lease : Lease} {offset : Nat} {cells : List Byte} (hlive : lease ∈ s.live)
      (hinside : offset + cells.length ≤ lease.size.toNat) :
      Step s (.write lease.p offset cells) { s with heap := s.heap.write (lease.p + offset) cells }

/-- The constructor has returned. -/
structure Constructed (s : VarState) : Prop where
  none : s.live = []
  made : ∃ heap : Heap, heap.Apart ∧ Constructs poolConfig heap s.pools.poolArr s.heap

/-- What is safe about a state. -/
structure Safe (s : VarState) : Prop where
  /-- A lease has its bytes inside one allocation, those of a pool inside the
  payload of one unit. -/
  room : ∀ lease ∈ s.live, ∃ base alloc, s.heap.allocs base = some alloc ∧ base ≤ lease.p ∧
    lease.p + lease.size.toNat ≤ base + alloc.size ∧
    ∀ index, lease.source = .pool index → lease.size ≤ unitSize index ∧
      ∃ pool, s.pools.poolArr[index]? = some pool ∧ pool.findBlock s.heap lease.p = some base
  apart : s.live.Pairwise fun one two =>
    one.p + one.size.toNat ≤ two.p ∨ two.p + two.size.toNat ≤ one.p
  distinct : (s.live.map Lease.p).Nodup

end VarState

/-- The runs of a `VarMemPool`. -/
def varMachine : Machine VarState VarOp where
  initial := VarState.Constructed
  step := VarState.Step

/-! ## The invariant -/

/-- The size leads to the source. -/
def Lease.Routed (lease : Lease) : Prop :=
  match lease.source with
  | .malloc => lease.size > unitSize (poolNum - 1)
  | .pool index => lease.size ≤ unitSize (poolNum - 1) ∧ classOf lease.size = some index

namespace VarState

/-- Each pool stores its own chunks, and the leases are what the pools have
handed out and what `malloc` has. -/
structure Inv (s : VarState) (chunks : Nat → List Chunk) : Prop where
  count : s.pools.poolArr.length = poolNum
  apart : s.heap.Apart
  stores : ∀ index pool, s.pools.poolArr[index]? = some pool →
    pool.Stores s.heap (chunks index) ∧ pool.nUnitSize = unitSize index + 2
  separate : ∀ one < poolNum, ∀ two < poolNum, one ≠ two →
    ∀ base ∈ bases (chunks one), base ∉ bases (chunks two)
  pooled : ∀ p index, (∃ size, ⟨p, size, .pool index⟩ ∈ s.live) ↔
    index < poolNum ∧ ∃ base, Used (unitSize index + 2) (chunks index) p base
  plain : ∀ p size, ⟨p, size, .malloc⟩ ∈ s.live → s.heap.allocs p = some (.plain size.toNat)
  routed : ∀ lease ∈ s.live, lease.Routed
  once : (s.live.map Lease.p).Nodup

variable {s next : VarState} {chunks : Nat → List Chunk}

theorem Inv.exists_pool (hinv : s.Inv chunks) {index : Nat} (hindex : index < poolNum) :
    ∃ pool, s.pools.poolArr[index]? = some pool :=
  ⟨_, List.getElem?_eq_getElem (hinv.count.symm ▸ hindex)⟩

theorem Inv.lt_of_pool (hinv : s.Inv chunks) {index : Nat} {pool : MemoryPool}
    (hpool : s.pools.poolArr[index]? = some pool) : index < poolNum := by
  rw [← hinv.count]
  exact (List.getElem?_eq_some_iff.mp hpool).1

/-- What a pool uses is allocated. -/
theorem Inv.allocated (hinv : s.Inv chunks) {index base : Nat} (hindex : index < poolNum)
    (hbase : base ∈ bases (chunks index)) :
    ∃ header, s.heap.allocs base = some (.block header) := by
  obtain ⟨pool, hpool⟩ := hinv.exists_pool hindex
  obtain ⟨chunk, hmem, rfl⟩ := List.mem_map.mp hbase
  obtain ⟨header, hfound, _⟩ := (hinv.stores index pool hpool).1.allocated hmem
  exact ⟨header, hfound⟩

theorem Inv.sizes_ne_none (hinv : s.Inv chunks) {index base : Nat} (hindex : index < poolNum)
    (hbase : base ∈ bases (chunks index)) : s.heap.sizes base ≠ none := by
  obtain ⟨header, hfound⟩ := hinv.allocated hindex hbase
  rw [sizes, hfound]
  exact Option.some_ne_none _

/-- A class is large enough for what is routed to it. -/
theorem routed_pool {lease : Lease} {index : Nat} (hrouted : lease.Routed)
    (hsource : lease.source = .pool index) :
    lease.size ≤ unitSize (poolNum - 1) ∧ classOf lease.size = some index ∧ index < poolNum ∧
      lease.size ≤ unitSize index := by
  rw [Lease.Routed, hsource] at hrouted
  obtain ⟨hle, hclass⟩ := hrouted
  obtain ⟨index', hclass', hlt, hsize⟩ := classOf_spec hle
  obtain rfl := Option.some.inj (hclass.symm.trans hclass')
  exact ⟨hle, hclass, hlt, hsize⟩

/-- A payload lies in its block, with all bytes of its class. -/
theorem Inv.used_inside (hinv : s.Inv chunks) {p index base : Nat} (hindex : index < poolNum)
    (hused : Used (unitSize index + 2) (chunks index) p base) :
    ∃ header, s.heap.allocs base = some (.block header) ∧ base ≤ p ∧
      p + unitSize index ≤ base + Allocation.size (.block header) ∧ 0 < unitSize index := by
  obtain ⟨pool, hpool⟩ := hinv.exists_pool hindex
  obtain ⟨hstores, hunitSize⟩ := hinv.stores index pool hpool
  rw [← hunitSize] at hused
  obtain ⟨header, hfound, hlower, hupper⟩ := hstores.payload_inside hused
  have hpos := hstores.sized.unitSize
  refine ⟨header, block_eq_some_iff.mp hfound, (Nat.le_add_right _ _).trans hlower, ?_, by omega⟩
  rw [hunitSize, Nat.add_sub_cancel] at hupper
  simp only [Allocation.size, sizeofMemoryBlock, aDataOffset] at hupper ⊢
  omega

/-- The allocation that a lease lies in. -/
structure Located (s : VarState) (chunks : Nat → List Chunk) (lease : Lease) (base : Nat)
    (alloc : Allocation) : Prop where
  found : s.heap.allocs base = some alloc
  lower : base ≤ lease.p
  upper : lease.p + lease.size.toNat ≤ base + alloc.size
  inside : lease.p < base + alloc.size
  plain : lease.source = .malloc → base = lease.p ∧ ∃ size, alloc = .plain size
  used : ∀ index, lease.source = .pool index → index < poolNum ∧
    Used (unitSize index + 2) (chunks index) lease.p base ∧ ∃ header, alloc = .block header

theorem Inv.located (hinv : s.Inv chunks) {lease : Lease} (hlive : lease ∈ s.live) :
    ∃ base alloc, s.Located chunks lease base alloc := by
  obtain ⟨p, size, source⟩ := lease
  have hrouted := hinv.routed _ hlive
  cases source with
  | malloc =>
      have hlarge : size > unitSize (poolNum - 1) := hrouted
      refine ⟨p, .plain size.toNat, hinv.plain p size hlive, Nat.le_refl _, Nat.le_refl _, ?_,
        fun _ => ⟨rfl, _, rfl⟩, fun _ hpool => by cases hpool⟩
      simp only [Allocation.size]
      omega
  | pool index =>
      obtain ⟨_, _, _, hsize⟩ := routed_pool hrouted rfl
      obtain ⟨hindex, base, hused⟩ := (hinv.pooled p index).mp ⟨size, hlive⟩
      obtain ⟨header, hfound, hlower, hupper, hpos⟩ := hinv.used_inside hindex hused
      refine ⟨base, .block header, hfound, hlower, ?_, ?_, ?_, ?_⟩
      · simp only at hsize ⊢
        omega
      · simp only
        omega
      · intro hmalloc
        cases hmalloc
      · intro _ hpool
        cases hpool
        exact ⟨hindex, hused, header, rfl⟩

/-- Leases in one allocation come from one pool. -/
theorem Inv.same_pool (hinv : s.Inv chunks) {one two : Lease} {base : Nat} {alloc : Allocation}
    (hone : s.Located chunks one base alloc) (htwo : s.Located chunks two base alloc)
    (hne : one.p ≠ two.p) : ∃ index, one.source = .pool index ∧ two.source = .pool index := by
  cases hsource : one.source with
  | malloc =>
      obtain ⟨hbase, size, rfl⟩ := hone.plain hsource
      cases hsource' : two.source with
      | malloc => exact absurd (hbase.symm.trans (htwo.plain hsource').1) hne
      | pool index =>
          obtain ⟨_, _, header, hblock⟩ := htwo.used index hsource'
          cases hblock
  | pool index =>
      obtain ⟨hindex, ⟨chunk, hmem, hbase, _⟩, header, rfl⟩ := hone.used index hsource
      cases hsource' : two.source with
      | malloc =>
          obtain ⟨_, size, hplain⟩ := htwo.plain hsource'
          cases hplain
      | pool index' =>
          obtain ⟨hindex', ⟨chunk', hmem', hbase', _⟩, _⟩ := htwo.used index' hsource'
          by_cases hsame : index = index'
          · exact ⟨index, rfl, hsame ▸ rfl⟩
          · have hmem₁ : base ∈ bases (chunks index) := hbase ▸ mem_bases hmem
            have hmem₂ : base ∈ bases (chunks index') := hbase' ▸ mem_bases hmem'
            exact absurd hmem₂ (hinv.separate index hindex index' hindex' hsame base hmem₁)

/-- Live regions do not overlap. -/
theorem Inv.leases_apart (hinv : s.Inv chunks) {one two : Lease} (hone : one ∈ s.live)
    (htwo : two ∈ s.live) (hne : one.p ≠ two.p) :
    one.p + one.size.toNat ≤ two.p ∨ two.p + two.size.toNat ≤ one.p := by
  obtain ⟨base, alloc, hlocated⟩ := hinv.located hone
  obtain ⟨base', alloc', hlocated'⟩ := hinv.located htwo
  by_cases hbase : base = base'
  · subst hbase
    obtain rfl := Option.some.inj (hlocated.found.symm.trans hlocated'.found)
    obtain ⟨index, hsource, hsource'⟩ := hinv.same_pool hlocated hlocated' hne
    obtain ⟨hindex, hused, _⟩ := hlocated.used index hsource
    obtain ⟨_, hused', _⟩ := hlocated'.used index hsource'
    obtain ⟨pool, hpool⟩ := hinv.exists_pool hindex
    obtain ⟨hstores, hunitSize⟩ := hinv.stores index pool hpool
    rw [← hunitSize] at hused hused'
    have hapart := hstores.payloads_apart hused hused' hne
    obtain ⟨_, _, _, hsize⟩ := routed_pool (hinv.routed one hone) hsource
    obtain ⟨_, _, _, hsize'⟩ := routed_pool (hinv.routed two htwo) hsource'
    omega
  · have hapart := hinv.apart base base' alloc alloc' hlocated.found hlocated'.found hbase
    have hupper := hlocated.upper
    have hupper' := hlocated'.upper
    have hlower := hlocated.lower
    have hlower' := hlocated'.lower
    omega

/-- The invariant makes a state safe. -/
theorem Inv.safe (hinv : s.Inv chunks) : s.Safe where
  room := by
    intro lease hlive
    obtain ⟨base, alloc, hlocated⟩ := hinv.located hlive
    refine ⟨base, alloc, hlocated.found, hlocated.lower, hlocated.upper, ?_⟩
    intro index hsource
    obtain ⟨hindex, hused, _⟩ := hlocated.used index hsource
    obtain ⟨_, _, _, hsize⟩ := routed_pool (hinv.routed lease hlive) hsource
    obtain ⟨pool, hpool⟩ := hinv.exists_pool hindex
    obtain ⟨hstores, hunitSize⟩ := hinv.stores index pool hpool
    rw [← hunitSize] at hused
    exact ⟨hsize, pool, hpool, hstores.findBlock_of_used hused⟩
  apart := by
    have hpairwise : (s.live.map Lease.p).Pairwise (· ≠ ·) := hinv.once
    rw [List.pairwise_map] at hpairwise
    exact hpairwise.imp_of_mem fun hone htwo hne => hinv.leases_apart hone htwo hne
  distinct := hinv.once

/-! ## Steps -/

/-- An answer that depends on the chunks and on what is allocated only: any heap
that stores the same chunks and has the same allocations gives it. -/
def Uniform (s : VarState) (chunks : Nat → List Chunk)
    (outcome : Heap → Heap → Prop) : Prop :=
  ∃ sizes', ∀ heap₂, Inv ⟨s.pools, heap₂, s.live⟩ chunks → heap₂.sizes = s.heap.sizes →
    ∃ heap', heap'.sizes = sizes' ∧ outcome heap₂ heap'

/-- What lies in a block of a pool has come from that pool. -/
theorem Inv.source_of_base (hinv : s.Inv chunks) {lease : Lease} {index base : Nat}
    {alloc : Allocation} (hlocated : s.Located chunks lease base alloc) (hindex : index < poolNum)
    (hbase : base ∈ bases (chunks index)) : lease.source = .pool index := by
  obtain ⟨header, hfound⟩ := hinv.allocated hindex hbase
  obtain rfl := Option.some.inj (hfound.symm.trans hlocated.found)
  cases hsource : lease.source with
  | malloc =>
      obtain ⟨_, _, hplain⟩ := hlocated.plain hsource
      cases hplain
  | pool other =>
      obtain ⟨hother, ⟨chunk, hmem, rfl, _⟩, _⟩ := hlocated.used other hsource
      by_contra hne
      have hapart : other ≠ index := fun hsame => hne (congrArg Source.pool hsame)
      exact hinv.separate other hother index hindex hapart _ (mem_bases hmem) hbase

theorem Inv.of_pool (hinv : s.Inv chunks) {index : Nat} {pool pool' : MemoryPool}
    {chunks' : List Chunk} {heap' : Heap} {live' : List Lease}
    (hpool : s.pools.poolArr[index]? = some pool) (hsize : pool'.nUnitSize = pool.nUnitSize)
    (hstores : pool'.Stores heap' chunks')
    (hbases : ∀ base ∈ bases chunks', base ∈ bases (chunks index) ∨ s.heap.sizes base = none)
    (hkept : ∀ other, other ∉ bases (chunks index) → s.heap.sizes other ≠ none →
      Kept s.heap heap' other)
    (hother : ∀ p size source, source ≠ .pool index →
      (⟨p, size, source⟩ ∈ live' ↔ ⟨p, size, source⟩ ∈ s.live))
    (hlive : ∀ p, (∃ size, ⟨p, size, .pool index⟩ ∈ live') ↔
      ∃ base, Used (unitSize index + 2) chunks' p base)
    (hrouted : ∀ lease ∈ live', lease.Routed) (honce : (live'.map Lease.p).Nodup) :
    Inv ⟨⟨s.pools.poolArr.set index pool'⟩, heap', live'⟩
      (Function.update chunks index chunks') := by
  have hindex := hinv.lt_of_pool hpool
  -- a block that is new to this pool was not allocated, so no other pool has it
  have hunused : ∀ other < poolNum, other ≠ index → ∀ base ∈ bases (chunks other),
      base ∉ bases chunks' := by
    intro other hlt hne base hbase hmem
    rcases hbases base hmem with hold | hnone
    · exact hinv.separate other hlt index hindex hne base hbase hold
    · exact absurd hnone (hinv.sizes_ne_none hlt hbase)
  refine ⟨?_, hstores.apart, ?_, ?_, ?_, ?_, hrouted, honce⟩
  · rw [List.length_set]
    exact hinv.count
  · intro other pool₂ hget
    rw [List.getElem?_set] at hget
    split at hget
    next hsame =>
      subst hsame
      rw [if_pos (hinv.count.symm ▸ hindex), Option.some.injEq] at hget
      subst hget
      rw [Function.update_self]
      exact ⟨hstores, hsize.trans (hinv.stores _ pool hpool).2⟩
    next hne =>
      obtain ⟨hstores₂, hunitSize₂⟩ := hinv.stores other pool₂ hget
      have hlt := hinv.lt_of_pool hget
      rw [Function.update_of_ne (Ne.symm hne)]
      refine ⟨hstores₂.of_kept ?_ hstores.apart, hunitSize₂⟩
      intro base hbase
      exact hkept base (hinv.separate other hlt index hindex (Ne.symm hne) base hbase)
        (hinv.sizes_ne_none hlt hbase)
  · intro one hone two htwo hne base hbase
    by_cases hfirst : one = index
    · subst hfirst
      rw [Function.update_self] at hbase
      rw [Function.update_of_ne (Ne.symm hne)]
      exact fun hmem => hunused two htwo (Ne.symm hne) base hmem hbase
    · rw [Function.update_of_ne hfirst] at hbase
      by_cases hsecond : two = index
      · subst hsecond
        rw [Function.update_self]
        exact hunused one hone hfirst base hbase
      · rw [Function.update_of_ne hsecond]
        exact hinv.separate one hone two htwo hne base hbase
  · intro p other
    by_cases hsame : other = index
    · subst hsame
      rw [Function.update_self, hlive, and_iff_right hindex]
    · rw [Function.update_of_ne hsame, ← hinv.pooled]
      apply exists_congr
      intro size
      exact hother p size (.pool other) fun hpools => hsame (Source.pool.inj hpools)
  · intro p size hmem
    have hplain := hinv.plain p size
      ((hother p size .malloc (fun hpools => by cases hpools)).mp hmem)
    have hnot : p ∉ bases (chunks index) := by
      intro hbase
      obtain ⟨header, hfound⟩ := hinv.allocated hindex hbase
      rw [hplain] at hfound
      cases hfound
    rw [(hkept p hnot (by rw [sizes, hplain]; exact Option.some_ne_none _)).1, hplain]

/-- A pool does not hand out what is live. -/
theorem Inv.not_live_of_handed (hinv : s.Inv chunks) {index p block : Nat} {pool pool' : MemoryPool}
    {chunks' : List Chunk} {heap' : Heap} (hpool : s.pools.poolArr[index]? = some pool)
    (hhanded : pool.Handed s.heap.sizes (chunks index) p block chunks')
    (hsize : pool'.nUnitSize = pool.nUnitSize) (hstores : pool'.Stores heap' chunks')
    (hkept : ∀ other, other ∉ bases (chunks index) → s.heap.sizes other ≠ none →
      Kept s.heap heap' other) : p ∉ s.live.map Lease.p := by
  intro hmem
  obtain ⟨lease, hlive, rfl⟩ := List.mem_map.mp hmem
  obtain ⟨base, alloc, hlocated⟩ := hinv.located hlive
  have hindex := hinv.lt_of_pool hpool
  have hunitSize := (hinv.stores index pool hpool).2
  -- were the lease in a block of the pool, its unit would not have been free
  have hbase : base ∉ bases (chunks index) := by
    intro hold
    obtain ⟨_, hused, _⟩ := hlocated.used index (hinv.source_of_base hlocated hindex hold)
    exact hhanded.notUsed base (hunitSize ▸ hused)
  have hsome : s.heap.sizes base ≠ none := by
    rw [sizes, hlocated.found]
    exact Option.some_ne_none _
  have hnew : Used pool'.nUnitSize chunks' lease.p block := by
    rw [hsize]
    exact (hhanded.used lease.p block).mpr (.inl ⟨rfl, rfl⟩)
  have hblock : block ≠ base := by
    rintro rfl
    obtain ⟨chunk, hchunk, rfl, _⟩ := hnew
    rcases hhanded.bases _ (mem_bases hchunk) with hold | hnone
    · exact hbase hold
    · exact hsome hnone
  obtain ⟨header, hfound, hlower, hupper⟩ := hstores.payload_inside hnew
  have hpos := hstores.sized.unitSize
  have hfound' : heap'.allocs base = some alloc := (hkept base hbase hsome).1.trans hlocated.found
  -- two allocations do not overlap, and the pointer would lie in both
  have hapart := hstores.apart _ _ _ _ (block_eq_some_iff.mp hfound) hfound' hblock
  have hbelow := hlocated.lower
  have habove := hlocated.inside
  simp only [Allocation.size, sizeofMemoryBlock, aDataOffset] at hapart hlower hupper habove
  omega

/-- A pool has handed out a pointer. -/
theorem Inv.hand (hinv : s.Inv chunks) {size : Int} {index p block : Nat} {pool : MemoryPool}
    {chunks' : List Chunk} {heap' : Heap} (hle : size ≤ unitSize (poolNum - 1))
    (hclass : classOf size = some index) (hpool : s.pools.poolArr[index]? = some pool)
    (hhanded : pool.Handed s.heap.sizes (chunks index) p block chunks')
    (hstores' : ({ pool with pBlock := some block } : MemoryPool).Stores heap' chunks')
    (hkept : ∀ other, other ∉ bases (chunks index) → s.heap.sizes other ≠ none →
      Kept s.heap heap' other) :
    Inv ⟨⟨s.pools.poolArr.set index { pool with pBlock := some block }⟩, heap',
        ⟨p, size, .pool index⟩ :: s.live⟩ (Function.update chunks index chunks') := by
  have hlt := hinv.lt_of_pool hpool
  have hunitSize := (hinv.stores index pool hpool).2
  have hsame : ({ pool with pBlock := some block } : MemoryPool).nUnitSize = pool.nUnitSize := rfl
  have hnew := hinv.not_live_of_handed hpool hhanded hsame hstores' hkept
  apply hinv.of_pool hpool hsame hstores' hhanded.bases hkept
  · intro q size' source hsource
    rw [List.mem_cons, or_iff_right]
    rintro hsame
    cases hsame
    exact hsource rfl
  · intro q
    have hpooled := hinv.pooled q index
    simp only [List.mem_cons, Lease.mk.injEq, exists_or, ← hunitSize] at hpooled ⊢
    rw [hpooled, and_iff_right hlt]
    simp only [hhanded.used, exists_or]
    apply or_congr_left
    constructor
    · rintro ⟨_, hq, _⟩
      exact ⟨block, hq, rfl⟩
    · rintro ⟨_, hq, _⟩
      exact ⟨size, hq, rfl, trivial⟩
  · rw [List.forall_mem_cons]
    exact ⟨⟨hle, hclass⟩, hinv.routed⟩
  · exact List.nodup_cons.mpr ⟨hnew, hinv.once⟩

/-- Blocks that a pool did not have are where nothing was. -/
def BasesNew (s : VarState) (chunks chunks' : Nat → List Chunk) : Prop :=
  ∀ index, ∀ base ∈ bases (chunks' index),
    base ∈ bases (chunks index) ∨ s.heap.sizes base = none

theorem BasesNew.refl (s : VarState) (chunks : Nat → List Chunk) : s.BasesNew chunks chunks :=
  fun _ _ hbase => .inl hbase

theorem BasesNew.update {index : Nat} {chunks' : List Chunk}
    (hbases : ∀ base ∈ bases chunks', base ∈ bases (chunks index) ∨ s.heap.sizes base = none) :
    s.BasesNew chunks (Function.update chunks index chunks') := by
  intro other base hbase
  by_cases hsame : other = index
  · subst hsame
    rw [Function.update_self] at hbase
    exact hbases base hbase
  · rw [Function.update_of_ne hsame] at hbase
    exact .inl hbase

/-- `Alloc` from a pool. -/
theorem Inv.alloc_pool (hinv : s.Inv chunks) {size : Int} {index fresh : Nat}
    (hle : size ≤ unitSize (poolNum - 1)) (hclass : classOf size = some index)
    (hroom : s.Room size fresh (.pool index)) :
    ∃ p pools chunks', s.BasesNew chunks chunks' ∧ s.Uniform chunks fun heap₂ heap' =>
      s.pools.alloc heap₂ size fresh = some (p, .pool index, pools, heap') ∧
      Inv ⟨pools, heap', ⟨p, size, .pool index⟩ :: s.live⟩ chunks' := by
  obtain ⟨index', hclass', hlt, _⟩ := classOf_spec hle
  obtain rfl := Option.some.inj (hclass.symm.trans hclass')
  obtain ⟨pool, hpool⟩ := hinv.exists_pool hlt
  obtain ⟨p, block, chunks', sizes', hhanded, _, hrun⟩ :=
    alloc_spec (hinv.stores index pool hpool).1 (hroom pool hpool)
  refine ⟨p, ⟨s.pools.poolArr.set index { pool with pBlock := some block }⟩,
    Function.update chunks index chunks', .update hhanded.bases, sizes', ?_⟩
  intro heap₂ hinv₂ hsizes
  obtain ⟨heap', halloc, hstores', hsizes', hkept⟩ :=
    hrun heap₂ (hinv₂.stores index pool hpool).1 hsizes
  refine ⟨heap', hsizes', alloc_of_class hle hclass hpool halloc, ?_⟩
  exact hinv₂.hand hle hclass hpool (hsizes ▸ hhanded) hstores' hkept

/-- `Alloc` from `malloc`. -/
theorem uniform_alloc_malloc {size : Int} {fresh : Nat}
    (hlarge : size > unitSize (poolNum - 1)) (hfresh : s.heap.Fresh fresh size.toNat) :
    s.Uniform chunks fun heap₂ heap' =>
      s.pools.alloc heap₂ size fresh = some (fresh, .malloc, s.pools, heap') ∧
      Inv ⟨s.pools, heap', ⟨fresh, size, .malloc⟩ :: s.live⟩ chunks := by
  refine ⟨Function.update s.heap.sizes fresh (some size.toNat), ?_⟩
  intro heap₂ hinv₂ hsizes
  have hfresh₂ := hfresh.of_sizes hsizes
  have hallocs : (heap₂.malloc fresh size.toNat).allocs =
      Function.update heap₂.allocs fresh (some (.plain size.toNat)) := rfl
  have hunused : ∀ {base alloc}, heap₂.allocs base = some alloc → base ≠ fresh := by
    rintro base alloc hfound rfl
    rw [hfresh₂.unused] at hfound
    cases hfound
  have hkept : ∀ {base alloc}, heap₂.allocs base = some alloc →
      Kept heap₂ (heap₂.malloc fresh size.toNat) base := fun hfound =>
    Kept.of_bytes_eq (Function.update_of_ne (hunused hfound) _ _) rfl
  have hapart : (heap₂.malloc fresh size.toNat).Apart := hinv₂.apart.allocate hfresh₂ hallocs
  have hnew : fresh ∉ s.live.map Lease.p := by
    intro hmem
    obtain ⟨lease, hlive, hp⟩ := List.mem_map.mp hmem
    obtain ⟨base, alloc, hlocated⟩ := hinv₂.located hlive
    have hapart := hfresh₂.apart base alloc hlocated.found
    have hlower := hlocated.lower
    have hinside := hlocated.inside
    omega
  refine ⟨heap₂.malloc fresh size.toNat, ?_, alloc_of_large hlarge, hinv₂.count, hapart, ?_,
    hinv₂.separate, ?_, ?_, ?_, List.nodup_cons.mpr ⟨hnew, hinv₂.once⟩⟩
  · rw [sizes_of_update hallocs, hsizes]
    rfl
  · intro index pool hpool
    obtain ⟨hstores, hunitSize⟩ := hinv₂.stores index pool hpool
    refine ⟨hstores.of_kept ?_ hapart, hunitSize⟩
    intro base hbase
    obtain ⟨header, hfound⟩ := hinv₂.allocated (hinv₂.lt_of_pool hpool) hbase
    exact hkept hfound
  · intro p index
    rw [← hinv₂.pooled]
    simp only [List.mem_cons, Lease.mk.injEq, reduceCtorEq, and_false, false_or]
  · intro p size' hmem
    rcases List.mem_cons.mp hmem with hsame | hold
    · cases hsame
      exact Function.update_self _ _ _
    · have hplain := hinv₂.plain p size' hold
      exact (hkept hplain).1.trans hplain
  · rw [List.forall_mem_cons]
    exact ⟨hlarge, hinv₂.routed⟩

/-- Leases with the same pointer are the same. -/
theorem Inv.lease_eq (hinv : s.Inv chunks) {one two : Lease} (hone : one ∈ s.live)
    (htwo : two ∈ s.live) (hsame : one.p = two.p) : one = two :=
  List.inj_on_of_nodup_map hinv.once hone htwo hsame

/-- `Free` of what came from a pool. -/
theorem Inv.free_pool (hinv : s.Inv chunks) {lease : Lease} {index : Nat}
    (hlive : lease ∈ s.live) (hsource : lease.source = .pool index) :
    ∃ pools chunks', s.BasesNew chunks chunks' ∧ s.Uniform chunks fun heap₂ heap' =>
      s.pools.free heap₂ lease.p lease.size = some (lease.source, pools, heap') ∧
      Inv ⟨pools, heap', s.live.erase lease⟩ chunks' := by
  obtain ⟨hle, hclass, hlt, _⟩ := routed_pool (hinv.routed lease hlive) hsource
  obtain ⟨base, alloc, hlocated⟩ := hinv.located hlive
  obtain ⟨_, hused, _⟩ := hlocated.used index hsource
  obtain ⟨pool, hpool⟩ := hinv.exists_pool hlt
  obtain ⟨hstores, hunitSize⟩ := hinv.stores index pool hpool
  obtain ⟨head, chunks', sizes', hafter, hbases, hrun⟩ :=
    free_of_used hstores (hunitSize.symm ▸ hused)
  refine ⟨⟨s.pools.poolArr.set index { pool with pBlock := head }⟩,
    Function.update chunks index chunks', .update fun other hother => .inl (hbases other hother),
    sizes', ?_⟩
  intro heap₂ hinv₂ hsizes
  obtain ⟨heap', hfree, hstores', hsizes', hkept⟩ :=
    hrun heap₂ (hinv₂.stores index pool hpool).1 hsizes
  have hsame : ({ pool with pBlock := head } : MemoryPool).nUnitSize = pool.nUnitSize := rfl
  have herase : ∀ other, other ∈ s.live.erase lease ↔ other ≠ lease ∧ other ∈ s.live := fun other =>
    (hinv₂.once.of_map _).mem_erase_iff
  refine ⟨heap', hsizes', hsource ▸ free_of_class hle hclass hpool hfree, ?_⟩
  apply hinv₂.of_pool hpool hsame hstores' (fun other hother => .inl (hbases other hother))
    (fun other hother _ => hkept other hother)
  · intro q size' source hother
    rw [herase, and_iff_right]
    rintro rfl
    exact hother hsource
  · intro q
    have hpooled := hinv₂.pooled q index
    rw [and_iff_right hlt, ← hunitSize] at hpooled
    simp only [herase, ← hunitSize, hafter]
    rw [exists_and_right, ← hpooled, ← exists_and_right]
    apply exists_congr
    intro size'
    rw [and_comm]
    apply and_congr_right
    intro hmem
    rw [not_iff_not]
    constructor
    · rintro rfl
      rfl
    · intro hp
      exact hinv₂.lease_eq hmem hlive hp
  · exact fun other hother => hinv₂.routed other (List.mem_of_mem_erase hother)
  · exact hinv₂.once.sublist (List.erase_sublist.map Lease.p)

/-- `Free` of what came from `malloc`. -/
theorem Inv.free_malloc (hinv : s.Inv chunks) {lease : Lease} (hlive : lease ∈ s.live)
    (hsource : lease.source = .malloc) :
    s.Uniform chunks fun heap₂ heap' =>
      s.pools.free heap₂ lease.p lease.size = some (lease.source, s.pools, heap') ∧
      Inv ⟨s.pools, heap', s.live.erase lease⟩ chunks := by
  have hrouted := hinv.routed lease hlive
  rw [Lease.Routed, hsource] at hrouted
  refine ⟨Function.update s.heap.sizes lease.p none, ?_⟩
  intro heap₂ hinv₂ hsizes
  obtain ⟨p, size, source⟩ := lease
  simp only at hsource hrouted
  subst hsource
  have hplain := hinv₂.plain p size hlive
  have herase : ∀ other, other ∈ s.live.erase ⟨p, size, .malloc⟩ ↔
      other ≠ ⟨p, size, .malloc⟩ ∧ other ∈ s.live := fun other =>
    (hinv₂.once.of_map _).mem_erase_iff
  refine ⟨heap₂.delete p, ?_, free_of_large hrouted hplain, hinv₂.count, hinv₂.apart.delete p, ?_,
    hinv₂.separate, ?_, ?_, ?_, ?_⟩
  · rw [delete_sizes, hsizes]
  · intro index pool hpool
    obtain ⟨hstores, hunitSize⟩ := hinv₂.stores index pool hpool
    refine ⟨hstores.of_kept ?_ (hinv₂.apart.delete p), hunitSize⟩
    intro base hbase
    obtain ⟨header, hfound⟩ := hinv₂.allocated (hinv₂.lt_of_pool hpool) hbase
    apply Kept.of_bytes_eq (delete_allocs_of_ne _) rfl
    rintro rfl
    rw [hplain] at hfound
    cases hfound
  · intro q index
    rw [← hinv₂.pooled]
    apply exists_congr
    intro size'
    rw [herase, and_iff_right]
    intro hsame
    cases hsame
  · intro q size' hmem
    obtain ⟨hne, hold⟩ := (herase _).mp hmem
    rw [delete_allocs_of_ne]
    · exact hinv₂.plain q size' hold
    · intro hp
      exact hne (hinv₂.lease_eq hold hlive hp)
  · exact fun other hother => hinv₂.routed other (List.mem_of_mem_erase hother)
  · exact hinv₂.once.sublist (List.erase_sublist.map Lease.p)

/-- Writing into an own region is not noticed. -/
theorem Inv.write (hinv : s.Inv chunks) {lease : Lease} (hlive : lease ∈ s.live) {offset : Nat}
    {cells : List Byte} (hinside : offset + cells.length ≤ lease.size.toNat) :
    Inv ⟨s.pools, s.heap.write (lease.p + offset) cells, s.live⟩ chunks := by
  obtain ⟨base, alloc, hlocated⟩ := hinv.located hlive
  have hlower := hlocated.lower
  have hupper := hlocated.upper
  refine ⟨hinv.count, hinv.apart, ?_, hinv.separate, hinv.pooled,
    hinv.plain, hinv.routed, hinv.once⟩
  intro index pool hpool
  obtain ⟨hstores, hunitSize⟩ := hinv.stores index pool hpool
  refine ⟨?_, hunitSize⟩
  by_cases hsource : lease.source = .pool index
  · obtain ⟨_, _, _, hsize⟩ := routed_pool (hinv.routed lease hlive) hsource
    obtain ⟨_, ⟨chunk, hmem, rfl, unit, hunit, hp⟩, _⟩ := hlocated.used index hsource
    rw [← hunitSize] at hp
    apply hstores.write hmem hunit
    · rw [hp]
      exact Nat.le_add_right _ _
    · rw [hp, payload]
      omega
  · have hapart : (s.heap.write (lease.p + offset) cells).Apart := hinv.apart
    refine hstores.of_kept ?_ hapart
    intro other hother
    apply Kept.of_write hinv.apart hlocated.found _ (by omega) (by omega)
    rintro rfl
    exact hsource (hinv.source_of_base hlocated (hinv.lt_of_pool hpool) hother)

/-- `Alloc` returns, if there is memory for it. -/
theorem Inv.alloc (hinv : s.Inv chunks) {size : Int} {fresh : Nat}
    (hroom : s.Room size fresh (sourceOf size)) :
    ∃ p pools chunks', s.BasesNew chunks chunks' ∧ s.Uniform chunks fun heap₂ heap' =>
      s.pools.alloc heap₂ size fresh = some (p, sourceOf size, pools, heap') ∧
      Inv ⟨pools, heap', ⟨p, size, sourceOf size⟩ :: s.live⟩ chunks' := by
  by_cases hlarge : size > unitSize (poolNum - 1)
  · rw [sourceOf, if_pos hlarge] at hroom ⊢
    exact ⟨fresh, s.pools, chunks, .refl s chunks, uniform_alloc_malloc hlarge hroom⟩
  · obtain ⟨index, hclass, _⟩ := classOf_spec (Int.not_lt.mp hlarge)
    rw [sourceOf, if_neg hlarge, hclass] at hroom ⊢
    exact hinv.alloc_pool (Int.not_lt.mp hlarge) hclass hroom

/-- `Free` of a lease goes to where it came from. -/
theorem Inv.free (hinv : s.Inv chunks) {lease : Lease} (hlive : lease ∈ s.live) :
    ∃ pools chunks', s.BasesNew chunks chunks' ∧ s.Uniform chunks fun heap₂ heap' =>
      s.pools.free heap₂ lease.p lease.size = some (lease.source, pools, heap') ∧
      Inv ⟨pools, heap', s.live.erase lease⟩ chunks' := by
  cases hsource : lease.source with
  | malloc => exact ⟨s.pools, chunks, .refl s chunks, hsource ▸ hinv.free_malloc hlive hsource⟩
  | pool index => exact hsource ▸ hinv.free_pool hlive hsource

/-! ## Two runs that differ in the contents of leases -/

/-- States between which only contents differ. -/
structure Twin (s t : VarState) : Prop where
  pools : t.pools = s.pools
  live : t.live = s.live
  sizes : t.heap.sizes = s.heap.sizes
  inv : ∃ chunks, s.Inv chunks ∧ t.Inv chunks

/-- Both states have room, or neither. -/
theorem Twin.room {t : VarState} (htwin : s.Twin t) {size : Int} {fresh : Nat} {source : Source}
    (hroom : s.Room size fresh source) : t.Room size fresh source := by
  obtain ⟨chunks, hinv, hinv'⟩ := htwin.inv
  cases source with
  | malloc => exact Fresh.of_sizes hroom htwin.sizes
  | pool index =>
      intro pool hpool
      have hpool' : s.pools.poolArr[index]? = some pool := htwin.pools ▸ hpool
      exact (hroom pool hpool').of_stores (hinv.stores index pool hpool').1
        (hinv'.stores index pool hpool).1 htwin.sizes

/-- The one answers whatever the other does. -/
theorem Twin.step {t : VarState} {op : VarOp} (htwin : s.Twin t) (hstep : s.Step op next) :
    ∃ next', t.Step op next' ∧ next.Twin next' := by
  obtain ⟨chunks, hinv, hinv'⟩ := htwin.inv
  obtain ⟨pools₂, heap₂, live₂⟩ := t
  obtain ⟨hpools, hlive', hsizes, _⟩ := id htwin
  simp only at hpools hlive' hsizes
  subst hpools hlive'
  cases hstep with
  | alloc halloc hroom =>
      obtain rfl := source_of_alloc halloc
      obtain ⟨p', pools', chunks', _, sizes', hrun⟩ := hinv.alloc hroom
      obtain ⟨heap, hone, hrun₁, hnext⟩ := hrun s.heap hinv rfl
      obtain ⟨heap', htwo, hrun₂, hnext'⟩ := hrun heap₂ hinv' hsizes
      rw [halloc, Option.some.injEq, Prod.mk.injEq, Prod.mk.injEq, Prod.mk.injEq] at hrun₁
      obtain ⟨rfl, _, rfl, rfl⟩ := hrun₁
      exact ⟨_, .alloc hrun₂ (htwin.room hroom), rfl, rfl, htwo.trans hone.symm,
        chunks', hnext, hnext'⟩
  | free hmem hfree =>
      obtain ⟨pools', chunks', _, sizes', hrun⟩ := hinv.free hmem
      obtain ⟨heap, hone, hrun₁, hnext⟩ := hrun s.heap hinv rfl
      obtain ⟨heap', htwo, hrun₂, hnext'⟩ := hrun heap₂ hinv' hsizes
      rw [hfree, Option.some.injEq, Prod.mk.injEq, Prod.mk.injEq] at hrun₁
      obtain ⟨rfl, rfl, rfl⟩ := hrun₁
      exact ⟨_, .free hmem hrun₂, rfl, rfl, htwo.trans hone.symm, chunks', hnext, hnext'⟩
  | write hmem hinside =>
      exact ⟨_, .write hmem hinside, rfl, rfl, hsizes, chunks, hinv.write hmem hinside,
        hinv'.write hmem hinside⟩

/-- Writing into a lease leads to a twin. -/
theorem Inv.twin_write (hinv : s.Inv chunks) {lease : Lease} (hlive : lease ∈ s.live) {offset : Nat}
    {cells : List Byte} (hinside : offset + cells.length ≤ lease.size.toNat) :
    s.Twin { s with heap := s.heap.write (lease.p + offset) cells } :=
  ⟨rfl, rfl, rfl, chunks, hinv, hinv.write hlive hinside⟩

/-! ## All runs -/

/-- The state is that of pools of some chunks. -/
def Explained (s : VarState) : Prop := ∃ chunks, s.Inv chunks

theorem Inv.step {op : VarOp} (hinv : s.Inv chunks) (hstep : s.Step op next) :
    ∃ chunks', s.BasesNew chunks chunks' ∧ next.Inv chunks' := by
  cases hstep with
  | alloc halloc hroom =>
      obtain rfl := source_of_alloc halloc
      obtain ⟨_, _, chunks', hbases, _, hrun⟩ := hinv.alloc hroom
      obtain ⟨_, _, hsame, hnext⟩ := hrun s.heap hinv rfl
      rw [halloc, Option.some.injEq, Prod.mk.injEq, Prod.mk.injEq, Prod.mk.injEq] at hsame
      obtain ⟨rfl, _, rfl, rfl⟩ := hsame
      exact ⟨chunks', hbases, hnext⟩
  | free hmem hfree =>
      obtain ⟨_, chunks', hbases, _, hrun⟩ := hinv.free hmem
      obtain ⟨_, _, hsame, hnext⟩ := hrun s.heap hinv rfl
      rw [hfree, Option.some.injEq, Prod.mk.injEq, Prod.mk.injEq] at hsame
      obtain ⟨_, rfl, rfl⟩ := hsame
      exact ⟨chunks', hbases, hnext⟩
  | write hmem hinside => exact ⟨chunks, .refl s chunks, hinv.write hmem hinside⟩

theorem Explained.step {op : VarOp} (hexplained : s.Explained) (hstep : s.Step op next) :
    next.Explained := by
  obtain ⟨chunks, hinv⟩ := hexplained
  obtain ⟨chunks', _, hnext⟩ := hinv.step hstep
  exact ⟨chunks', hnext⟩

/-- New pools have their first blocks, where nothing was before. -/
theorem Constructed.exists_inv (hmade : s.Constructed) :
    ∃ chunks heap, s.Inv chunks ∧ FirstBlocks poolConfig s.pools.poolArr chunks ∧
      Constructs poolConfig heap s.pools.poolArr s.heap ∧
      ∀ index < poolNum, ∀ base ∈ bases (chunks index), heap.allocs base = Option.none := by
  obtain ⟨hnone, heap, hapart, hconstructs⟩ := hmade
  obtain ⟨chunks, hpools, hfirst⟩ := hconstructs.constructed hapart poolConfig_fits
  have hcount : s.pools.poolArr.length = poolNum := hpools.count
  refine ⟨chunks, heap, ⟨hcount, hpools.apart, ?_, ?_, ?_, ?_, ?_, ?_⟩, hfirst, hconstructs,
    hcount ▸ hpools.unallocated⟩
  · intro index pool hpool
    have hlt : index < poolConfig.length := by
      rw [← hpools.count]
      exact (List.getElem?_eq_some_iff.mp hpool).1
    have hconfig := List.getElem?_eq_getElem hlt
    obtain ⟨hstores, hunitSize⟩ := hpools.stores index pool _ hpool hconfig
    refine ⟨hstores, hunitSize.trans (Eq.trans ?_ (unitSize_add_two hlt))⟩
    rw [unitSize, List.getD_eq_getElem?_getD, hconfig, Option.getD_some]
  · rw [← hcount]
    exact hpools.separate
  · intro p index
    rw [hnone]
    constructor
    · rintro ⟨_, hmem⟩
      cases hmem
    · rintro ⟨hlt, base, hused⟩
      exact absurd hused (hpools.notUsed index (hcount.symm ▸ hlt) _ p base)
  · intro p size hmem
    rw [hnone] at hmem
    cases hmem
  · intro lease hmem
    rw [hnone] at hmem
    cases hmem
  · rw [hnone]
    exact List.nodup_nil

theorem Constructed.explained (hmade : s.Constructed) : s.Explained := by
  obtain ⟨chunks, _, hinv, _⟩ := hmade.exists_inv
  exact ⟨chunks, hinv⟩

/-- No pool needs another block while nothing is live. -/
theorem Inv.canGrow_of_none (hinv : s.Inv chunks) (hnone : s.live = []) {index fresh : Nat}
    {pool : MemoryPool} (hpool : s.pools.poolArr[index]? = some pool) :
    pool.CanGrow s.heap fresh := by
  intro hfull
  obtain ⟨hstores, _⟩ := hinv.stores index pool hpool
  obtain ⟨chunk, rest, hchunks⟩ := hstores.exists_head
  rw [hchunks] at hstores
  have hmem : chunk ∈ chunks index := hchunks ▸ List.mem_cons_self
  have hlive : chunk.Live 0 := by
    refine ⟨(hstores.valid chunk List.mem_cons_self).numPos, ?_⟩
    rw [hstores.free_eq_nil_of_full hfull]
    exact List.not_mem_nil
  have hused : Used (unitSize index + 2) (chunks index)
      (payload (unitSize index + 2) chunk.base 0) chunk.base := ⟨chunk, hmem, rfl, 0, hlive, rfl⟩
  obtain ⟨_, hlease⟩ := (hinv.pooled _ index).mpr ⟨hinv.lt_of_pool hpool, _, hused⟩
  rw [hnone] at hlease
  cases hlease

theorem explained_of_reachable (hreach : varMachine.Reachable s) : s.Explained := by
  have hinitial : ∀ state, varMachine.initial state → state.Explained :=
    fun _ hmade => Constructed.explained hmade
  have hstep : ∀ state op next, state.Explained → varMachine.step state op next →
      next.Explained := fun _ _ _ hexplained hstep => hexplained.step hstep
  exact hreach.invariant hinitial hstep

/-- With memory for it, `Alloc` returns, and its result is safe. -/
theorem Explained.exists_alloc (hexplained : s.Explained) {size : Int} {fresh : Nat}
    (hroom : s.Room size fresh (sourceOf size)) : ∃ p pools heap,
      s.pools.alloc s.heap size fresh = some (p, sourceOf size, pools, heap) ∧
      Safe ⟨pools, heap, ⟨p, size, sourceOf size⟩ :: s.live⟩ := by
  obtain ⟨chunks, hinv⟩ := hexplained
  obtain ⟨p, pools, _, _, _, hrun⟩ := hinv.alloc hroom
  obtain ⟨heap, _, halloc, hnext⟩ := hrun s.heap hinv rfl
  exact ⟨p, pools, heap, halloc, hnext.safe⟩

/-- What is live is taken back where it came from. -/
theorem Explained.exists_free (hexplained : s.Explained) {lease : Lease} (hlive : lease ∈ s.live) :
    ∃ pools heap, s.pools.free s.heap lease.p lease.size = some (lease.source, pools, heap) := by
  obtain ⟨chunks, hinv⟩ := hexplained
  obtain ⟨pools, _, _, _, hrun⟩ := hinv.free hlive
  obtain ⟨heap, _, hfree, _⟩ := hrun s.heap hinv rfl
  exact ⟨pools, heap, hfree⟩

end VarState

/-- Whatever has happened: live regions have the bytes asked for and do not
overlap; `Alloc` returns when there is memory, and its result is safe as well;
`Free` goes to the pool, or the heap, that a pointer came from; and a write
into a live region changes neither the contents of another nor what any later
call answers. -/
theorem sized_pools_safe {s : VarState} (hreach : varMachine.Reachable s) :
    s.Safe ∧
    (∀ size fresh, s.Room size fresh (sourceOf size) → ∃ p pools heap,
      s.pools.alloc s.heap size fresh = some (p, sourceOf size, pools, heap) ∧
      VarState.Safe ⟨pools, heap, ⟨p, size, sourceOf size⟩ :: s.live⟩) ∧
    (∀ lease ∈ s.live, ∃ pools heap,
      s.pools.free s.heap lease.p lease.size = some (lease.source, pools, heap)) ∧
    ∀ lease ∈ s.live, ∀ offset cells, offset + cells.length ≤ lease.size.toNat →
      (∀ other ∈ s.live, other ≠ lease →
        (s.heap.write (lease.p + offset) cells).bytes.read other.p other.size.toNat =
          s.heap.bytes.read other.p other.size.toNat) ∧
      ∀ ops next, Machine.Runs VarState.Step s ops next →
        ∃ next', Machine.Runs VarState.Step
          { s with heap := s.heap.write (lease.p + offset) cells } ops next' ∧
          next'.live = next.live := by
  obtain ⟨chunks, hinv⟩ := VarState.explained_of_reachable hreach
  have hexplained : s.Explained := ⟨chunks, hinv⟩
  refine ⟨hinv.safe, fun _ _ => hexplained.exists_alloc, fun _ => hexplained.exists_free, ?_⟩
  intro lease hlive offset cells hinside
  constructor
  · intro other hother hne
    have hp : other.p ≠ lease.p := fun hsame => hne (hinv.lease_eq hother hlive hsame)
    rcases hinv.leases_apart hother hlive hp with hbefore | hafter
    · exact Memory.read_write_before _ _ (by omega)
    · exact Memory.read_write_after _ _ (by omega)
  · intro ops next hruns
    have hstep : ∀ (state other : VarState) (op : VarOp) (next : VarState), state.Twin other →
        VarState.Step state op next → ∃ next', VarState.Step other op next' ∧ next.Twin next' :=
      fun _ _ _ _ htwin hstep => htwin.step hstep
    obtain ⟨next', hruns', htwin⟩ :=
      Machine.Runs.simulate hstep (hinv.twin_write hlive hinside) hruns
    exact ⟨next', hruns', htwin.live⟩

/-- The constructor returns in an empty memory. -/
theorem VarState.exists_constructed :
    ∃ s : VarState, s.Constructed ∧ Below s.heap (4096 + total poolConfig) := by
  have hbelow : Below ⟨fun _ => none, fun _ => 0⟩ 4096 := by
    intro base size hnone
    cases hnone
  have hsizes : ∀ config ∈ poolConfig, 4 ≤ (config.unitSize + 2) % 65536 ∧ 1 ≤ config.unitNum := by
    decide
  obtain ⟨pools, heap, hconstructs, hbound⟩ :=
    exists_constructs hbelow (by decide) poolConfig_fits hsizes (by decide)
  refine ⟨⟨⟨pools⟩, heap, []⟩, ⟨rfl, _, ?_, hconstructs⟩, hbound⟩
  intro _ _ _ _ hnone
  cases hnone

/-- New pools hand out twenty bytes. -/
theorem sized_pools_safe_new : ∃ s p pools heap, varMachine.Reachable s ∧
    s.pools.alloc s.heap 20 8192 = some (p, .pool 1, pools, heap) ∧
    VarState.Safe ⟨pools, heap, [⟨p, 20, .pool 1⟩]⟩ := by
  obtain ⟨s, hmade, _⟩ := VarState.exists_constructed
  obtain ⟨chunks, hinv⟩ := hmade.explained
  have hroom : s.Room 20 8192 (sourceOf 20) :=
    fun pool hpool => hinv.canGrow_of_none hmade.none hpool
  have hreach : varMachine.Reachable s := .start hmade
  obtain ⟨p, pools', heap', halloc, hsafe⟩ := (sized_pools_safe hreach).2.1 20 8192 hroom
  rw [hmade.none] at hsafe
  exact ⟨_, p, pools', heap', hreach, halloc, hsafe⟩

end SelectNet
