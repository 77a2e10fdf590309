import Mathlib.Algebra.GroupWithZero.Nat
import SelectNet.CommonLib.PoolChunks

/-!
# Units that are handed out

Which addresses a pool has handed out, how its operations change them, and
where their payloads lie: inside one block each, apart from one another and
from the numbers in front of all units.
-/

namespace SelectNet

/-- `p` is the payload of a unit that the block at `base` has handed out. -/
def Used (unitSize : Nat) (chunks : List Chunk) (p base : Nat) : Prop :=
  ∃ chunk ∈ chunks, chunk.base = base ∧ ∃ unit, chunk.Live unit ∧ p = payload unitSize base unit

variable {unitSize p q base unit fresh num : Nat} {chunks front back rest : List Chunk}
  {chunk : Chunk}

theorem used_cons_iff : Used unitSize (chunk :: rest) p base ↔
    (chunk.base = base ∧ ∃ unit, chunk.Live unit ∧ p = payload unitSize base unit) ∨
      Used unitSize rest p base := by
  simp only [Used, List.mem_cons, exists_eq_or_imp]

theorem used_append_iff : Used unitSize (front ++ back) p base ↔
    Used unitSize front p base ∨ Used unitSize back p base := by
  simp only [Used, List.mem_append, or_and_right, exists_or]

/-- The order of the blocks does not matter. -/
theorem used_middle_iff : Used unitSize (front ++ chunk :: back) p base ↔
    Used unitSize (chunk :: (front ++ back)) p base := by
  rw [used_append_iff, used_cons_iff, used_cons_iff, used_append_iff]
  exact or_left_comm

theorem used_pop_iff (hvalid : chunk.Valid unitSize) {more : List Nat}
    (hfree : chunk.free = unit :: more) : Used unitSize (chunk.pop :: rest) p base ↔
    (p = payload unitSize chunk.base unit ∧ base = chunk.base) ∨
      Used unitSize (chunk :: rest) p base := by
  rw [used_cons_iff, used_cons_iff, ← or_assoc]
  apply or_congr_left
  constructor
  · rintro ⟨rfl, other, hlive, rfl⟩
    rcases (Chunk.live_pop_iff hvalid hfree).mp hlive with rfl | hlive
    · exact .inl ⟨rfl, rfl⟩
    · exact .inr ⟨rfl, other, hlive, rfl⟩
  · rintro (⟨rfl, rfl⟩ | ⟨rfl, other, hlive, rfl⟩)
    · exact ⟨rfl, unit, (Chunk.live_pop_iff hvalid hfree).mpr (.inl rfl), rfl⟩
    · exact ⟨rfl, other, (Chunk.live_pop_iff hvalid hfree).mpr (.inr hlive), rfl⟩

theorem used_grown_iff : Used unitSize (grown fresh num :: rest) p base ↔
    Used unitSize rest p base := by
  rw [used_cons_iff, or_iff_right]
  rintro ⟨_, unit, hlive, _⟩
  exact hlive.2 (List.mem_range.mpr hlive.1)

theorem not_used_reset : ¬ Used unitSize (chunks.map Chunk.reset) p base := by
  rintro ⟨chunk, hmem, _, unit, hlive, _⟩
  obtain ⟨chunk, _, rfl⟩ := List.mem_map.mp hmem
  exact Chunk.not_live_reset hlive

/-- Dropping a block that is not used, or moving one, changes nothing. -/
theorem used_settled_iff (hvalid : chunk.Valid unitSize) (initHead : Option Nat) :
    Used unitSize (settled initHead front chunk back) p base ↔
      Used unitSize (front ++ chunk :: back) p base := by
  rw [used_middle_iff]
  by_cases hdrop : chunk.free.length = chunk.num ∧ some chunk.base ≠ initHead
  · have hsettled : settled initHead front chunk back = front ++ back := if_pos hdrop
    rw [hsettled, used_cons_iff, or_iff_right]
    rintro ⟨_, unit, hlive, _⟩
    exact hvalid.not_live_of_full hdrop.1 hlive
  · cases front with
    | nil =>
        have hsettled : settled initHead [] chunk back = chunk :: back := if_neg hdrop
        rw [hsettled, List.nil_append]
    | cons head rest =>
        by_cases hempty : head.free = []
        · have hsettled : settled initHead (head :: rest) chunk back =
              chunk :: (head :: rest ++ back) := (if_neg hdrop).trans (if_pos hempty)
          rw [hsettled]
        · have hsettled : settled initHead (head :: rest) chunk back =
              head :: rest ++ chunk :: back := (if_neg hdrop).trans (if_neg hempty)
          rw [hsettled, used_middle_iff]

namespace MemoryPool.Stores

variable {pool : MemoryPool} {heap : Heap} {other : Chunk} {unit' : Nat}

/-- Two different units of a pool do not overlap. -/
theorem units_apart (hstores : pool.Stores heap chunks) (hmem : chunk ∈ chunks)
    (hother : other ∈ chunks) (hunit : unit < chunk.num) (hunit' : unit' < other.num)
    (hne : ¬ (chunk = other ∧ unit = unit')) :
    unitAddr pool.nUnitSize chunk.base unit + pool.nUnitSize ≤
        unitAddr pool.nUnitSize other.base unit' ∨
      unitAddr pool.nUnitSize other.base unit' + pool.nUnitSize ≤
        unitAddr pool.nUnitSize chunk.base unit := by
  by_cases hsame : chunk = other
  · subst hsame
    exact unitAddr_apart _ _ fun hunits => hne ⟨rfl, hunits⟩
  · have hbase : other.base ≠ chunk.base := fun hbase =>
      hsame (List.inj_on_of_nodup_map hstores.nodup hmem hother hbase.symm)
    obtain ⟨header, hfound, hsize⟩ := hstores.allocated hother
    have hapart := hstores.apart_of_ne hmem hbase _ hfound
    have hend := unitAddr_le pool.nUnitSize chunk.base hunit
    have hend' := unitAddr_le pool.nUnitSize other.base hunit'
    have hlower : chunk.base ≤ unitAddr pool.nUnitSize chunk.base unit :=
      (Nat.le_add_right _ _).trans (Nat.le_add_right _ _)
    have hlower' : other.base ≤ unitAddr pool.nUnitSize other.base unit' :=
      (Nat.le_add_right _ _).trans (Nat.le_add_right _ _)
    rw [hsize] at hapart
    simp only [sizeofMemoryBlock, aDataOffset] at hapart hend hend'
    omega

/-- An address is the payload of one unit of one block. -/
theorem payload_inj (hstores : pool.Stores heap chunks) (hmem : chunk ∈ chunks)
    (hother : other ∈ chunks) (hunit : unit < chunk.num) (hunit' : unit' < other.num)
    (hsame : payload pool.nUnitSize chunk.base unit = payload pool.nUnitSize other.base unit') :
    chunk = other ∧ unit = unit' := by
  by_contra hne
  have hapart := hstores.units_apart hmem hother hunit hunit' hne
  have hsize := hstores.sized.unitSize
  rw [payload, payload] at hsame
  omega

theorem used_push_iff (hstores : pool.Stores heap (front ++ chunk :: back))
    (hlive : chunk.Live unit) :
    Used pool.nUnitSize (front ++ chunk.push unit :: back) p base ↔
      Used pool.nUnitSize (front ++ chunk :: back) p base ∧
        p ≠ payload pool.nUnitSize chunk.base unit := by
  have hmem : chunk ∈ front ++ chunk :: back := List.mem_append_right _ List.mem_cons_self
  have hrest : ∀ p base, Used pool.nUnitSize (front ++ back) p base →
      p ≠ payload pool.nUnitSize chunk.base unit := by
    rintro p base ⟨other, hother, rfl, unit', hlive', rfl⟩ hsame
    obtain ⟨rfl, _⟩ :=
      hstores.payload_inj (mem_middle hother chunk) hmem hlive'.1 hlive.1 hsame
    exact hstores.base_ne hother rfl
  rw [used_middle_iff, used_middle_iff, used_cons_iff, used_cons_iff]
  constructor
  · rintro (⟨rfl, other, hlive', rfl⟩ | hused)
    · obtain ⟨hold, hne⟩ := Chunk.live_push_iff.mp hlive'
      refine ⟨.inl ⟨rfl, other, hold, rfl⟩, fun hsame => hne ?_⟩
      exact (hstores.payload_inj hmem hmem hold.1 hlive.1 hsame).2
    · exact ⟨.inr hused, hrest p base hused⟩
  · rintro ⟨⟨rfl, other, hlive', rfl⟩ | hused, hne⟩
    · refine .inl ⟨rfl, other, Chunk.live_push_iff.mpr ⟨hlive', ?_⟩, rfl⟩
      rintro rfl
      exact hne rfl
    · exact .inr hused

/-- A pointer is handed out by one block. -/
theorem used_unique (hstores : pool.Stores heap chunks) {base' : Nat}
    (hused : Used pool.nUnitSize chunks p base) (hused' : Used pool.nUnitSize chunks p base') :
    base = base' := by
  obtain ⟨chunk, hmem, rfl, unit, hlive, rfl⟩ := hused
  obtain ⟨other, hother, rfl, unit', hlive', hsame⟩ := hused'
  rw [(hstores.payload_inj hmem hother hlive.1 hlive'.1 hsame).1]

/-- Payloads of different units do not overlap. -/
theorem payloads_apart (hstores : pool.Stores heap chunks) {base' : Nat}
    (hused : Used pool.nUnitSize chunks p base) (hused' : Used pool.nUnitSize chunks q base')
    (hne : p ≠ q) :
    p + (pool.nUnitSize - 2) ≤ q ∨ q + (pool.nUnitSize - 2) ≤ p := by
  obtain ⟨chunk, hmem, rfl, unit, hlive, rfl⟩ := hused
  obtain ⟨other, hother, rfl, unit', hlive', rfl⟩ := hused'
  have hapart := hstores.units_apart hmem hother hlive.1 hlive'.1 (by
    rintro ⟨rfl, rfl⟩
    exact hne rfl)
  rw [payload, payload]
  omega

/-- A payload overlaps the number in front of no unit, its own included. -/
theorem payload_apart_index (hstores : pool.Stores heap chunks)
    (hused : Used pool.nUnitSize chunks p base) (hother : other ∈ chunks)
    (hunit' : unit' < other.num) :
    p + (pool.nUnitSize - 2) ≤ unitAddr pool.nUnitSize other.base unit' ∨
      unitAddr pool.nUnitSize other.base unit' + 2 ≤ p := by
  obtain ⟨chunk, hmem, rfl, unit, hlive, rfl⟩ := hused
  rw [payload]
  by_cases hsame : chunk = other ∧ unit = unit'
  · obtain ⟨rfl, rfl⟩ := hsame
    exact .inr (Nat.le_refl _)
  · have hapart := hstores.units_apart hmem hother hlive.1 hunit' hsame
    have hsize := hstores.sized.unitSize
    omega

/-- A payload lies in the data of the block that handed it out. -/
theorem payload_inside (hstores : pool.Stores heap chunks)
    (hused : Used pool.nUnitSize chunks p base) : ∃ header, heap.block base = some header ∧
      base + aDataOffset ≤ p ∧
      p + (pool.nUnitSize - 2) ≤ base + aDataOffset + header.nUnitSize * header.nUnitNum := by
  obtain ⟨chunk, hmem, rfl, unit, hlive, rfl⟩ := hused
  obtain ⟨header, hfound, hdescribes, _⟩ := (hstores.holds chunk hmem).found
  have hend := unitAddr_le pool.nUnitSize chunk.base hlive.1
  have hsize := hstores.sized.unitSize
  have hlower : chunk.base + aDataOffset ≤ unitAddr pool.nUnitSize chunk.base unit :=
    Nat.le_add_right _ _
  refine ⟨header, hfound, ?_, ?_⟩
  · rw [payload]
    omega
  · rw [payload, hdescribes.unitSize, hdescribes.unitNum]
    omega

/-- A payload is at an address. -/
theorem payload_bounds (hstores : pool.Stores heap chunks)
    (hused : Used pool.nUnitSize chunks p base) : 0 < p ∧ p < 2 ^ 64 := by
  obtain ⟨chunk, hmem, rfl, unit, hlive, rfl⟩ := hused
  have hend := unitAddr_le pool.nUnitSize chunk.base hlive.1
  have hbound := (hstores.valid chunk hmem).bound
  have hsize := hstores.sized.unitSize
  simp only [sizeofMemoryBlock, aDataOffset] at hend hbound
  rw [payload]
  omega

/-- `Free` finds the block a pointer was handed out by. -/
theorem findBlock_of_used (hstores : pool.Stores heap chunks)
    (hused : Used pool.nUnitSize chunks p base) : pool.findBlock heap p = some base := by
  obtain ⟨chunk, hmem, rfl, unit, hlive, rfl⟩ := hused
  exact findBlock_spec hstores hmem hlive.1

/-- There is always a head. -/
theorem exists_head (hstores : pool.Stores heap chunks) :
    ∃ chunk rest, chunks = chunk :: rest := by
  obtain ⟨base, hbase, _⟩ := hstores.init
  cases chunks with
  | nil => cases hbase
  | cons chunk rest => exact ⟨chunk, rest, rfl⟩

end MemoryPool.Stores

/-! ## The operations and what is handed out -/

namespace MemoryPool

open Heap

variable {pool : MemoryPool} {heap heap' : Heap}

/-- The head has no free unit, so that `Alloc` needs another block. -/
def Full (pool : MemoryPool) (heap : Heap) : Prop :=
  ∃ head header, pool.pBlock = some head ∧ heap.block head = some header ∧ header.nFree = 0

/-- `operator new` can give memory for another block at this address. -/
def CanGrow (pool : MemoryPool) (heap : Heap) (fresh : Nat) : Prop :=
  pool.Full heap → heap.Fresh fresh (sizeofMemoryBlock + pool.nUnitSize * pool.nGrowUnitNum)

theorem Stores.full (hstores : pool.Stores heap (chunk :: rest)) (hempty : chunk.free = []) :
    pool.Full heap := by
  obtain ⟨header, hfound, hdescribes, _⟩ := (hstores.holds chunk List.mem_cons_self).found
  refine ⟨chunk.base, header, hstores.head, hfound, ?_⟩
  rw [hdescribes.nFree, hempty]
  rfl

theorem Stores.free_eq_nil_of_full (hstores : pool.Stores heap (chunk :: rest))
    (hfull : pool.Full heap) : chunk.free = [] := by
  obtain ⟨head, header, hhead, hfound, hcount⟩ := hfull
  obtain ⟨header', hfound', hdescribes, _⟩ := (hstores.holds chunk List.mem_cons_self).found
  obtain rfl := Option.some.inj (hhead.symm.trans hstores.head)
  obtain rfl := Option.some.inj (hfound.symm.trans hfound')
  rw [← List.length_eq_zero_iff, ← hdescribes.nFree, hcount]

/-- Whether a block is needed, and whether there is memory for one, does not
depend on what the units contain. -/
theorem CanGrow.of_stores {heap₂ : Heap} (hgrow : pool.CanGrow heap fresh)
    (hstores : pool.Stores heap chunks) (hstores₂ : pool.Stores heap₂ chunks)
    (hsizes : heap₂.sizes = heap.sizes) : pool.CanGrow heap₂ fresh := by
  intro hfull
  obtain ⟨chunk, rest, rfl⟩ := hstores.exists_head
  exact (hgrow (hstores.full (hstores₂.free_eq_nil_of_full hfull))).of_sizes hsizes

/-- All units of the blocks. -/
def units (chunks : List Chunk) : Nat := (chunks.map Chunk.num).sum

/-- What `Alloc` has returned, and the pool after it, given where it comes from. -/
structure Handed (pool : MemoryPool) (sizes : Nat → Option Nat) (chunks : List Chunk)
    (p block : Nat) (chunks' : List Chunk) : Prop where
  notUsed : ∀ other, ¬ Used pool.nUnitSize chunks p other
  used : ∀ q base, Used pool.nUnitSize chunks' q base ↔
    (q = p ∧ base = block) ∨ Used pool.nUnitSize chunks q base
  bases : ∀ base ∈ bases chunks', base ∈ SelectNet.bases chunks ∨ sizes base = none

/-- `Alloc` has made no block, or one at `fresh`. -/
def Grown (pool : MemoryPool) (fresh : Nat) (sizes : Nat → Option Nat) (chunks : List Chunk)
    (sizes' : Nat → Option Nat) (chunks' : List Chunk) : Prop :=
  (sizes' = sizes ∧ units chunks' = units chunks) ∨
    (sizes' = Function.update sizes fresh
        (some (sizeofMemoryBlock + pool.nUnitSize * pool.nGrowUnitNum)) ∧
      units chunks' = pool.nGrowUnitNum + units chunks)

/-- `Alloc` returns. What it returns and how the pool looks afterwards follow
from the chunks and from what is allocated, whatever else the memory holds. -/
theorem alloc_spec (hstores : pool.Stores heap chunks) (hgrow : pool.CanGrow heap fresh) :
    ∃ p block chunks' sizes', Handed pool heap.sizes chunks p block chunks' ∧
      Grown pool fresh heap.sizes chunks sizes' chunks' ∧
        ∀ heap₂, pool.Stores heap₂ chunks → heap₂.sizes = heap.sizes →
        ∃ heap', pool.alloc heap₂ fresh = some (p, { pool with pBlock := some block }, heap') ∧
          ({ pool with pBlock := some block } : MemoryPool).Stores heap' chunks' ∧
          heap'.sizes = sizes' ∧
          ∀ other, other ∉ bases chunks → heap₂.sizes other ≠ none → Kept heap₂ heap' other := by
  obtain ⟨chunk, rest, rfl⟩ := hstores.exists_head
  have hvalid := hstores.valid chunk List.mem_cons_self
  have hhead : pool.pBlock = some chunk.base := hstores.head
  cases hfree : chunk.free with
  | cons unit more =>
      have hunit : unit ∈ chunk.free := hfree ▸ List.mem_cons_self
      refine ⟨payload pool.nUnitSize chunk.base unit, chunk.base, chunk.pop :: rest, heap.sizes,
        ⟨?_, ?_, ?_⟩, .inl ⟨rfl, rfl⟩, ?_⟩
      · -- a unit that is live has another address than the free one
        rintro other ⟨owner, howner, rfl, unit', hlive, hsame⟩
        obtain ⟨rfl, rfl⟩ := hstores.payload_inj List.mem_cons_self howner
          (hvalid.below unit hunit) hlive.1 hsame
        exact hlive.2 hunit
      · intro q base
        exact used_pop_iff hvalid hfree
      · intro base hbase
        exact .inl hbase
      · intro heap₂ hstores₂ hsizes
        obtain ⟨heap', hrun, hstores', hbytes, hsizes', hothers⟩ :=
          alloc_of_free hstores₂ hfree fresh
        rw [← hhead]
        refine ⟨heap', hrun, hstores', hsizes'.trans hsizes, ?_⟩
        intro other hother _
        exact Kept.of_bytes_eq (hothers other fun hsame => hother (hsame ▸ List.mem_cons_self))
          hbytes
  | nil =>
      -- no unit is free, so a new block is made and its first unit handed out
      have hfresh := hgrow (hstores.full hfree)
      have hvalid' := hstores.sized.grown_valid hfresh
      obtain ⟨_, _, hstores', _⟩ := alloc_of_full hstores hfree hfresh
      refine ⟨payload pool.nUnitSize fresh 0, fresh,
        (grown fresh pool.nGrowUnitNum).pop :: chunk :: rest, Function.update heap.sizes fresh
          (some (sizeofMemoryBlock + pool.nUnitSize * pool.nGrowUnitNum)), ⟨?_, ?_, ?_⟩,
        .inr ⟨rfl, rfl⟩, ?_⟩
      · rintro other ⟨owner, howner, rfl, unit', hlive, hsame⟩
        obtain ⟨hgrown, _⟩ := hstores'.payload_inj List.mem_cons_self
          (List.mem_cons_of_mem _ howner) hvalid'.numPos hlive.1 hsame
        have hnodup := hstores'.nodup
        rw [bases_cons, List.nodup_cons] at hnodup
        exact hnodup.1 (hgrown ▸ mem_bases howner)
      · intro q base
        rw [used_pop_iff hvalid' (grown_free hstores.sized.growPos), used_grown_iff]
        rfl
      · intro base hbase
        rcases List.mem_cons.mp hbase with rfl | hold
        · exact .inr (by rw [sizes]; exact Option.map_eq_none_iff.mpr hfresh.unused)
        · exact .inl hold
      · intro heap₂ hstores₂ hsizes
        have hfresh₂ := hfresh.of_sizes hsizes
        obtain ⟨heap', hrun, hstores'', hbytes, hsizes', hothers⟩ :=
          alloc_of_full hstores₂ hfree hfresh₂
        refine ⟨heap', hrun, hstores'', hsizes ▸ hsizes', ?_⟩
        intro other hother hused
        have hne : other ≠ fresh := by
          rintro rfl
          exact hused (Option.map_eq_none_iff.mpr hfresh₂.unused)
        apply Kept.of_outside _ (hfresh₂.apart other) hbytes
        exact hothers other (fun hsame => hother (hsame ▸ List.mem_cons_self)) hne

/-- `Free` of what has been handed out returns, and takes that back. -/
theorem free_of_used (hstores : pool.Stores heap chunks)
    (hused : Used pool.nUnitSize chunks p base) :
    ∃ block chunks' sizes', (∀ q other, Used pool.nUnitSize chunks' q other ↔
        Used pool.nUnitSize chunks q other ∧ q ≠ p) ∧
      (∀ other ∈ bases chunks', other ∈ bases chunks) ∧
      ∀ heap₂, pool.Stores heap₂ chunks → heap₂.sizes = heap.sizes →
        ∃ heap', pool.free heap₂ p = some ({ pool with pBlock := block }, heap') ∧
          ({ pool with pBlock := block } : MemoryPool).Stores heap' chunks' ∧
          heap'.sizes = sizes' ∧ ∀ other, other ∉ bases chunks → Kept heap₂ heap' other := by
  obtain ⟨chunk, hmem, rfl, unit, hunit, rfl⟩ := hused
  obtain ⟨front, back, rfl⟩ := List.append_of_mem hmem
  have hpushed := (hstores.valid chunk hmem).push hunit
  refine ⟨(bases (settled pool.initHead front (chunk.push unit) back)).head?,
    settled pool.initHead front (chunk.push unit) back,
    settledSizes pool.initHead (chunk.push unit) heap.sizes, ?_, ?_, ?_⟩
  · intro q other
    rw [used_settled_iff hpushed, hstores.used_push_iff hunit]
  · intro other hother
    obtain ⟨owner, howner, rfl⟩ := List.mem_map.mp hother
    have hbase := mem_bases (mem_of_mem_settled howner)
    rw [bases_append, bases_cons] at hbase ⊢
    exact hbase
  · intro heap₂ hstores₂ hsizes
    obtain ⟨heap', cells, hrun, hstores', hbytes, hcells, hsizes', hothers⟩ :=
      free_spec hstores₂ hunit
    refine ⟨heap', hrun, hstores', hsizes ▸ hsizes', ?_⟩
    intro other hother
    have hne : other ≠ chunk.base := fun hsame => hother (hsame ▸ mem_bases hmem)
    apply hstores₂.kept_of_write hmem hunit.1 hbytes (Nat.le_refl _) _ hne (hothers other hother)
    have hsize := hstores.sized.unitSize
    rw [hcells, payload]
    omega

end MemoryPool

end SelectNet
