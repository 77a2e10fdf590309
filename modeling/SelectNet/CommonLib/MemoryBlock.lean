import Mathlib.Data.List.Perm.Subperm
import SelectNet.CommonLib.Heap
import SelectNet.Foundation.DoublyLinked

/-!
# Memory blocks

A block is cut into units of `_nUnitSize` bytes. The first two bytes of a unit
are its number; the two behind them are the number of the next free unit while
the unit is free, and belong to the user while it is not.
-/

namespace SelectNet

namespace Heap

/-- One pass of the loop of `reset`. -/
def resetUnit (this : Nat) (heap : Heap) (i : Nat) : Option Heap := do
  let block ← heap.block this
  let offset ← intMul i block.nUnitSize
  let addr := wrap ((this + aDataOffset + offset : Nat) : Int)
  let heap ← heap.storeUShort this addr i
  heap.storeUShort this (addr + 2) (i + 1)

def reset (heap : Heap) (this : Nat) : Option Heap := do
  let block ← heap.block this
  let heap := heap.setBlock this { block with nFree := block.nUnitNum, nFirst := 0 }
  (List.range block.nUnitNum).foldlM (resetUnit this) heap

def popUnit (heap : Heap) (this : Nat) : Option (Nat × Heap) := do
  let block ← heap.block this
  guard (block.nFirst < block.nUnitNum)
  let nFree := (block.nFree + 65535) % 65536
  let offset ← intMul block.nFirst block.nUnitSize
  let retVal := this + aDataOffset + offset + 2
  let nFirst := if nFree ≤ 0 then 65535 else heap.loadUShort retVal
  some (retVal, heap.setBlock this { block with nFree, nFirst })

def pushUnit (heap : Heap) (this addr : Nat) : Option Heap := do
  let block ← heap.block this
  let offset := wrap ((addr : Int) - 2 - (this + aDataOffset : Nat))
  guard (0 < block.nUnitSize)
  let number := Int.bmod (offset / block.nUnitSize : Nat) (2 ^ 32)
  guard (number < block.nUnitNum)
  let heap ← heap.storeUShort this addr block.nFirst
  heap.modify this fun block =>
    { block with nFirst := (number % 65536).toNat, nFree := (block.nFree + 1) % 65536 }

/-- `new(nUnitSize, nUnitNum) MemoryBlock(nUnitSize, nUnitNum)`, with memory at
`this`; `reset` sets the two counters that the constructor leaves open. -/
def newBlock (heap : Heap) (this : Nat) (nUnitSize nUnitNum : Nat) : Option Heap := do
  let nSize ← intMul nUnitNum nUnitSize
  let block : MemoryBlock :=
    { nSize, nFree := 0, nFirst := 0, nUnitSize, nUnitNum, pPre := none, pNext := none,
      this := some this }
  (heap.setBlock this block).reset this

end Heap

/-! ## Units -/

/-- Where a unit starts. -/
def unitAddr (unitSize base unit : Nat) : Nat := base + aDataOffset + unit * unitSize

/-- Where its payload starts: what `Alloc` returns. -/
def payload (unitSize base unit : Nat) : Nat := unitAddr unitSize base unit + 2

/-- The number stored in front of the payload. -/
def unitIndex (bytes : Memory Byte) (unitSize base unit : Nat) : Nat :=
  ushort (bytes.read (unitAddr unitSize base unit) 2)

/-- The number stored at the start of the payload. -/
def unitLink (bytes : Memory Byte) (unitSize base unit : Nat) : Nat :=
  ushort (bytes.read (payload unitSize base unit) 2)

theorem unitAddr_le (unitSize base : Nat) {unit num : Nat} (hunit : unit < num) :
    unitAddr unitSize base unit + unitSize ≤ base + aDataOffset + unitSize * num := by
  have hmul : (unit + 1) * unitSize ≤ num * unitSize := Nat.mul_le_mul_right _ hunit
  rw [Nat.succ_mul, Nat.mul_comm num] at hmul
  rw [unitAddr]
  omega

/-- Different units do not overlap. -/
theorem unitAddr_apart (unitSize base : Nat) {unit other : Nat} (hne : unit ≠ other) :
    unitAddr unitSize base unit + unitSize ≤ unitAddr unitSize base other ∨
      unitAddr unitSize base other + unitSize ≤ unitAddr unitSize base unit := by
  rw [unitAddr, unitAddr]
  rcases Nat.lt_or_gt_of_ne hne with hlt | hlt
  · have hmul : (unit + 1) * unitSize ≤ other * unitSize := Nat.mul_le_mul_right _ hlt
    rw [Nat.succ_mul] at hmul
    omega
  · have hmul : (other + 1) * unitSize ≤ unit * unitSize := Nat.mul_le_mul_right _ hlt
    rw [Nat.succ_mul] at hmul
    omega

/-- A unit is found again from where its payload starts. -/
theorem payload_div {unitSize : Nat} (base unit : Nat) (hpos : 0 < unitSize) :
    (payload unitSize base unit - 2 - (base + aDataOffset)) / unitSize = unit := by
  rw [payload, unitAddr, Nat.add_sub_cancel, Nat.add_sub_cancel_left, Nat.mul_div_cancel _ hpos]

theorem payload_inj {unitSize base unit other : Nat} (hpos : 0 < unitSize)
    (hsame : payload unitSize base unit = payload unitSize base other) : unit = other := by
  rw [← payload_div base unit hpos, hsame, payload_div base other hpos]

section Writes

variable {bytes : Memory Byte} {unitSize base unit other start : Nat} {cells : List Byte}

/-- A write inside one unit is not seen in another. -/
theorem read_write_apart (hne : unit ≠ other) (hlower : unitAddr unitSize base unit ≤ start)
    (hupper : start + cells.length ≤ unitAddr unitSize base unit + unitSize) {offset count : Nat}
    (hinside : offset + count ≤ unitSize) :
    (bytes.write start cells).read (unitAddr unitSize base other + offset) count =
      bytes.read (unitAddr unitSize base other + offset) count := by
  rcases unitAddr_apart unitSize base hne with hbefore | hafter
  · exact Memory.read_write_after _ _ (by omega)
  · exact Memory.read_write_before _ _ (by omega)

/-- A write inside one payload changes no unit number. -/
theorem unitIndex_write (hsize : 4 ≤ unitSize) (hlower : payload unitSize base unit ≤ start)
    (hupper : start + cells.length ≤ unitAddr unitSize base unit + unitSize) :
    unitIndex (bytes.write start cells) unitSize base other =
      unitIndex bytes unitSize base other := by
  rw [unitIndex, unitIndex]
  rw [payload] at hlower
  by_cases hsame : unit = other
  · subst hsame
    rw [Memory.read_write_before _ _ hlower]
  · have hread : (bytes.write start cells).read (unitAddr unitSize base other + 0) 2 =
        bytes.read (unitAddr unitSize base other + 0) 2 :=
      read_write_apart hsame (Nat.le_of_add_right_le hlower) hupper (by omega)
    exact congrArg ushort hread

/-- A write inside one unit changes no link but that unit's own. -/
theorem unitLink_write (hsize : 4 ≤ unitSize) (hne : unit ≠ other)
    (hlower : unitAddr unitSize base unit ≤ start)
    (hupper : start + cells.length ≤ unitAddr unitSize base unit + unitSize) :
    unitLink (bytes.write start cells) unitSize base other =
      unitLink bytes unitSize base other := by
  rw [unitLink, unitLink, payload, read_write_apart hne hlower hupper hsize]

/-- What `reset` writes into one unit. -/
def layUnit (unitSize base : Nat) (bytes : Memory Byte) (unit : Nat) : Memory Byte :=
  (bytes.write (unitAddr unitSize base unit) (ushortBytes unit)).write
    (payload unitSize base unit) (ushortBytes (unit + 1))

/-- Units below `count` have their number in front and lead to the next one. -/
def Laid (bytes : Memory Byte) (unitSize base count : Nat) : Prop :=
  ∀ unit < count, unitIndex bytes unitSize base unit = unit ∧
    unitLink bytes unitSize base unit = unit + 1

theorem layUnit_self (hunit : unit < 65535) :
    unitIndex (layUnit unitSize base bytes unit) unitSize base unit = unit ∧
      unitLink (layUnit unitSize base bytes unit) unitSize base unit = unit + 1 := by
  constructor
  · have hbefore : unitAddr unitSize base unit + 2 ≤ payload unitSize base unit := Nat.le_refl _
    rw [unitIndex, layUnit, Memory.read_write_before _ _ hbefore,
      ← ushortBytes_length unit, Memory.read_write, ushort_ushortBytes (by omega)]
  · rw [unitLink, layUnit, ← ushortBytes_length (unit + 1), Memory.read_write,
      ushort_ushortBytes (by omega)]

/-- Laying one more unit. -/
theorem Laid.layUnit (hlaid : Laid bytes unitSize base unit) (hsize : 4 ≤ unitSize)
    (hunit : unit < 65535) : Laid (layUnit unitSize base bytes unit) unitSize base (unit + 1) := by
  intro other hother
  rcases Nat.lt_succ_iff_lt_or_eq.mp hother with hlt | rfl
  · have hread : ∀ offset, offset + 2 ≤ unitSize →
        (SelectNet.layUnit unitSize base bytes unit).read
          (unitAddr unitSize base other + offset) 2 =
          bytes.read (unitAddr unitSize base other + offset) 2 := by
      intro offset hoffset
      have hupper : payload unitSize base unit + (ushortBytes (unit + 1)).length ≤
          unitAddr unitSize base unit + unitSize := by
        rw [ushortBytes_length, payload]
        omega
      have hupper' : unitAddr unitSize base unit + (ushortBytes unit).length ≤
          unitAddr unitSize base unit + unitSize := by
        rw [ushortBytes_length]
        omega
      have hlower : unitAddr unitSize base unit ≤ payload unitSize base unit :=
        Nat.le_add_right _ _
      rw [SelectNet.layUnit, read_write_apart hlt.ne' hlower hupper hoffset,
        read_write_apart hlt.ne' (Nat.le_refl _) hupper' hoffset]
    have hindex := hread 0 (by omega)
    rw [Nat.add_zero] at hindex
    rw [unitIndex, unitLink, payload, hindex, hread 2 hsize]
    exact hlaid other hlt
  · exact layUnit_self hunit

theorem layUnit_outside {num address : Nat} (hsize : 4 ≤ unitSize) (hunit : unit < num)
    (houtside : address < base + aDataOffset ∨ base + aDataOffset + unitSize * num ≤ address) :
    layUnit unitSize base bytes unit address = bytes address := by
  have hend := unitAddr_le unitSize base hunit
  rw [layUnit, payload]
  rcases houtside with hbefore | hafter
  · have hlower : base + aDataOffset ≤ unitAddr unitSize base unit := Nat.le_add_right _ _
    rw [Memory.write_of_lt _ _ (by omega), Memory.write_of_lt _ _ (by omega)]
  · rw [Memory.write_of_ge _ _ (by rw [ushortBytes_length]; omega),
      Memory.write_of_ge _ _ (by rw [ushortBytes_length]; omega)]

/-- Walking laid units from the first one on. -/
theorem iterate_laid {link : Nat → Nat} {first count : Nat}
    (hlink : ∀ unit, first ≤ unit → unit < first + count → link unit = unit + 1) :
    List.iterate link first count = List.range' first count := by
  induction count generalizing first with
  | zero => rfl
  | succ count ih =>
      rw [List.iterate, List.range'_succ, hlink first (Nat.le_refl _) (by omega), ih]
      intro unit hlower hupper
      exact hlink unit (by omega) (by omega)

end Writes

/-! ## What a block stands for -/

/-- A block for what it is used as: so many units, and the free ones among
them, the next to be handed out first. -/
structure Chunk where
  base : Nat
  num : Nat
  free : List Nat

namespace Chunk

structure Valid (unitSize : Nat) (chunk : Chunk) : Prop where
  numPos : 0 < chunk.num
  numLt : chunk.num < 65536
  product : chunk.num * unitSize < 2 ^ 31
  bound : chunk.base + sizeofMemoryBlock + unitSize * chunk.num ≤ 2 ^ 64
  nodup : chunk.free.Nodup
  below : ∀ unit ∈ chunk.free, unit < chunk.num

/-- Units that have been handed out. -/
def Live (chunk : Chunk) (unit : Nat) : Prop := unit < chunk.num ∧ unit ∉ chunk.free

def pop (chunk : Chunk) : Chunk := { chunk with free := chunk.free.tail }

def push (chunk : Chunk) (unit : Nat) : Chunk := { chunk with free := unit :: chunk.free }

def reset (chunk : Chunk) : Chunk := { chunk with free := List.range chunk.num }

variable {unitSize unit other : Nat} {chunk : Chunk} {rest : List Nat}

theorem Valid.length_lt (hvalid : chunk.Valid unitSize) (hlive : chunk.Live unit) :
    chunk.free.length < chunk.num := by
  have hnodup : (unit :: chunk.free).Nodup := List.nodup_cons.mpr ⟨hlive.2, hvalid.nodup⟩
  have hsubset : unit :: chunk.free ⊆ List.range chunk.num := by
    intro other hother
    rw [List.mem_range]
    rcases List.mem_cons.mp hother with rfl | hfree
    · exact hlive.1
    · exact hvalid.below other hfree
  have hlength := (List.subperm_of_subset hnodup hsubset).length_le
  rw [List.length_cons, List.length_range] at hlength
  omega

/-- A block that counts all its units free has none handed out. -/
theorem Valid.not_live_of_full (hvalid : chunk.Valid unitSize)
    (hfull : chunk.free.length = chunk.num) : ¬ chunk.Live unit := fun hlive =>
  (hvalid.length_lt hlive).ne hfull

/-- The product that finds a unit does not overflow. -/
theorem Valid.intMul_unit (hvalid : chunk.Valid unitSize) (hunit : unit < chunk.num) :
    intMul unit unitSize = some (unit * unitSize) := by
  apply intMul_of_lt
  exact (Nat.mul_le_mul_right unitSize hunit.le).trans_lt hvalid.product

theorem Valid.length_le (hvalid : chunk.Valid unitSize) : chunk.free.length ≤ chunk.num := by
  by_contra hover
  have hsubset : chunk.free ⊆ List.range chunk.num := fun unit hunit =>
    List.mem_range.mpr (hvalid.below unit hunit)
  have hlength := (List.subperm_of_subset hvalid.nodup hsubset).length_le
  rw [List.length_range] at hlength
  omega

theorem Valid.pop (hvalid : chunk.Valid unitSize) : chunk.pop.Valid unitSize where
  numPos := hvalid.numPos
  numLt := hvalid.numLt
  product := hvalid.product
  bound := hvalid.bound
  nodup := hvalid.nodup.tail
  below := fun unit hunit => hvalid.below unit (List.mem_of_mem_tail hunit)

theorem Valid.push (hvalid : chunk.Valid unitSize) (hlive : chunk.Live unit) :
    (chunk.push unit).Valid unitSize where
  numPos := hvalid.numPos
  numLt := hvalid.numLt
  product := hvalid.product
  bound := hvalid.bound
  nodup := List.nodup_cons.mpr ⟨hlive.2, hvalid.nodup⟩
  below := List.forall_mem_cons.mpr ⟨hlive.1, hvalid.below⟩

theorem Valid.reset (hvalid : chunk.Valid unitSize) : chunk.reset.Valid unitSize where
  numPos := hvalid.numPos
  numLt := hvalid.numLt
  product := hvalid.product
  bound := hvalid.bound
  nodup := List.nodup_range
  below := fun _ hunit => List.mem_range.mp hunit

/-- Handing out the first free unit makes it, and no other, live. -/
theorem live_pop_iff (hvalid : chunk.Valid unitSize) (hfree : chunk.free = unit :: rest) :
    chunk.pop.Live other ↔ other = unit ∨ chunk.Live other := by
  have hnodup := hvalid.nodup
  have hbelow := hvalid.below
  rw [hfree] at hnodup hbelow
  simp only [Live, pop, hfree, List.tail_cons, List.mem_cons, not_or]
  constructor
  · rintro ⟨hlt, hrest⟩
    by_cases hsame : other = unit
    · exact .inl hsame
    · exact .inr ⟨hlt, hsame, hrest⟩
  · rintro (rfl | ⟨hlt, _, hrest⟩)
    · exact ⟨hbelow other List.mem_cons_self, (List.nodup_cons.mp hnodup).1⟩
    · exact ⟨hlt, hrest⟩

theorem live_push_iff : (chunk.push unit).Live other ↔ chunk.Live other ∧ other ≠ unit := by
  simp only [Live, push, List.mem_cons, not_or]
  tauto

theorem not_live_reset : ¬ chunk.reset.Live unit := fun hlive =>
  hlive.2 (List.mem_range.mpr hlive.1)

end Chunk

/-- The fields of a header that belong to a chunk. -/
structure MemoryBlock.Describes (header : MemoryBlock) (unitSize : Nat) (chunk : Chunk) :
    Prop where
  this : header.this = some chunk.base
  unitSize : header.nUnitSize = unitSize
  unitNum : header.nUnitNum = chunk.num
  nFree : header.nFree = chunk.free.length

/-- The block at `chunk.base` holds the chunk: its counters agree, the chain
from `_nFirst` on runs through the free units in their order, and every unit
has its number in front. -/
structure Heap.Holds (heap : Heap) (unitSize : Nat) (chunk : Chunk) : Prop where
  found : ∃ header, heap.block chunk.base = some header ∧ header.Describes unitSize chunk ∧
    List.iterate (unitLink heap.bytes unitSize chunk.base) header.nFirst chunk.free.length =
      chunk.free
  index : ∀ unit < chunk.num, unitIndex heap.bytes unitSize chunk.base unit = unit

/-- Only the counters of the block at `base` differ, and bytes. -/
structure Heap.Recounted (heap heap' : Heap) (base : Nat) : Prop where
  others : ∀ other, other ≠ base → heap'.allocs other = heap.allocs other
  pre : heap'.pre = heap.pre
  next : heap'.next = heap.next
  sizes : heap'.sizes = heap.sizes

namespace Heap

variable {heap heap' : Heap} {unitSize unit base : Nat} {chunk : Chunk} {header : MemoryBlock}

theorem Recounted.of_counters {nFree nFirst : Nat} (hfound : heap.block base = some header)
    (hallocs : heap'.allocs =
      Function.update heap.allocs base (some (.block { header with nFree, nFirst }))) :
    Recounted heap heap' base := by
  have hothers : ∀ other, other ≠ base → heap'.allocs other = heap.allocs other := by
    intro other hne
    rw [hallocs, Function.update_of_ne hne]
  have hself : heap'.block base = some { header with nFree, nFirst } := by
    rw [block_eq_some_iff, hallocs, Function.update_self]
  refine ⟨hothers, ?_, ?_, ?_⟩
  · funext other
    by_cases hsame : other = base
    · rw [hsame, Heap.pre, Heap.pre, hself, hfound]
      rfl
    · rw [Heap.pre, Heap.pre, block_congr (hothers other hsame)]
  · funext other
    by_cases hsame : other = base
    · rw [hsame, Heap.next, Heap.next, hself, hfound]
      rfl
    · rw [Heap.next, Heap.next, block_congr (hothers other hsame)]
  · funext other
    by_cases hsame : other = base
    · rw [hsame, Heap.sizes, Heap.sizes, block_eq_some_iff.mp hself, block_eq_some_iff.mp hfound]
      rfl
    · rw [Heap.sizes, Heap.sizes, hothers other hsame]

/-- Bytes and headers that read the same hold the same chunk. -/
theorem Holds.congr (hholds : heap.Holds unitSize chunk)
    (hblock : heap'.block chunk.base = heap.block chunk.base)
    (hindex : ∀ unit < chunk.num, unitIndex heap'.bytes unitSize chunk.base unit =
      unitIndex heap.bytes unitSize chunk.base unit)
    (hlink : ∀ unit ∈ chunk.free, unitLink heap'.bytes unitSize chunk.base unit =
      unitLink heap.bytes unitSize chunk.base unit) : heap'.Holds unitSize chunk := by
  obtain ⟨header, hfound, hdescribes, hchain⟩ := hholds.found
  refine ⟨⟨header, hblock.trans hfound, hdescribes, ?_⟩, ?_⟩
  · rw [List.iterate_congr, hchain]
    rw [hchain]
    exact hlink
  · intro unit hunit
    rw [hindex unit hunit, hholds.index unit hunit]

theorem Holds.size_le (hholds : heap.Holds unitSize chunk) :
    ∃ header, heap.allocs chunk.base = some (.block header) ∧
      Allocation.size (.block header) = sizeofMemoryBlock + unitSize * chunk.num := by
  obtain ⟨header, hfound, hdescribes, _⟩ := hholds.found
  refine ⟨header, block_eq_some_iff.mp hfound, ?_⟩
  rw [Allocation.size, hdescribes.unitSize, hdescribes.unitNum]

theorem Holds.of_kept (hholds : heap.Holds unitSize chunk) (hvalid : chunk.Valid unitSize)
    (hsize : 4 ≤ unitSize) (hkept : Kept heap heap' chunk.base) :
    heap'.Holds unitSize chunk := by
  obtain ⟨header, hfound, hheader⟩ := hholds.size_le
  have hbytes : ∀ start, chunk.base ≤ start →
      start + 2 ≤ chunk.base + (sizeofMemoryBlock + unitSize * chunk.num) →
      heap'.bytes.read start 2 = heap.bytes.read start 2 := by
    intro start hlower hupper
    apply Memory.read_congr
    intro address hbelow habove
    apply hkept.2 _ hfound address (hlower.trans hbelow)
    rw [hheader]
    exact habove.trans_le hupper
  refine hholds.congr hkept.block ?_ ?_
  · intro unit hunit
    have hend := unitAddr_le unitSize chunk.base hunit
    rw [unitIndex, unitIndex, hbytes _ (by rw [unitAddr]; omega)]
    simp only [sizeofMemoryBlock, aDataOffset] at hend ⊢
    omega
  · intro unit hunit
    have hend := unitAddr_le unitSize chunk.base (hvalid.below unit hunit)
    rw [unitLink, unitLink, hbytes _ (by rw [payload, unitAddr]; omega)]
    simp only [payload, sizeofMemoryBlock, aDataOffset] at hend ⊢
    omega

/-! ## The operations of a block -/

/-- The first free unit holds the number of the next. -/
theorem Holds.link_eq {link : Nat} {rest : List Nat} (hholds : heap.Holds unitSize chunk)
    (hfree : chunk.free = unit :: link :: rest) :
    heap.loadUShort (payload unitSize chunk.base unit) = link := by
  obtain ⟨header, _, _, hchain⟩ := hholds.found
  rw [hfree, List.length_cons, List.length_cons, List.iterate, List.iterate, List.cons.injEq,
    List.cons.injEq] at hchain
  obtain ⟨hfirst, hnext, _⟩ := hchain
  rw [← hfirst]
  exact hnext

/-- `popUnit` hands out the first free unit. -/
theorem Holds.popUnit_spec (hholds : heap.Holds unitSize chunk) (hvalid : chunk.Valid unitSize)
    {rest : List Nat} (hfree : chunk.free = unit :: rest) :
    ∃ heap', heap.popUnit chunk.base = some (payload unitSize chunk.base unit, heap') ∧
      heap'.bytes = heap.bytes ∧ Recounted heap heap' chunk.base ∧
      heap'.Holds unitSize chunk.pop := by
  obtain ⟨header, hfound, hdescribes, hchain⟩ := hholds.found
  have hunit : unit < chunk.num := hvalid.below unit (hfree ▸ List.mem_cons_self)
  have hlength : chunk.free.length = rest.length + 1 := by rw [hfree, List.length_cons]
  have hle := hvalid.length_le
  have hlt := hvalid.numLt
  rw [hlength, hfree, List.iterate, List.cons.injEq] at hchain
  obtain ⟨hfirst, hrest⟩ := hchain
  have hfew : (header.nFree + 65535) % 65536 = rest.length := by
    rw [hdescribes.nFree, hlength]
    omega
  have hmul := hvalid.intMul_unit hunit
  obtain ⟨first, hnext⟩ : ∃ first, first =
      if rest.length ≤ 0 then 65535 else unitLink heap.bytes unitSize chunk.base unit := ⟨_, rfl⟩
  refine ⟨heap.setBlock chunk.base { header with nFree := rest.length, nFirst := first }, ?_, rfl,
    Recounted.of_counters hfound rfl, ?_, hholds.index⟩
  · rw [popUnit, hfound, Option.bind_eq_bind, Option.bind_some, hfirst, hdescribes.unitSize,
      hdescribes.unitNum, hmul, hfew, hnext]
    simp [hunit, guard, payload, unitAddr, unitLink, loadUShort]
  · refine ⟨_, block_setBlock _ _ _, ?_, ?_⟩
    · refine ⟨hdescribes.this, hdescribes.unitSize, hdescribes.unitNum, ?_⟩
      rw [Chunk.pop, hfree, List.tail_cons]
    · -- the last free unit has no link worth following, and none is followed
      rw [Chunk.pop, hfree, List.tail_cons, hnext]
      cases hrestNil : rest.length with
      | zero => exact (List.length_eq_zero_iff.mp hrestNil).symm
      | succ more =>
          rw [if_neg (Nat.not_succ_le_zero more), setBlock_bytes, ← hrestNil, ← hfirst, hrest]

/-- What `pushUnit` computes from the address it is given. -/
theorem wrap_payload {base : Nat} (hbound : base + aDataOffset + unit * unitSize < 2 ^ 64) :
    wrap ((payload unitSize base unit : Nat) - 2 - (base + aDataOffset : Nat)) =
      unit * unitSize := by
  have hvalue : ((payload unitSize base unit : Nat) - 2 - (base + aDataOffset : Nat) : Int) =
      (unit * unitSize : Nat) := by
    simp only [payload, unitAddr]
    omega
  rw [hvalue, wrap_of_lt (by omega)]

/-- Unit numbers are not changed by their conversion to an `int`. -/
theorem bmod_unit (hunit : unit < 65536) : Int.bmod unit (2 ^ 32) = unit := by
  apply Int.bmod_eq_of_le_mul_two
  · omega
  · omega

/-- A unit given back becomes the first free one. -/
theorem Holds.pushUnit_spec (hholds : heap.Holds unitSize chunk) (hvalid : chunk.Valid unitSize)
    (hsize : 4 ≤ unitSize) (hlive : chunk.Live unit) :
    ∃ heap' cells, heap.pushUnit chunk.base (payload unitSize chunk.base unit) = some heap' ∧
      heap'.bytes = heap.bytes.write (payload unitSize chunk.base unit) cells ∧
      cells.length = 2 ∧ Recounted heap heap' chunk.base ∧
      heap'.Holds unitSize (chunk.push unit) := by
  obtain ⟨header, hfound, hdescribes, hchain⟩ := hholds.found
  have hend := unitAddr_le unitSize chunk.base hlive.1
  have hinside : payload unitSize chunk.base unit + 2 ≤
      unitAddr unitSize chunk.base unit + unitSize := by
    rw [payload]
    omega
  obtain ⟨bytes, hbytes⟩ : ∃ bytes, bytes = heap.bytes.write
    (payload unitSize chunk.base unit) (ushortBytes header.nFirst) := ⟨_, rfl⟩
  have hstore : heap.storeUShort chunk.base (payload unitSize chunk.base unit) header.nFirst =
      some { heap with bytes } := by
    rw [hbytes]
    apply storeUShort_of_inside hfound
    · rw [payload, unitAddr]
      omega
    · rw [hdescribes.unitSize, hdescribes.unitNum]
      simp only [sizeofMemoryBlock, aDataOffset] at hend ⊢
      omega
  have hlength := hvalid.length_lt hlive
  have hcount : (header.nFree + 1) % 65536 = chunk.free.length + 1 := by
    have hlt := hvalid.numLt
    rw [hdescribes.nFree]
    omega
  refine ⟨{ heap with bytes }.setBlock chunk.base
    { header with nFree := chunk.free.length + 1, nFirst := unit }, ushortBytes header.nFirst,
    ?_, hbytes, rfl, Recounted.of_counters hfound rfl, ?_, ?_⟩
  · have hpos : 0 < unitSize := by omega
    have hnumLt := hvalid.numLt
    have hunit := hlive.1
    have hfirst : ((unit : Int) % 65536).toNat = unit := by omega
    have hbound := hvalid.bound
    have hwrap : wrap ((payload unitSize chunk.base unit : Nat) -
        2 - (chunk.base + aDataOffset : Nat)) = unit * unitSize := by
      apply wrap_payload
      simp only [unitAddr, sizeofMemoryBlock, aDataOffset] at hend hbound ⊢
      omega
    have hnumber : Int.bmod (unit * unitSize / unitSize : Nat) (2 ^ 32) = unit := by
      rw [Nat.mul_div_cancel _ hpos, bmod_unit (hunit.trans hnumLt)]
    have hfound' : { heap with bytes }.block chunk.base = some header := hfound
    simp only [pushUnit, hfound, Option.bind_eq_bind, Option.bind_some, hdescribes.unitSize, hwrap,
      hnumber, hdescribes.unitNum, guard, hpos, hunit, Int.ofNat_lt, if_pos, hstore, hfirst, modify,
      hfound', hcount, Option.map_some, pure]
  · refine ⟨_, block_setBlock _ _ _, ?_, ?_⟩
    · exact ⟨hdescribes.this, hdescribes.unitSize, hdescribes.unitNum, rfl⟩
    · -- the link stored in the unit leads to what was first before
      have hold : ∀ other ∈ chunk.free, unitLink bytes unitSize chunk.base other =
          unitLink heap.bytes unitSize chunk.base other := by
        intro other hother
        rw [hbytes]
        apply unitLink_write hsize _ (Nat.le_add_right _ _) hinside
        rintro rfl
        exact hlive.2 hother
      rw [Chunk.push, List.length_cons, List.iterate]
      congr 1
      cases hfree : chunk.free with
      | nil => rfl
      | cons first rest =>
          rw [hfree, List.length_cons, List.iterate, List.cons.injEq] at hchain
          obtain ⟨hfirst, hrest⟩ := hchain
          have hsmall : header.nFirst < 65536 := by
            rw [hfirst]
            exact (hvalid.below first (hfree ▸ List.mem_cons_self)).trans hvalid.numLt
          have hlink : unitLink bytes unitSize chunk.base unit = header.nFirst := by
            rw [unitLink, hbytes, ← ushortBytes_length header.nFirst, Memory.read_write,
              ushort_ushortBytes hsmall]
          change List.iterate (unitLink bytes unitSize chunk.base)
            (unitLink bytes unitSize chunk.base unit) (rest.length + 1) = first :: rest
          rw [hlink, List.iterate_congr, List.iterate, hrest, hfirst]
          rw [List.iterate, hrest, hfirst, ← hfree]
          exact hold
  · intro other hother
    rw [setBlock_bytes]
    change unitIndex bytes unitSize chunk.base other = other
    rw [hbytes, unitIndex_write hsize (Nat.le_refl _) hinside]
    exact hholds.index other hother

/-- One pass of the loop of `reset`. -/
theorem resetUnit_spec (hvalid : chunk.Valid unitSize) (hsize : 4 ≤ unitSize)
    (hfound : heap.block chunk.base = some header) (hunitSize : header.nUnitSize = unitSize)
    (hunitNum : header.nUnitNum = chunk.num) (hunit : unit < chunk.num) :
    resetUnit chunk.base heap unit =
      some { heap with bytes := layUnit unitSize chunk.base heap.bytes unit } := by
  have hend := unitAddr_le unitSize chunk.base hunit
  have hbound := hvalid.bound
  have hmul := hvalid.intMul_unit hunit
  have hwrap : wrap ((chunk.base + aDataOffset + unit * unitSize : Nat) : Int) =
      unitAddr unitSize chunk.base unit := by
    apply wrap_of_lt
    simp only [unitAddr, sizeofMemoryBlock, aDataOffset] at hend hbound ⊢
    omega
  have hstore : ∀ (heap : Heap) (address value : Nat), heap.block chunk.base = some header →
      unitAddr unitSize chunk.base unit ≤ address →
      address + 2 ≤ unitAddr unitSize chunk.base unit + unitSize →
      heap.storeUShort chunk.base address value =
        some { heap with bytes := heap.bytes.write address (ushortBytes value) } := by
    intro heap address value hfound hlower hupper
    apply storeUShort_of_inside hfound ((Nat.le_add_right _ _).trans hlower)
    rw [hunitSize, hunitNum]
    simp only [sizeofMemoryBlock, aDataOffset] at hend ⊢
    omega
  simp only [resetUnit, hfound, Option.bind_eq_bind, Option.bind_some, hunitSize, hmul, hwrap]
  rw [hstore heap _ _ hfound (Nat.le_refl _) (by omega), Option.bind_some]
  exact hstore _ _ _ hfound (Nat.le_add_right _ _) (by omega)

/-- The loop of `reset`, up to some unit. -/
theorem resetUnits_spec (hvalid : chunk.Valid unitSize) (hsize : 4 ≤ unitSize)
    (hfound : heap.block chunk.base = some header) (hunitSize : header.nUnitSize = unitSize)
    (hunitNum : header.nUnitNum = chunk.num) {count : Nat} (hcount : count ≤ chunk.num) :
    ∃ bytes, (List.range count).foldlM (resetUnit chunk.base) heap = some { heap with bytes } ∧
      Laid bytes unitSize chunk.base count ∧
      ∀ address, (address < chunk.base + aDataOffset ∨
        chunk.base + aDataOffset + unitSize * chunk.num ≤ address) →
        bytes address = heap.bytes address := by
  induction count with
  | zero => exact ⟨heap.bytes, rfl, fun _ hunit => absurd hunit (Nat.not_lt_zero _), fun _ _ => rfl⟩
  | succ count ih =>
      obtain ⟨bytes, hrun, hlaid, houtside⟩ := ih (by omega)
      have hnumLt := hvalid.numLt
      have hfound' : ({ heap with bytes } : Heap).block chunk.base = some header := hfound
      refine ⟨layUnit unitSize chunk.base bytes count, ?_, hlaid.layUnit hsize (by omega), ?_⟩
      · rw [List.range_succ, List.foldlM_append, hrun, Option.bind_eq_bind, Option.bind_some,
          List.foldlM_cons, resetUnit_spec hvalid hsize hfound' hunitSize hunitNum hcount]
        rfl
      · intro address haddress
        rw [layUnit_outside hsize hcount haddress, houtside address haddress]

/-- `reset` makes all units free, in their order. -/
theorem reset_spec (hvalid : chunk.Valid unitSize) (hsize : 4 ≤ unitSize)
    (hfound : heap.block chunk.base = some header) (hthis : header.this = some chunk.base)
    (hunitSize : header.nUnitSize = unitSize) (hunitNum : header.nUnitNum = chunk.num) :
    ∃ heap', heap.reset chunk.base = some heap' ∧ heap'.Holds unitSize chunk.reset ∧
      heap'.allocs = Function.update heap.allocs chunk.base
        (some (.block { header with nFree := chunk.num, nFirst := 0 })) ∧
      ∀ address, (address < chunk.base + aDataOffset ∨
        chunk.base + aDataOffset + unitSize * chunk.num ≤ address) →
        heap'.bytes address = heap.bytes address := by
  obtain ⟨counted, hcounted⟩ : ∃ counted : MemoryBlock,
    counted = { header with nFree := chunk.num, nFirst := 0 } := ⟨_, rfl⟩
  have hblock : (heap.setBlock chunk.base counted).block chunk.base = some counted :=
    block_setBlock _ _ _
  obtain ⟨bytes, hrun, hlaid, houtside⟩ := resetUnits_spec hvalid hsize hblock
    (by rw [hcounted]; exact hunitSize) (by rw [hcounted]; exact hunitNum) (Nat.le_refl chunk.num)
  refine ⟨{ heap.setBlock chunk.base counted with bytes }, ?_, ⟨?_, ?_⟩, ?_, houtside⟩
  · rw [reset, hfound, Option.bind_eq_bind, Option.bind_some]
    simp only [hunitNum]
    rw [hcounted] at hrun ⊢
    rw [← hrun]
    simp only [hunitNum]
  · refine ⟨counted, hblock, ?_, ?_⟩
    · rw [hcounted]
      exact ⟨hthis, hunitSize, hunitNum, List.length_range.symm⟩
    · rw [hcounted, Chunk.reset, List.length_range, List.range_eq_range']
      apply iterate_laid
      intro unit _ hunit
      rw [Nat.zero_add] at hunit
      exact (hlaid unit hunit).2
  · intro unit hunit
    exact (hlaid unit hunit).1
  · rw [setBlock_allocs, hcounted]

/-- A new block in a fresh region has all its units free. -/
theorem newBlock_spec (heap : Heap) (hvalid : chunk.Valid unitSize) (hsize : 4 ≤ unitSize) :
    ∃ heap' header', heap.newBlock chunk.base unitSize chunk.num = some heap' ∧
      heap'.Holds unitSize chunk.reset ∧
      heap'.allocs = Function.update heap.allocs chunk.base (some (.block header')) ∧
      Allocation.size (.block header') = sizeofMemoryBlock + unitSize * chunk.num ∧
      header'.pPre = none ∧ header'.pNext = none ∧
      ∀ address, (address < chunk.base ∨
        chunk.base + sizeofMemoryBlock + unitSize * chunk.num ≤ address) →
        heap'.bytes address = heap.bytes address := by
  obtain ⟨header, hheader⟩ : ∃ header : MemoryBlock, header =
    { nSize := chunk.num * unitSize, nFree := 0, nFirst := 0, nUnitSize := unitSize,
      nUnitNum := chunk.num, pPre := none, pNext := none, this := some chunk.base } := ⟨_, rfl⟩
  obtain ⟨heap', hreset, hholds, hallocs, hbytes⟩ := reset_spec hvalid hsize
    (block_setBlock heap chunk.base header) (by rw [hheader]) (by rw [hheader]) (by rw [hheader])
  refine ⟨heap', { header with nFree := chunk.num, nFirst := 0 }, ?_, hholds, ?_, ?_, ?_, ?_, ?_⟩
  · simp only [newBlock, intMul_of_lt hvalid.product, Option.bind_eq_bind, Option.bind_some]
    rw [← hheader, hreset]
  · rw [hallocs, setBlock_allocs, Function.update_idem]
  · rw [hheader]
    rfl
  · rw [hheader]
  · rw [hheader]
  · intro address haddress
    apply hbytes
    simp only [sizeofMemoryBlock, aDataOffset] at haddress ⊢
    omega

end Heap

end SelectNet
