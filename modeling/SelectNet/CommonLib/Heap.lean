import Mathlib.Algebra.Group.Int.Defs
import Mathlib.Algebra.Group.Nat.Defs
import Mathlib.Logic.Function.Basic
import SelectNet.CommonLib.Msg

/-!
# The heap

What `operator new` and `malloc` have handed out, on a machine with 64-bit
pointers. Addresses are naturals. The header of a `MemoryBlock` is kept as a
record under the address of the block, everything else as bytes. A null pointer
is `none`; so is the outcome of an operation that touches what it does not own,
overflows an `int` or fails an assertion.
-/

namespace SelectNet

/-- The header of a block; the bytes of `_aData` follow it in memory. -/
structure MemoryBlock where
  nSize : Nat
  nFree : Nat
  nFirst : Nat
  nUnitSize : Nat
  nUnitNum : Nat
  pPre : Option Nat
  pNext : Option Nat
  this : Option Nat

/-- `offsetof(MemoryBlock, _this)` -/
def thisOffset : Nat := 32

/-- `offsetof(MemoryBlock, _aData)` -/
def aDataOffset : Nat := 40

/-- `sizeof(MemoryBlock)` -/
def sizeofMemoryBlock : Nat := 48

/-- One result of `operator new` or of `malloc`. -/
inductive Allocation where
  | block (header : MemoryBlock)
  | plain (size : Nat)

def Allocation.size : Allocation → Nat
  | .block header => sizeofMemoryBlock + header.nUnitSize * header.nUnitNum
  | .plain size => size

structure Heap where
  allocs : Nat → Option Allocation
  bytes : Memory Byte

/-- Conversion to `uintptr_t`. -/
def wrap (value : Int) : Nat := (value % 2 ^ 64).toNat

/-- The product of two promoted `USHORT`s, an `int`. -/
def intMul (left right : Nat) : Option Nat :=
  if left * right < 2 ^ 31 then some (left * right) else none

/-- The bytes of a number, low byte first. -/
def numberBytes : Nat → Nat → List Byte
  | 0, _ => []
  | count + 1, value => UInt8.ofNat value :: numberBytes count (value / 256)

/-- The number that bytes hold, low byte first. -/
def number : List Byte → Nat
  | [] => 0
  | low :: rest => low.toNat + 256 * number rest

@[simp] theorem numberBytes_length (count value : Nat) :
    (numberBytes count value).length = count := by
  induction count generalizing value with
  | zero => rfl
  | succ count ih => rw [numberBytes, List.length_cons, ih]

theorem number_numberBytes {count value : Nat} (hlt : value < 256 ^ count) :
    number (numberBytes count value) = value := by
  induction count generalizing value with
  | zero => exact (Nat.lt_one_iff.mp hlt).symm
  | succ count ih =>
      have hrest : value / 256 < 256 ^ count := by
        rw [Nat.pow_succ] at hlt
        exact Nat.div_lt_of_lt_mul (Nat.mul_comm _ _ ▸ hlt)
      rw [numberBytes, number, ih hrest, UInt8.toNat_ofNat']
      omega

theorem wrap_of_lt {value : Nat} (hlt : value < 2 ^ 64) : wrap value = value := by
  rw [wrap, Int.emod_eq_of_lt (by omega) (by omega), Int.toNat_natCast]

theorem intMul_of_lt {left right : Nat} (hlt : left * right < 2 ^ 31) :
    intMul left right = some (left * right) := if_pos hlt

namespace Heap

def block (heap : Heap) (base : Nat) : Option MemoryBlock :=
  match heap.allocs base with
  | some (.block header) => some header
  | _ => none

def setBlock (heap : Heap) (base : Nat) (block : MemoryBlock) : Heap :=
  { heap with allocs := Function.update heap.allocs base (some (.block block)) }

/-- Assign to fields of the block at `base`. -/
def modify (heap : Heap) (base : Nat) (assign : MemoryBlock → MemoryBlock) : Option Heap :=
  (heap.block base).map fun block => heap.setBlock base (assign block)

/-- `operator delete` and `free` -/
def delete (heap : Heap) (base : Nat) : Heap :=
  { heap with allocs := Function.update heap.allocs base none }

/-- `*((USHORT*)address)`, within the data of some block -/
def loadUShort (heap : Heap) (address : Nat) : Nat := ushort (heap.bytes.read address 2)

/-- `*((MemoryBlock**)address)`: the address has to be that of a `_this` field. -/
def loadThis (heap : Heap) (address : Nat) : Option (Option Nat) :=
  if thisOffset ≤ address then (heap.block (address - thisOffset)).map (·.this) else none

/-- `*((USHORT*)address) = value`, within the data of the block at `base`. -/
def storeUShort (heap : Heap) (base address value : Nat) : Option Heap :=
  match heap.block base with
  | none => none
  | some block =>
      if base + aDataOffset ≤ address ∧
          address + 2 ≤ base + sizeofMemoryBlock + block.nUnitSize * block.nUnitNum then
        some { heap with bytes := heap.bytes.write address (ushortBytes value) }
      else none

/-- A user of the memory stores bytes. -/
def write (heap : Heap) (start : Nat) (cells : List Byte) : Heap :=
  { heap with bytes := heap.bytes.write start cells }

/-- What the block at an address has in front of it, if there is one. -/
def pre (heap : Heap) (base : Nat) : Option Nat := (heap.block base).bind (·.pPre)

/-- What the block at an address has behind it, if there is one. -/
def next (heap : Heap) (base : Nat) : Option Nat := (heap.block base).bind (·.pNext)

/-- What is allocated where, for those who allocate more. -/
def sizes (heap : Heap) : Nat → Option Nat := fun base => (heap.allocs base).map Allocation.size

/-- A region that overlaps nothing that is allocated. -/
structure Fresh (heap : Heap) (base size : Nat) : Prop where
  notNull : 0 < base
  bound : base + size ≤ 2 ^ 64
  unused : heap.allocs base = none
  apart : ∀ other alloc, heap.allocs other = some alloc →
    base + size ≤ other ∨ other + alloc.size ≤ base

/-- No two allocations overlap. -/
def Apart (heap : Heap) : Prop :=
  ∀ first second one two, heap.allocs first = some one → heap.allocs second = some two →
    first ≠ second → first + one.size ≤ second ∨ second + two.size ≤ first

/-- The allocation at an address, if there is one, is the same and has the same
contents. -/
def Kept (heap heap' : Heap) (base : Nat) : Prop :=
  heap'.allocs base = heap.allocs base ∧
    ∀ alloc, heap.allocs base = some alloc →
      ∀ address, base ≤ address → address < base + alloc.size →
        heap'.bytes address = heap.bytes address

variable {heap heap' : Heap} {base other : Nat} {header : MemoryBlock}

theorem block_eq_some_iff :
    heap.block base = some header ↔ heap.allocs base = some (.block header) := by
  rw [Heap.block]
  split
  next found hfound => rw [hfound, Option.some.injEq, Option.some.injEq, Allocation.block.injEq]
  next hother =>
    constructor
    · intro hnone
      cases hnone
    · intro hfound
      exact (hother header hfound).elim

@[simp] theorem setBlock_allocs (heap : Heap) (base : Nat) (header : MemoryBlock) :
    (heap.setBlock base header).allocs = Function.update heap.allocs base (some (.block header)) :=
  rfl

@[simp] theorem setBlock_bytes (heap : Heap) (base : Nat) (header : MemoryBlock) :
    (heap.setBlock base header).bytes = heap.bytes := rfl

@[simp] theorem block_setBlock (heap : Heap) (base : Nat) (header : MemoryBlock) :
    (heap.setBlock base header).block base = some header := by
  rw [block_eq_some_iff, setBlock_allocs, Function.update_self]

theorem block_congr (hallocs : heap'.allocs base = heap.allocs base) :
    heap'.block base = heap.block base := by
  rw [Heap.block, Heap.block, hallocs]

theorem block_setBlock_of_ne (header : MemoryBlock) (hne : other ≠ base) :
    (heap.setBlock base header).block other = heap.block other :=
  block_congr (Function.update_of_ne hne _ _)

theorem modify_of_found (hfound : heap.block base = some header)
    (assign : MemoryBlock → MemoryBlock) :
    heap.modify base assign = some (heap.setBlock base (assign header)) := by
  rw [modify, hfound, Option.map_some]

@[simp] theorem delete_bytes (heap : Heap) (base : Nat) :
    (heap.delete base).bytes = heap.bytes := rfl

theorem delete_allocs_of_ne (hne : other ≠ base) :
    (heap.delete base).allocs other = heap.allocs other := Function.update_of_ne hne _ _

theorem sizes_of_update {alloc : Allocation}
    (hallocs : heap'.allocs = Function.update heap.allocs base (some alloc)) :
    heap'.sizes = Function.update heap.sizes base (some alloc.size) := by
  funext other
  rw [sizes, hallocs, Function.update_apply, Function.update_apply]
  split
  next => rfl
  next => rfl

@[simp] theorem delete_sizes (heap : Heap) (base : Nat) :
    (heap.delete base).sizes = Function.update heap.sizes base none := by
  funext other
  by_cases hsame : other = base
  · have hnone : (heap.delete base).allocs base = none := Function.update_self _ _ _
    rw [hsame, sizes, hnone, Function.update_self, Option.map_none]
  · rw [sizes, delete_allocs_of_ne hsame, Function.update_of_ne hsame]
    rfl

theorem storeUShort_of_inside (hfound : heap.block base = some header) {address value : Nat}
    (hlower : base + aDataOffset ≤ address)
    (hupper : address + 2 ≤ base + sizeofMemoryBlock + header.nUnitSize * header.nUnitNum) :
    heap.storeUShort base address value =
      some { heap with bytes := heap.bytes.write address (ushortBytes value) } := by
  rw [storeUShort, hfound]
  exact if_pos ⟨hlower, hupper⟩

/-! ## Keeping allocations apart -/

theorem Kept.refl (heap : Heap) (base : Nat) : Kept heap heap base := ⟨rfl, fun _ _ _ _ _ => rfl⟩

theorem Kept.block (hkept : Kept heap heap' base) : heap'.block base = heap.block base :=
  block_congr hkept.1

theorem Kept.trans {heap'' : Heap} (hfirst : Kept heap heap' base)
    (hsecond : Kept heap' heap'' base) : Kept heap heap'' base := by
  refine ⟨hsecond.1.trans hfirst.1, ?_⟩
  intro alloc hfound address hlower hupper
  rw [hsecond.2 alloc (hfirst.1.trans hfound) address hlower hupper,
    hfirst.2 alloc hfound address hlower hupper]

/-- Operations that leave the bytes alone keep what they do not reallocate. -/
theorem Kept.of_bytes_eq (hallocs : heap'.allocs base = heap.allocs base)
    (hbytes : heap'.bytes = heap.bytes) : Kept heap heap' base :=
  ⟨hallocs, fun _ _ _ _ _ => congrFun hbytes _⟩

theorem Fresh.of_sizes {size : Nat} (hfresh : Fresh heap base size)
    (hsizes : heap'.sizes = heap.sizes) : Fresh heap' base size where
  notNull := hfresh.notNull
  bound := hfresh.bound
  unused := by
    have hsame := congrFun hsizes base
    rw [sizes, sizes, hfresh.unused, Option.map_none, Option.map_eq_none_iff] at hsame
    exact hsame
  apart := by
    intro other alloc hfound
    have hsame := congrFun hsizes other
    rw [sizes, sizes, hfound, Option.map_some, eq_comm, Option.map_eq_some_iff] at hsame
    obtain ⟨old, hold, hsize⟩ := hsame
    rw [← hsize]
    exact hfresh.apart other old hold

/-- Whether a region is fresh depends on what is allocated where. -/
theorem Fresh.of_apart {size : Nat} (hnotNull : 0 < base) (hbound : base + size ≤ 2 ^ 64)
    (hunused : heap.sizes base = none)
    (hapart : ∀ other taken, heap.sizes other = some taken →
      base + size ≤ other ∨ other + taken ≤ base) : Fresh heap base size where
  notNull := hnotNull
  bound := hbound
  unused := Option.map_eq_none_iff.mp hunused
  apart := by
    intro other alloc hfound
    apply hapart other alloc.size
    rw [sizes, hfound, Option.map_some]

/-- A heap of which nothing is allocated. -/
def vacant : Heap := ⟨fun _ => none, fun _ => 0⟩

theorem vacant_apart : vacant.Apart := by
  intro first second one two hone _ _
  cases hone

theorem vacant_fresh {size : Nat} (hnotNull : 0 < base) (hbound : base + size ≤ 2 ^ 64) :
    vacant.Fresh base size := by
  refine ⟨hnotNull, hbound, rfl, ?_⟩
  intro other alloc hfound
  cases hfound

/-- Changing headers without changing sizes keeps allocations apart. -/
theorem Apart.of_sizes (hapart : Apart heap)
    (hsizes : heap'.sizes = heap.sizes) : Apart heap' := by
  intro first second one two hone htwo hne
  have hfirst := congrFun hsizes first
  have hsecond := congrFun hsizes second
  rw [sizes, sizes, hone, Option.map_some, eq_comm, Option.map_eq_some_iff] at hfirst
  rw [sizes, sizes, htwo, Option.map_some, eq_comm, Option.map_eq_some_iff] at hsecond
  obtain ⟨one', hone', hsize⟩ := hfirst
  obtain ⟨two', htwo', hsize'⟩ := hsecond
  rw [← hsize, ← hsize']
  exact hapart first second one' two' hone' htwo' hne

theorem Apart.delete (hapart : Apart heap) (base : Nat) : Apart (heap.delete base) := by
  have hold : ∀ {other alloc}, (heap.delete base).allocs other = some alloc →
      heap.allocs other = some alloc := by
    intro other alloc hfound
    by_cases hsame : other = base
    · subst hsame
      have hnone : (heap.delete other).allocs other = none := Function.update_self _ _ _
      rw [hnone] at hfound
      cases hfound
    · rwa [delete_allocs_of_ne hsame] at hfound
  intro first second one two hone htwo hne
  exact hapart first second one two (hold hone) (hold htwo) hne

/-- Allocating a fresh region keeps allocations apart. -/
theorem Apart.allocate (hapart : Apart heap) {alloc : Allocation}
    (hfresh : Fresh heap base alloc.size)
    (hallocs : heap'.allocs = Function.update heap.allocs base (some alloc)) : Apart heap' := by
  intro first second one two hone htwo hne
  rw [hallocs, Function.update_apply] at hone htwo
  split at hone
  next hfirst =>
    subst hfirst
    cases hone
    rw [if_neg (Ne.symm hne)] at htwo
    exact hfresh.apart second two htwo
  next =>
    split at htwo
    next hsecond =>
      subst hsecond
      cases htwo
      exact (hfresh.apart first one hone).symm
    next => exact hapart first second one two hone htwo hne

/-- What changes inside a region that an allocation does not overlap keeps it. -/
theorem Kept.of_outside {size : Nat} (hallocs : heap'.allocs other = heap.allocs other)
    (hapart : ∀ alloc, heap.allocs other = some alloc →
      base + size ≤ other ∨ other + alloc.size ≤ base)
    (hbytes : ∀ address, (address < base ∨ base + size ≤ address) →
      heap'.bytes address = heap.bytes address) : Kept heap heap' other := by
  refine ⟨hallocs, ?_⟩
  intro alloc hfound address hlower hupper
  apply hbytes
  rcases hapart alloc hfound with hafter | hbefore
  · exact .inr (hafter.trans hlower)
  · exact .inl (hupper.trans_le hbefore)

/-- Bytes written inside one allocation are not those of another. -/
theorem Kept.of_write (hapart : Apart heap) {alloc : Allocation}
    (hfound : heap.allocs base = some alloc) (hne : other ≠ base) {start : Nat} {cells : List Byte}
    (hlower : base ≤ start) (hupper : start + cells.length ≤ base + alloc.size) :
    Kept heap (heap.write start cells) other := by
  have hregion : ∀ alloc', heap.allocs other = some alloc' →
      base + alloc.size ≤ other ∨ other + alloc'.size ≤ base :=
    fun alloc' hfound' => hapart base other alloc alloc' hfound hfound' hne.symm
  refine Kept.of_outside rfl hregion ?_
  rintro address (hbefore | hafter)
  · exact Memory.write_of_lt _ _ (hbefore.trans_le hlower)
  · exact Memory.write_of_ge _ _ (hupper.trans hafter)

end Heap

end SelectNet
