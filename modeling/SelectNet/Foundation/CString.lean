import Mathlib.Data.List.TakeDrop
import SelectNet.Foundation.ByteMemory

/-!
# Zero-terminated strings

A string is the memory behind a pointer, up to its first zero. Copying one
writes as far as that zero is away, which is for ever where there is none.
-/

universe u

namespace Memory

variable {α : Type u}

/-- The memory behind a pointer. -/
def behind (memory : Memory α) (start : Nat) : Memory α := fun offset => memory (start + offset)

@[simp] theorem read_behind (memory : Memory α) (start count : Nat) :
    (memory.behind start).read 0 count = memory.read start count := by
  apply List.ext_getElem?
  intro index
  by_cases hindex : index < count
  · rw [getElem?_read _ hindex, getElem?_read _ hindex, behind, Nat.zero_add]
  · rw [List.getElem?_eq_none (by simpa using hindex),
      List.getElem?_eq_none (by simpa using hindex)]

variable [Zero α]

/-- The string ends within its first `limit` cells, the zero included. -/
def Terminated (str : Memory α) (limit : Nat) : Prop := ∃ offset < limit, str offset = 0

/-- The addresses that a copy of the string to `dest` writes. -/
def CopyWrites (str : Memory α) (dest address : Nat) : Prop :=
  dest ≤ address ∧ ∀ offset < address - dest, str offset ≠ 0

section Copy

variable [DecidableEq α]

instance (str : Memory α) (limit : Nat) : Decidable (str.Terminated limit) :=
  inferInstanceAs (Decidable (∃ offset < limit, str offset = 0))

instance (str : Memory α) (dest address : Nat) : Decidable (str.CopyWrites dest address) :=
  inferInstanceAs (Decidable (_ ∧ _))

/-- `strcpy`, or `memcpy` of `strlen + 1` cells. -/
def strcpy (memory : Memory α) (dest : Nat) (str : Memory α) : Memory α := fun address =>
  if str.CopyWrites dest address then str (address - dest) else memory address

end Copy

variable {str : Memory α} {dest limit : Nat}

/-- A copy stays within `limit` cells exactly if the string ends within them. -/
theorem copyWrites_lt_iff :
    (∀ address, str.CopyWrites dest address → address < dest + limit) ↔ str.Terminated limit := by
  constructor
  · intro hwithin
    by_contra hnone
    have hlong : str.CopyWrites dest (dest + limit) := by
      refine ⟨Nat.le_add_right _ _, ?_⟩
      intro offset hoffset hzero
      exact hnone ⟨offset, by omega, hzero⟩
    exact Nat.lt_irrefl _ (hwithin _ hlong)
  · intro hends address hwrites
    obtain ⟨offset, hoffset, hzero⟩ := hends
    by_contra hbehind
    exact hwrites.2 offset (by omega) hzero

theorem terminated_iff_mem : str.Terminated limit ↔ (0 : α) ∈ str.read 0 limit := by
  rw [List.mem_iff_getElem?]
  constructor
  · intro hends
    obtain ⟨offset, hoffset, hzero⟩ := hends
    exact ⟨offset, by rw [getElem?_read _ hoffset, Nat.zero_add, hzero]⟩
  · intro hmem
    obtain ⟨offset, hsome⟩ := hmem
    by_cases hoffset : offset < limit
    · rw [getElem?_read _ hoffset, Nat.zero_add, Option.some.injEq] at hsome
      exact ⟨offset, hoffset, hsome⟩
    · rw [List.getElem?_eq_none (by simpa using hoffset)] at hsome
      simp at hsome

/-- A literal ends behind its characters. -/
theorem terminated_ofList {cells : List α} (hlen : cells.length < limit) :
    (ofList cells 0).Terminated limit :=
  ⟨cells.length, hlen, by simp [ofList]⟩

end Memory
