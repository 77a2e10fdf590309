import Mathlib.Data.List.Range

/-!
# Flat memory

A memory gives every address a cell. Reading a range gives a list, writing a
list changes the range it covers and nothing else.
-/

universe u

/-- Cells by address. -/
abbrev Memory (α : Type u) := Nat → α

namespace Memory

variable {α : Type u}

/-- The `count` cells from address `start` on. -/
def read (memory : Memory α) (start count : Nat) : List α :=
  (List.range' start count).map memory

/-- Store a list from address `start` on. -/
def write (memory : Memory α) (start : Nat) (cells : List α) : Memory α := fun address =>
  if start ≤ address then (cells[address - start]?).getD (memory address)
  else memory address

/-- A memory that starts with the given cells and holds `fill` behind them. -/
def ofList (cells : List α) (fill : α) : Memory α := fun address =>
  cells.getD address fill

variable (memory : Memory α)

@[simp] theorem length_read (start count : Nat) : (memory.read start count).length = count := by
  simp [read]

@[simp] theorem read_zero (start : Nat) : memory.read start 0 = [] := rfl

theorem read_succ (start count : Nat) :
    memory.read start (count + 1) = memory start :: memory.read (start + 1) count := by
  simp [read, List.range'_succ]

theorem read_add (start first second : Nat) :
    memory.read start (first + second) =
      memory.read start first ++ memory.read (start + first) second := by
  rw [read, ← List.range'_append_1, List.map_append]
  rfl

theorem take_read (start count keep : Nat) :
    (memory.read start count).take keep = memory.read start (min keep count) := by
  rcases Nat.le_total keep count with hle | hle
  · obtain ⟨rest, rfl⟩ := Nat.exists_eq_add_of_le hle
    rw [read_add, Nat.min_eq_left hle, List.take_left' (length_read memory start keep)]
  · rw [Nat.min_eq_right hle, List.take_of_length_le (by simpa using hle)]

theorem drop_read (start count skip : Nat) :
    (memory.read start count).drop skip = memory.read (start + skip) (count - skip) := by
  rcases Nat.le_total skip count with hle | hle
  · obtain ⟨rest, rfl⟩ := Nat.exists_eq_add_of_le hle
    rw [read_add, List.drop_left' (length_read memory start skip), Nat.add_sub_cancel_left]
  · rw [List.drop_of_length_le (by simpa using hle), Nat.sub_eq_zero_of_le hle, read_zero]

theorem getElem?_read {start count index : Nat} (hindex : index < count) :
    (memory.read start count)[index]? = some (memory (start + index)) := by
  simp [read, hindex]

/-- A range reads the same from two memories that agree on it. -/
theorem read_congr {other : Memory α} {start count : Nat}
    (hagree : ∀ address, start ≤ address → address < start + count →
      memory address = other address) :
    memory.read start count = other.read start count := by
  apply List.map_congr_left
  intro address haddress
  obtain ⟨hlower, hupper⟩ := List.mem_range'_1.mp haddress
  exact hagree address hlower hupper

theorem write_of_lt {start address : Nat} (cells : List α) (hlt : address < start) :
    memory.write start cells address = memory address := by
  rw [write, if_neg (by omega)]

theorem write_of_ge {start address : Nat} (cells : List α)
    (hge : start + cells.length ≤ address) :
    memory.write start cells address = memory address := by
  rw [write, if_pos (by omega), List.getElem?_eq_none (by omega), Option.getD_none]

theorem write_add (start : Nat) {index : Nat} {cells : List α} (hindex : index < cells.length) :
    memory.write start cells (start + index) = cells[index] := by
  rw [write, if_pos (by omega), Nat.add_sub_cancel_left, List.getElem?_eq_getElem hindex,
    Option.getD_some]

theorem read_eq_replicate {fill : α} {start : Nat}
    (hfill : ∀ address, start ≤ address → memory address = fill) (count : Nat) :
    memory.read start count = List.replicate count fill := by
  rw [List.eq_replicate_iff]
  refine ⟨length_read memory start count, fun cell hcell => ?_⟩
  obtain ⟨address, haddress, rfl⟩ := List.mem_map.mp hcell
  exact hfill address (List.mem_range'_1.mp haddress).1

/-- A written range reads back. -/
@[simp] theorem read_write (start : Nat) (cells : List α) :
    (memory.write start cells).read start cells.length = cells := by
  apply List.ext_getElem?
  intro index
  by_cases hindex : index < cells.length
  · rw [getElem?_read _ hindex, write_add _ _ hindex, List.getElem?_eq_getElem hindex]
  · rw [List.getElem?_eq_none (by simpa using hindex), List.getElem?_eq_none (by omega)]

/-- A range that ends before the written one is unchanged. -/
theorem read_write_before {start count written : Nat} (cells : List α)
    (hle : start + count ≤ written) :
    (memory.write written cells).read start count = memory.read start count := by
  apply read_congr
  intro address _ hupper
  exact write_of_lt memory cells (by omega)

/-- A range that starts behind the written one is unchanged. -/
theorem read_write_after {start count written : Nat} (cells : List α)
    (hle : written + cells.length ≤ start) :
    (memory.write written cells).read start count = memory.read start count := by
  apply read_congr
  intro address hlower _
  exact write_of_ge memory cells (by omega)

/-- Writing behind a range and reading both gives the old range and the new one. -/
theorem read_write_append (start count : Nat) (cells : List α) :
    (memory.write (start + count) cells).read start (count + cells.length) =
      memory.read start count ++ cells := by
  rw [read_add, read_write_before _ _ (Nat.le_refl _), read_write]

/-- Two lists written one behind the other. -/
theorem write_write_append (start : Nat) (front back : List α) :
    (memory.write start front).write (start + front.length) back =
      memory.write start (front ++ back) := by
  funext address
  by_cases hback : start + front.length ≤ address
  · obtain ⟨index, rfl⟩ := Nat.exists_eq_add_of_le hback
    rw [write, if_pos hback, write_of_ge _ _ hback, write, if_pos (by omega),
      Nat.add_sub_cancel_left, Nat.add_assoc, Nat.add_sub_cancel_left,
      List.getElem?_append_right (Nat.le_add_right _ _), Nat.add_sub_cancel_left]
  · rw [write_of_lt _ _ (by omega)]
    by_cases hfront : start ≤ address
    · rw [write, if_pos hfront, write, if_pos hfront, List.getElem?_append_left (by omega)]
    · rw [write_of_lt _ _ (by omega), write_of_lt _ _ (by omega)]

/-- A list written over a longer one leaves the tail of the longer one. -/
theorem read_write_over (start : Nat) {front back : List α} (hle : front.length ≤ back.length) :
    ((memory.write start back).write start front).read start back.length =
      front ++ back.drop front.length := by
  obtain ⟨more, hmore⟩ := Nat.exists_eq_add_of_le hle
  have htail := congrArg (List.drop front.length) (read_write memory start back)
  rw [drop_read, hmore, Nat.add_sub_cancel_left] at htail
  rw [hmore, read_add, read_write, read_write_after _ _ (Nat.le_refl _), htail]

theorem read_ofList (cells : List α) (fill : α) :
    (ofList cells fill).read 0 cells.length = cells := by
  apply List.ext_getElem?
  intro index
  by_cases hindex : index < cells.length
  · rw [getElem?_read _ hindex]
    simp [ofList, hindex]
  · rw [List.getElem?_eq_none (by simpa using hindex), List.getElem?_eq_none (by omega)]

end Memory
