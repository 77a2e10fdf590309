import Mathlib.Data.List.TakeWhile
import Mathlib.Data.Nat.Find
import SelectNet.Foundation.CString

/-!
# Fields that hold strings

The string in a field of a memory: its cells up to the first zero, or all of them
if there is none. A copied string is found in its field, and copies and writes
elsewhere leave it as it is.
-/

universe u

namespace Memory

variable {α : Type u} [Zero α] [DecidableEq α]

/-- The string in the `limit` cells from `start` on. -/
def cstring (memory : Memory α) (start limit : Nat) : List α :=
  (memory.read start limit).takeWhile (· ≠ 0)

variable {memory other str : Memory α} {dest start limit : Nat}

theorem cstring_congr (hagree : ∀ address, start ≤ address → address < start + limit →
    memory address = other address) : memory.cstring start limit = other.cstring start limit := by
  rw [cstring, cstring, read_congr memory hagree]

/-- The string ends at the first zero. -/
theorem cstring_eq {length : Nat} (hlimit : length < limit) (hzero : memory (start + length) = 0)
    (hsome : ∀ index < length, memory (start + index) ≠ 0) :
    memory.cstring start limit = memory.read start length := by
  obtain ⟨more, rfl⟩ : ∃ more, limit = length + (more + 1) := ⟨limit - length - 1, by omega⟩
  have hfront : ∀ cell ∈ memory.read start length, decide (cell ≠ 0) = true := by
    intro cell hcell
    obtain ⟨index, hindex⟩ := List.mem_iff_getElem?.mp hcell
    have hlt : index < length := by
      have hlen := (List.getElem?_eq_some_iff.mp hindex).1
      rwa [length_read] at hlen
    rw [getElem?_read _ hlt, Option.some.injEq] at hindex
    exact decide_eq_true (hindex ▸ hsome index hlt)
  rw [cstring, read_add, List.takeWhile_append_of_pos hfront, read_succ, hzero,
    List.takeWhile_cons_of_neg (by simp), List.append_nil]

/-- Where a string ends. -/
theorem Terminated.first (hends : str.Terminated limit) :
    ∃ length < limit, str length = 0 ∧ ∀ index < length, str index ≠ 0 := by
  have hexists : ∃ offset, offset < limit ∧ str offset = 0 := hends
  have hfind := Nat.find_spec hexists
  refine ⟨Nat.find hexists, hfind.1, hfind.2, fun index hindex hzero => ?_⟩
  exact Nat.find_min hexists hindex ⟨Nat.lt_trans hindex hfind.1, hzero⟩

/-- A string is as long whatever room is left behind it. -/
theorem Terminated.cstring_of_le (hends : str.Terminated limit) {more : Nat} (hle : limit ≤ more) :
    str.cstring 0 more = str.cstring 0 limit := by
  obtain ⟨length, hlt, hzero, hsome⟩ := hends.first
  rw [← Nat.zero_add length] at hzero
  have hstart : ∀ index < length, str (0 + index) ≠ 0 := by
    intro index hindex
    rw [Nat.zero_add]
    exact hsome index hindex
  rw [cstring_eq hlt hzero hstart, cstring_eq (by omega) hzero hstart]

/-- A string ends in its field if and only if it leaves room there. -/
theorem terminated_behind_iff :
    (memory.behind start).Terminated limit ↔ (memory.cstring start limit).length < limit := by
  constructor
  · intro hends
    obtain ⟨length, hlt, hzero, hsome⟩ := hends.first
    rw [cstring_eq hlt hzero hsome, length_read]
    exact hlt
  · intro hshort
    rw [terminated_iff_mem, read_behind]
    by_contra hnone
    have hall : memory.cstring start limit = memory.read start limit := by
      rw [cstring, List.takeWhile_eq_self_iff]
      intro cell hcell
      exact decide_eq_true fun hzero => hnone (hzero ▸ hcell)
    rw [hall, length_read] at hshort
    exact Nat.lt_irrefl _ hshort

/-! ## Copies -/

theorem strcpy_of_lt {address : Nat} (memory str : Memory α) (hlt : address < dest) :
    memory.strcpy dest str address = memory address :=
  if_neg fun hwrites => Nat.not_le.mpr hlt hwrites.1

/-- A copied string is found where it was copied to. -/
theorem cstring_strcpy (memory : Memory α) (hends : str.Terminated limit) :
    (memory.strcpy dest str).cstring dest limit = str.cstring 0 limit := by
  obtain ⟨length, hlt, hzero, hsome⟩ := hends.first
  have hcopied : ∀ index ≤ length, memory.strcpy dest str (dest + index) = str index := by
    intro index hindex
    have hwrites : str.CopyWrites dest (dest + index) := by
      refine ⟨Nat.le_add_right _ _, fun offset hoffset => hsome offset ?_⟩
      omega
    rw [strcpy, if_pos hwrites, Nat.add_sub_cancel_left]
  have hback : (memory.strcpy dest str).cstring dest limit =
      (memory.strcpy dest str).read dest length := by
    apply cstring_eq hlt
    · rw [hcopied length (Nat.le_refl _), hzero]
    · intro index hindex
      rw [hcopied index (by omega)]
      exact hsome index hindex
  have hfront : str.cstring 0 limit = str.read 0 length := by
    apply cstring_eq hlt
    · rw [Nat.zero_add, hzero]
    · intro index hindex
      rw [Nat.zero_add]
      exact hsome index hindex
  rw [hback, hfront]
  apply List.ext_getElem?
  intro index
  by_cases hindex : index < length
  · rw [getElem?_read _ hindex, getElem?_read _ hindex, hcopied index (by omega), Nat.zero_add]
  · rw [List.getElem?_eq_none (by simpa using hindex),
      List.getElem?_eq_none (by simpa using hindex)]

/-- A field in front of a copy. -/
theorem cstring_strcpy_before (memory str : Memory α) (hle : start + limit ≤ dest) :
    (memory.strcpy dest str).cstring start limit = memory.cstring start limit :=
  cstring_congr fun _ _ hupper => strcpy_of_lt memory str (by omega)

/-- The cells of a field as a string of its own. -/
theorem cstring_behind (memory : Memory α) (start limit : Nat) :
    (memory.behind start).cstring 0 limit = memory.cstring start limit := by
  rw [cstring, cstring, read_behind]

/-- A text without zeros, ended by one. -/
theorem cstring_ofList {cells : List α} (hlen : cells.length < limit) (hsome : 0 ∉ cells) :
    (ofList cells 0).cstring 0 limit = cells := by
  have hback : (ofList cells 0).cstring 0 limit = (ofList cells 0).read 0 cells.length := by
    apply cstring_eq hlen
    · simp [ofList]
    · intro index hindex hzero
      rw [Nat.zero_add, ofList, List.getD_eq_getElem?_getD, List.getElem?_eq_getElem hindex,
        Option.getD_some] at hzero
      exact hsome (hzero ▸ List.getElem_mem hindex)
  rw [hback, read_ofList]

end Memory
