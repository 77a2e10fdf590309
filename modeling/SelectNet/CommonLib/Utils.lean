import Mathlib.Algebra.GroupWithZero.Nat
import Mathlib.Algebra.Ring.Int.Defs
import SelectNet.CommonLib.Msg
import SelectNet.Foundation.Loop
import SelectNet.Foundation.Splitting

/-!
# Strings

`strsplit`, `strtrim` and `strcmp_ex` of `Utils.cpp`, over a `std::string` of bytes.
`size_t` has 64 bits and `int` has 32; `strsplit` keeps the lengths as `int`.
-/

namespace SelectNet

/-- `std::string`. Its length is below `max_size()`, half of what a `size_t` can
count. -/
@[ext] structure StdString where
  bytes : List Byte
  length_lt : bytes.length < 2 ^ 63
  deriving DecidableEq

namespace StdString

def length (s : StdString) : Nat := s.bytes.length

/-- `find(mark, pos)`; `none` is `npos`. -/
def find (s mark : StdString) (pos : Nat) : Option Nat :=
  if pos ≤ s.length then (Splitting.first mark.bytes (s.bytes.drop pos)).map (pos + ·) else none

/-- A part of a string. -/
def cut (s : StdString) (pos count : Nat) : StdString :=
  ⟨(s.bytes.drop pos).take count, by
    have hlen := s.length_lt
    rw [List.length_take, List.length_drop]
    omega⟩

/-- `substr(pos, count)`, which throws `out_of_range` for a position behind the end. -/
def substr (s : StdString) (pos count : Nat) : Option StdString :=
  if pos ≤ s.length then some (s.cut pos count) else none

/-- `erase(pos, count)` at a position that is not behind the end. -/
def erase (s : StdString) (pos count : Nat) : StdString :=
  ⟨s.bytes.take pos ++ s.bytes.drop (pos + count), by
    have hlen := s.length_lt
    rw [List.length_append, List.length_take, List.length_drop]
    omega⟩

/-- A `size_t` assigned to an `int`, which keeps the low 32 bits. -/
def toInt (size : Nat) : Int := Int.bmod size (2 ^ 32)

/-- An `int` where a `size_t` is needed. -/
def toSize (value : Int) : Nat := (value % 2 ^ 64).toNat

end StdString

open StdString

/-! ## strsplit -/

/-- What follows the loop. -/
def strsplitTail (src : StdString) (len : Int) (res : List StdString) (begPos : Nat) :
    Option (List StdString) :=
  if begPos < toSize len then
    (src.substr begPos (toSize (len - begPos))).map fun token => res ++ [token]
  else some res

/-- One evaluation of the condition and a pass of the body. An exception leaves
the loop with `none`. -/
def strsplitPass (src split : StdString) (len splitLen : Int) :
    List StdString × Nat → Pass (List StdString × Nat) (Option (List StdString))
  | (res, begPos) =>
      if begPos < toSize len then
        match src.find split begPos with
        | none => .leave (strsplitTail src len res begPos)
        | some findPos =>
            if begPos = findPos then .again (res, (begPos + toSize splitLen) % 2 ^ 64)
            else match src.substr begPos (toSize (findPos - begPos)) with
              | none => .leave none
              | some token => .again (res ++ [token], (findPos + toSize splitLen) % 2 ^ 64)
      else .leave (strsplitTail src len res begPos)

/-- `strsplit(src, split)` with a bound on the passes. It is `none` while the loop
has not ended, and `some none` when it throws. -/
def strsplit (fuel : Nat) (src split : StdString) : Option (Option (List StdString)) :=
  Loop.run (strsplitPass src split (toInt src.length) (toInt split.length)) fuel ([], 0)

/-! ## strtrim -/

def strtrimPass (mark : StdString) (src : StdString) : Pass StdString StdString :=
  match src.find mark 0 with
  | none => .leave src
  | some pos => .again (src.erase pos mark.length)

/-- `strtrim(src, mark)`: what it leaves in `src`. -/
def strtrim (fuel : Nat) (src mark : StdString) : Option StdString :=
  Loop.run (strtrimPass mark) fuel src

/-! ## strcmp_ex -/

/-- How many of the first `cmpLen` characters the loop finds equal before it stops. -/
def strcmpExLoop : Nat → List Byte → List Byte → Nat
  | cmpLen + 1, char0 :: str0, char1 :: str1 =>
      if char0 = char1 then strcmpExLoop cmpLen str0 str1 + 1 else 0
  | _, _, _ => 0

/-- `strcmp_ex(str0, str1, cmpLen)`, given the characters in front of the zeros. -/
def strcmpEx (str0 str1 : List Byte) (cmpLen : Int) : Int :=
  let cmpLen := if cmpLen = -1 then toInt str1.length else cmpLen
  if str0.length < toSize cmpLen ∨ str1.length < toSize cmpLen then -1
  else if strcmpExLoop cmpLen.toNat str0 str1 = cmpLen.toNat then 0
  else -1

end SelectNet
