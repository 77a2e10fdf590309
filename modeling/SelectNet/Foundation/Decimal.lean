import Mathlib.Data.Nat.Digits.Lemmas

/-!
# Decimal numbers in a text

How C reads an `int` from a string of bytes, and the decimal text of a number,
which is read back as that number.
-/

namespace Decimal

/-- `isdigit`. -/
def isDigit (cell : UInt8) : Bool := decide (48 ≤ cell.toNat ∧ cell.toNat ≤ 57)

/-- `isspace`. -/
def isSpace (cell : UInt8) : Bool :=
  decide (cell.toNat = 32 ∨ 9 ≤ cell.toNat ∧ cell.toNat ≤ 13)

/-- The number that digits stand for. -/
def value (digits : List UInt8) : Nat :=
  digits.foldl (fun number cell => 10 * number + (cell.toNat - 48)) 0

/-- Behind spaces an optional sign, and digits as far as there are any. -/
def parse (text : List UInt8) : Int :=
  match text.dropWhile isSpace with
  | [] => 0
  | cell :: rest =>
      if cell.toNat = 45 then -(value (rest.takeWhile isDigit) : Int)
      else if cell.toNat = 43 then value (rest.takeWhile isDigit)
      else value ((cell :: rest).takeWhile isDigit)

/-- `atoi`, which is undefined where the number is no `int`. -/
def atoi (text : List UInt8) : Option Int :=
  if -2 ^ 31 ≤ parse text ∧ parse text < 2 ^ 31 then some (parse text) else none

def digit (number : Nat) : UInt8 := UInt8.ofNat (48 + number)

/-- The digits of a number, the first one not 0 if there are others. -/
def natText (number : Nat) : List UInt8 :=
  if number = 0 then [48] else (Nat.digits 10 number).reverse.map digit

/-- The decimal text of a number. -/
def text (number : Int) : List UInt8 :=
  if number < 0 then 45 :: natText number.natAbs else natText number.natAbs

variable {cell : UInt8} {number : Nat}

theorem digit_toNat (hdigit : number < 10) : (digit number).toNat = 48 + number := by
  rw [digit, UInt8.toNat_ofNat']
  omega

theorem isDigit_of_mem (hmem : cell ∈ natText number) : isDigit cell = true := by
  unfold natText at hmem
  split at hmem
  next =>
    rw [List.mem_singleton] at hmem
    subst hmem
    rfl
  next =>
    obtain ⟨place, hplace, rfl⟩ := List.mem_map.mp hmem
    have hlt := Nat.digits_lt_base (by decide) (List.mem_reverse.mp hplace)
    rw [isDigit, digit_toNat hlt]
    exact decide_eq_true (by omega)

theorem natText_ne_nil (number : Nat) : natText number ≠ [] := by
  unfold natText
  split
  next => exact List.cons_ne_nil _ _
  next hne =>
    rw [ne_eq, List.map_eq_nil_iff, List.reverse_eq_nil_iff]
    exact Nat.digits_ne_nil_iff_ne_zero.mpr hne

/-- The digits, low ones first, stand for what they make. -/
theorem value_reverse {places : List Nat} (hplaces : ∀ place ∈ places, place < 10) :
    value (places.reverse.map digit) = Nat.ofDigits 10 places := by
  induction places with
  | nil => rfl
  | cons place places ih =>
      obtain ⟨hplace, hrest⟩ := List.forall_mem_cons.mp hplaces
      have hvalue := ih hrest
      rw [value] at hvalue ⊢
      rw [List.reverse_cons, List.map_append, List.foldl_append, hvalue, List.map_singleton,
        List.foldl_cons, List.foldl_nil, digit_toNat hplace, Nat.ofDigits_cons]
      omega

theorem value_natText (number : Nat) : value (natText number) = number := by
  unfold natText
  split
  next hzero =>
    rw [hzero]
    rfl
  next =>
    rw [value_reverse fun place hplace => Nat.digits_lt_base (by decide) hplace,
      Nat.ofDigits_digits]

/-- Nothing behind the digits is read. -/
theorem takeWhile_natText {rest : List UInt8} (hrest : ∀ cell ∈ rest.head?, isDigit cell = false) :
    (natText number ++ rest).takeWhile isDigit = natText number := by
  rw [List.takeWhile_append_of_pos fun cell hcell => isDigit_of_mem hcell]
  cases rest with
  | nil => rw [List.takeWhile_nil, List.append_nil]
  | cons cell rest =>
      rw [List.takeWhile_cons_of_neg (by simp [hrest cell rfl]), List.append_nil]

/-- A number is read back from its text, whatever follows that is no digit. -/
theorem parse_text (number : Int) {rest : List UInt8}
    (hrest : ∀ cell ∈ rest.head?, isDigit cell = false) : parse (text number ++ rest) = number := by
  unfold text
  split
  next hneg =>
    have hspace : isSpace 45 = false := by decide
    rw [parse, List.cons_append, List.dropWhile_cons_of_neg (by simp [hspace])]
    simp only [takeWhile_natText hrest, value_natText]
    exact (if_pos rfl).trans (by omega)
  next hpos =>
    obtain ⟨cell, digits, hdigits⟩ := List.exists_cons_of_ne_nil (natText_ne_nil number.natAbs)
    have hcell : isDigit cell = true :=
      isDigit_of_mem (show cell ∈ natText number.natAbs from hdigits ▸ List.mem_cons_self)
    have hrange : 48 ≤ cell.toNat ∧ cell.toNat ≤ 57 := of_decide_eq_true hcell
    have hspace : isSpace cell = false := by
      rw [isSpace]
      exact decide_eq_false (by omega)
    have htake : (natText number.natAbs ++ rest).takeWhile isDigit = natText number.natAbs :=
      takeWhile_natText hrest
    rw [hdigits, List.cons_append] at htake
    rw [parse, hdigits, List.cons_append, List.dropWhile_cons_of_neg (by simp [hspace])]
    simp only [htake, ← hdigits, value_natText]
    rw [if_neg (by omega), if_neg (by omega)]
    omega

/-- `atoi` of the text of an `int`. -/
theorem atoi_text {number : Int} (hmin : -2 ^ 31 ≤ number) (hmax : number < 2 ^ 31) :
    atoi (text number) = some number := by
  have hparse : parse (text number ++ []) = number := parse_text number nofun
  rw [List.append_nil] at hparse
  rw [atoi, hparse, if_pos ⟨hmin, hmax⟩]

theorem length_natText (hlt : number < 10 ^ 10) : (natText number).length ≤ 10 := by
  unfold natText
  split
  next => decide
  next =>
    rw [List.length_map, List.length_reverse]
    exact (Nat.digits_length_le_iff (by decide) number).mpr hlt

theorem length_text {number : Int} (hmin : -2 ^ 31 ≤ number) (hmax : number < 2 ^ 31) :
    (text number).length ≤ 11 := by
  have hlength : (natText number.natAbs).length ≤ 10 := length_natText (by omega)
  unfold text
  split
  next => rw [List.length_cons]; omega
  next => omega

/-- The bytes of a decimal text. -/
theorem mem_text {number : Int} (hmem : cell ∈ text number) :
    cell = 45 ∨ isDigit cell = true := by
  unfold text at hmem
  split at hmem
  next =>
    rcases List.mem_cons.mp hmem with rfl | hdigit
    · exact Or.inl rfl
    · exact Or.inr (isDigit_of_mem hdigit)
  next => exact Or.inr (isDigit_of_mem hmem)

end Decimal
