import Mathlib.Algebra.BigOperators.Group.List.Basic
import Mathlib.Algebra.GroupWithZero.Nat

/-!
# Numbers with units

A `Quantity` is a number in decimal digits with the unit that follows it, one character. Quantities
written one after the other can be told apart again (`text_injective`): a unit is no digit.
-/

set_option autoImplicit false

namespace Yorishiro.Lib.Quantities

/-- A number and its unit. -/
structure Quantity where
  digits : List Char
  unit : Char
  nonempty : digits ≠ []
  decimal : ∀ c ∈ digits, c.isDigit = true
  unit_not_digit : unit.isDigit = false

namespace Quantity

/-- The value of the digits. -/
def number (q : Quantity) : Nat := Nat.ofDigitChars 10 q.digits 0

/-- The quantity as it is written. -/
def text (q : Quantity) : List Char := q.digits ++ [q.unit]

end Quantity

/-- Quantities one after the other. -/
def text (qs : List Quantity) : List Char := qs.flatMap Quantity.text

/-- The sum of the quantities, for a table that has the values of the units. -/
def total (value : Char → Nat) (qs : List Quantity) : Nat :=
  (qs.map fun q => q.number * value q.unit).sum

@[simp] theorem text_nil : text [] = [] := rfl

@[simp] theorem text_cons (q : Quantity) (qs : List Quantity) :
    text (q :: qs) = q.digits ++ q.unit :: text qs := by
  simp [text, Quantity.text]

theorem text_concat (qs : List Quantity) (q : Quantity) :
    text (qs ++ [q]) = text qs ++ q.digits ++ [q.unit] := by
  simp [text, Quantity.text]

@[simp] theorem total_nil (value : Char → Nat) : total value [] = 0 := rfl

@[simp] theorem total_cons (value : Char → Nat) (q : Quantity) (qs : List Quantity) :
    total value (q :: qs) = q.number * value q.unit + total value qs := rfl

theorem total_concat (value : Char → Nat) (qs : List Quantity) (q : Quantity) :
    total value (qs ++ [q]) = total value qs + q.number * value q.unit := by
  simp [total]

/-- A character of a text of quantities is a digit or one of the units. -/
theorem digit_or_unit_of_mem {qs : List Quantity} {c : Char} (h : c ∈ text qs) :
    c.isDigit = true ∨ ∃ q ∈ qs, q.unit = c := by
  obtain ⟨q, hq, hc⟩ := List.mem_flatMap.mp h
  rcases List.mem_append.mp hc with hdigit | hunit
  · exact Or.inl (q.decimal c hdigit)
  · exact Or.inr ⟨q, hq, (List.mem_singleton.mp hunit).symm⟩

/-- The digits of the first quantity end where its unit is. -/
theorem takeWhile_digits (q : Quantity) (rest : List Char) :
    (q.digits ++ q.unit :: rest).takeWhile Char.isDigit = q.digits := by
  rw [List.takeWhile_append_of_pos q.decimal,
    List.takeWhile_cons_of_neg (by rw [q.unit_not_digit]; decide), List.append_nil]

theorem text_injective : Function.Injective text := by
  intro qs
  induction qs with
  | nil =>
      intro qs' h
      cases qs' with
      | nil => rfl
      | cons q' qs' => simp at h
  | cons q qs ih =>
      intro qs' h
      cases qs' with
      | nil => simp at h
      | cons q' qs' =>
          rw [text_cons, text_cons] at h
          have hdigits : q.digits = q'.digits := by
            rw [← takeWhile_digits q (text qs), h, takeWhile_digits]
          rw [hdigits, List.append_cancel_left_eq, List.cons.injEq] at h
          obtain ⟨hunit, hrest⟩ := h
          cases q
          cases q'
          cases hdigits
          cases hunit
          rw [ih hrest]

end Yorishiro.Lib.Quantities
