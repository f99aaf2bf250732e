import Mathlib.Data.List.DropRight

/-!
# Lines of a text

A text is cut into lines at the newlines that end them (`splitLines`), and a line is read without
the blank characters around it (`trim`). Lines without newlines, written one after the other, are
read back as they are (`splitLines_flatMap`).
-/

set_option autoImplicit false

namespace Yorishiro.Lib.Lines

/-- The lines of a text. Nothing follows the newline that ends the last one. -/
def splitLines : List Char → List (List Char)
  | [] => []
  | c :: cs =>
      if c = '\n' then [] :: splitLines cs
      else
        match splitLines cs with
        | [] => [[c]]
        | line :: lines => (c :: line) :: lines

theorem splitLines_append {line : List Char} (h : '\n' ∉ line) (rest : List Char) :
    splitLines (line ++ '\n' :: rest) = line :: splitLines rest := by
  induction line with
  | nil => rfl
  | cons c cs ih =>
      have hc : c ≠ '\n' := fun heq => h (heq ▸ List.mem_cons_self)
      have hcs : '\n' ∉ cs := fun hmem => h (List.mem_cons_of_mem c hmem)
      simp only [List.cons_append, splitLines, if_neg hc, ih hcs]

/-- Lines that are written are read back. -/
theorem splitLines_flatMap {lines : List (List Char)} (h : ∀ line ∈ lines, '\n' ∉ line) :
    splitLines (lines.flatMap fun line => line ++ ['\n']) = lines := by
  induction lines with
  | nil => rfl
  | cons line lines ih =>
      rw [List.flatMap_cons, List.append_assoc, List.singleton_append,
        splitLines_append (h line List.mem_cons_self), ih fun l hl => h l (List.mem_cons_of_mem _ hl)]

/-- The line without the blank characters at its ends. -/
def trim (blank : Char → Bool) (line : List Char) : List Char :=
  (line.dropWhile blank).rdropWhile blank

/-- A line that begins and ends with other characters has none to lose. -/
theorem trim_eq_self {blank : Char → Bool} {a b : Char} (ha : blank a = false)
    (hb : blank b = false) (middle : List Char) :
    trim blank (a :: middle ++ [b]) = a :: middle ++ [b] := by
  unfold trim
  rw [List.cons_append, List.dropWhile_cons_of_neg (by simp [ha]), ← List.cons_append,
    List.rdropWhile_concat_neg _ _ _ (by simp [hb])]

end Yorishiro.Lib.Lines
