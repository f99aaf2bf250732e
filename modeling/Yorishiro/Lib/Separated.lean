import Mathlib.Data.List.Basic
import Mathlib.Data.List.TakeWhile

/-!
# Texts cut at separators

A text is cut at the first separator (`splitOnce`), at the last one (`rsplitOnce`), at the first
few of them (`splitn`) or at all (`List.splitOn`). Each cut is found again in the text
(`splitOnce_eq_some_iff`, `rsplitOnce_eq_some_iff`, `splitOn_eq_pair_iff`), and parts without
separators, each after one, can be told apart (`joined_injective`).
-/

set_option autoImplicit false

namespace Yorishiro.Lib.Separated

variable {α : Type} [DecidableEq α] {sep : α}

/-! ## Cutting once -/

/-- What is before and after the first separator. -/
def splitOnce (sep : α) (text : List α) : Option (List α × List α) :=
  if sep ∈ text then
    some (text.takeWhile fun c => c ≠ sep, (text.dropWhile fun c => c ≠ sep).tail)
  else none

/-- What is before and after the last separator. -/
def rsplitOnce (sep : α) (text : List α) : Option (List α × List α) :=
  (splitOnce sep text.reverse).map fun parts => (parts.2.reverse, parts.1.reverse)

theorem splitOnce_append {before : List α} (h : sep ∉ before) (after : List α) :
    splitOnce sep (before ++ sep :: after) = some (before, after) := by
  have hall : ∀ c ∈ before, decide (c ≠ sep) = true := fun c hc =>
    decide_eq_true fun heq => h (heq ▸ hc)
  rw [splitOnce, if_pos (List.mem_append_right _ List.mem_cons_self),
    List.takeWhile_append_of_pos hall, List.dropWhile_append_of_pos hall]
  simp

theorem splitOnce_of_notMem {text : List α} (h : sep ∉ text) : splitOnce sep text = none :=
  if_neg h

theorem splitOnce_eq_some_iff {text before after : List α} :
    splitOnce sep text = some (before, after) ↔ sep ∉ before ∧ text = before ++ sep :: after := by
  constructor
  · intro h
    have hmem : sep ∈ text := by
      by_contra hnone
      rw [splitOnce_of_notMem hnone] at h
      cases h
    obtain ⟨b, a, rfl, hb⟩ := List.eq_append_cons_of_mem hmem
    rw [splitOnce_append hb] at h
    cases h
    exact ⟨hb, rfl⟩
  · rintro ⟨h, rfl⟩
    exact splitOnce_append h after

theorem rsplitOnce_append {after : List α} (h : sep ∉ after) (before : List α) :
    rsplitOnce sep (before ++ sep :: after) = some (before, after) := by
  have hreverse : (before ++ sep :: after).reverse = after.reverse ++ sep :: before.reverse := by
    simp
  rw [rsplitOnce, hreverse, splitOnce_append (by simpa using h)]
  simp

theorem rsplitOnce_eq_some_iff {text before after : List α} :
    rsplitOnce sep text = some (before, after) ↔ sep ∉ after ∧ text = before ++ sep :: after := by
  constructor
  · intro h
    obtain ⟨⟨a, b⟩, hsplit, hparts⟩ := Option.map_eq_some_iff.mp h
    cases hparts
    obtain ⟨hnot, htext⟩ := splitOnce_eq_some_iff.mp hsplit
    refine ⟨by simpa using hnot, ?_⟩
    rw [← List.reverse_reverse text, htext]
    simp
  · rintro ⟨h, rfl⟩
    exact rsplitOnce_append h before

/-- What comes after a start that is known. -/
theorem dropPrefix_eq_some_iff {text start rest : List α} :
    text.dropPrefix? start = some rest ↔ text = start ++ rest := by
  rw [List.dropPrefix?_eq_some_iff]
  constructor
  · rintro ⟨p, rfl, hp⟩
    rw [beq_iff_eq.mp hp]
  · intro h
    exact ⟨start, h, beq_self_eq_true start⟩

/-! ## Cutting several times -/

/-- At most `n` parts, cut at the first separators. -/
def splitn (sep : α) : Nat → List α → List (List α)
  | 0, _ => []
  | 1, text => [text]
  | n + 2, text =>
      match splitOnce sep text with
      | none => [text]
      | some (before, after) => before :: splitn sep (n + 1) after

/-- The first of several parts. -/
theorem splitn_eq_cons_iff {n : Nat} {text part : List α} {parts : List (List α)}
    (hparts : parts ≠ []) :
    splitn sep (n + 2) text = part :: parts ↔
      ∃ rest, sep ∉ part ∧ text = part ++ sep :: rest ∧ splitn sep (n + 1) rest = parts := by
  rw [splitn]
  cases hsplit : splitOnce sep text with
  | none =>
      refine iff_of_false (fun h => hparts (List.cons.inj h).2.symm) ?_
      rintro ⟨rest, hnot, htext, -⟩
      rw [splitOnce_eq_some_iff.mpr ⟨hnot, htext⟩] at hsplit
      cases hsplit
  | some cut =>
      obtain ⟨before, after⟩ := cut
      constructor
      · intro h
        obtain ⟨rfl, hrest⟩ := List.cons.inj h
        obtain ⟨hnot, htext⟩ := splitOnce_eq_some_iff.mp hsplit
        exact ⟨after, hnot, htext, hrest⟩
      · rintro ⟨rest, hnot, htext, hrest⟩
        rw [splitOnce_eq_some_iff.mpr ⟨hnot, htext⟩] at hsplit
        cases hsplit
        exact congrArg _ hrest

theorem notMem_of_mem_splitOn {text part : List α} (h : part ∈ text.splitOn sep) : sep ∉ part := by
  induction text generalizing part with
  | nil =>
      rw [List.splitOn_nil, List.mem_singleton] at h
      rw [h]
      exact List.not_mem_nil
  | cons c text ih =>
      obtain ⟨first, rest, hparts⟩ := List.exists_cons_of_ne_nil (List.splitOn_ne_nil sep text)
      rw [hparts] at ih
      rw [List.splitOn_cons_eq_if_modifyHead, hparts] at h
      split at h
      · rcases List.mem_cons.mp h with rfl | hrest
        · exact List.not_mem_nil
        · exact ih hrest
      · rename_i hc
        rw [List.modifyHead_cons] at h
        rcases List.mem_cons.mp h with rfl | hrest
        · intro hmem
          rcases List.mem_cons.mp hmem with heq | hfirst
          · exact hc (beq_iff_eq.mpr heq.symm)
          · exact ih List.mem_cons_self hfirst
        · exact ih (List.mem_cons_of_mem _ hrest)

/-- Two parts of a text that is cut at all separators. -/
theorem splitOn_eq_pair_iff {text key value : List α} :
    text.splitOn sep = [key, value] ↔ text = key ++ sep :: value ∧ sep ∉ key ∧ sep ∉ value := by
  constructor
  · intro h
    have hparts : ∀ part ∈ [key, value], sep ∉ part := fun part hpart =>
      notMem_of_mem_splitOn (h ▸ hpart)
    have htext : [sep].intercalate (text.splitOn sep) = text := List.intercalate_splitOn sep
    rw [h] at htext
    refine ⟨?_, hparts key List.mem_cons_self,
      hparts value (List.mem_cons_of_mem _ List.mem_cons_self)⟩
    simpa [List.intercalate] using htext.symm
  · rintro ⟨rfl, hkey, hvalue⟩
    rw [List.splitOn_append_cons_self_of_not_mem hkey, List.splitOn_eq_singleton hvalue]

/-! ## Parts after separators -/

/-- The parts, each after a separator. -/
def joined (sep : α) (parts : List (List α)) : List α := parts.flatMap fun part => sep :: part

theorem splitOn_append_joined {part : List α} {parts : List (List α)} (hpart : sep ∉ part)
    (hparts : ∀ x ∈ parts, sep ∉ x) :
    (part ++ joined sep parts).splitOn sep = part :: parts := by
  induction parts generalizing part with
  | nil =>
      rw [joined, List.flatMap_nil, List.append_nil]
      exact List.splitOn_eq_singleton hpart
  | cons next parts ih =>
      obtain ⟨hnext, hrest⟩ := List.forall_mem_cons.mp hparts
      rw [joined, List.flatMap_cons, List.cons_append,
        List.splitOn_append_cons_self_of_not_mem hpart]
      exact congrArg _ (ih hnext hrest)

/-- **Parts without separators can be told apart.** -/
theorem joined_injective {xs ys : List (List α)} (hxs : ∀ x ∈ xs, sep ∉ x)
    (hys : ∀ y ∈ ys, sep ∉ y) (h : joined sep xs = joined sep ys) : xs = ys := by
  have hnil : sep ∉ ([] : List α) := List.not_mem_nil
  have hx := splitOn_append_joined hnil hxs
  have hy := splitOn_append_joined hnil hys
  rw [h, hy] at hx
  exact (List.cons.inj hx).2.symm

end Yorishiro.Lib.Separated
