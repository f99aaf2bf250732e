import Mathlib.Data.List.Basic

/-!
# Runs of transition systems

A system is a step function `step : σ → ι → σ` on states and labels; a label that
is not enabled leaves the state as it is. `run` takes a list of labels in order,
and `StepsMeet cond` says that every step of a run meets `cond` in the state it
is taken in. `run_invariant` is the invariant rule for such runs.
-/

set_option autoImplicit false

namespace Yorishiro.Lib.Transition

universe u v

variable {σ : Type u} {ι : Type v}

/-- State after the labels are taken in order. -/
def run (step : σ → ι → σ) : σ → List ι → σ
  | s, [] => s
  | s, i :: is => run step (step s i) is

/-- Every step of the run from `s` meets `cond` in the state it is taken in. -/
def StepsMeet (step : σ → ι → σ) (cond : σ → ι → Prop) : σ → List ι → Prop
  | _, [] => True
  | s, i :: is => cond s i ∧ StepsMeet step cond (step s i) is

instance StepsMeet.decidable (step : σ → ι → σ) (cond : σ → ι → Prop)
    [∀ s i, Decidable (cond s i)] : ∀ s is, Decidable (StepsMeet step cond s is)
  | _, [] => .isTrue trivial
  | s, i :: is =>
      have := StepsMeet.decidable step cond (step s i) is
      inferInstanceAs (Decidable (cond s i ∧ StepsMeet step cond (step s i) is))

section Rules

variable {step : σ → ι → σ} {cond : σ → ι → Prop}

@[simp] theorem run_nil (s : σ) : run step s [] = s := rfl

theorem run_append (s : σ) (is js : List ι) :
    run step s (is ++ js) = run step (run step s is) js := by
  induction is generalizing s with
  | nil => rfl
  | cons i is ih => exact ih (step s i)

theorem StepsMeet.imp {cond' : σ → ι → Prop} (h : ∀ s i, cond s i → cond' s i) {s : σ}
    {is : List ι} (hmeet : StepsMeet step cond s is) : StepsMeet step cond' s is := by
  induction is generalizing s with
  | nil => trivial
  | cons i is ih => exact ⟨h s i hmeet.1, ih hmeet.2⟩

theorem StepsMeet.of_forall (h : ∀ s i, cond s i) (s : σ) (is : List ι) :
    StepsMeet step cond s is := by
  induction is generalizing s with
  | nil => trivial
  | cons i is ih => exact ⟨h s i, ih (step s i)⟩

theorem StepsMeet.of_mem {p : ι → Prop} {is : List ι} (h : ∀ i ∈ is, p i) (s : σ) :
    StepsMeet step (fun _ i => p i) s is := by
  induction is generalizing s with
  | nil => trivial
  | cons i is ih =>
      exact ⟨h i List.mem_cons_self, ih (fun j hj => h j (List.mem_cons_of_mem _ hj)) (step s i)⟩

theorem StepsMeet.append {s : σ} {is js : List ι} (h : StepsMeet step cond s (is ++ js)) :
    StepsMeet step cond s is ∧ StepsMeet step cond (run step s is) js := by
  induction is generalizing s with
  | nil => exact ⟨trivial, h⟩
  | cons i is ih =>
      obtain ⟨his, hjs⟩ := ih h.2
      exact ⟨⟨h.1, his⟩, hjs⟩

/-- The steps of a run are taken in the states after its beginnings. -/
theorem StepsMeet.of_prefix {s : σ} {is : List ι}
    (h : ∀ js i, js ++ [i] <+: is → cond (run step s js) i) : StepsMeet step cond s is := by
  induction is generalizing s with
  | nil => trivial
  | cons i is ih =>
      refine ⟨h [] i (List.cons_prefix_cons.mpr ⟨rfl, List.nil_prefix⟩), ih fun js j hjs => ?_⟩
      exact h (i :: js) j (List.cons_prefix_cons.mpr ⟨rfl, hjs⟩)

/-- **Invariant rule.** A predicate that every conditioned step preserves holds at
the end of every run whose steps meet the condition. -/
theorem run_invariant (Inv : σ → Prop) (hstep : ∀ s i, Inv s → cond s i → Inv (step s i))
    {s : σ} {is : List ι} (hs : Inv s) (hmeet : StepsMeet step cond s is) :
    Inv (run step s is) := by
  induction is generalizing s with
  | nil => exact hs
  | cons i is ih => exact ih (hstep s i hs hmeet.1) hmeet.2

/-- **Exactness rule.** Where a step keeps a predicate exactly if it meets the condition, the
predicate holds all along a run exactly if every step of the run meets the condition. -/
theorem run_invariant_iff {Inv : σ → Prop} (hstep : ∀ s i, Inv s → (Inv (step s i) ↔ cond s i))
    {s : σ} {is : List ι} (hs : Inv s) :
    (∀ js, js <+: is → Inv (run step s js)) ↔ StepsMeet step cond s is := by
  induction is generalizing s with
  | nil =>
      refine ⟨fun _ => trivial, fun _ js hjs => ?_⟩
      rw [List.prefix_nil.mp hjs]
      exact hs
  | cons i is ih =>
      constructor
      · intro h
        have hnext : Inv (step s i) := h [i] (List.cons_prefix_cons.mpr ⟨rfl, List.nil_prefix⟩)
        exact ⟨(hstep s i hs).mp hnext,
          (ih hnext).mp fun js hjs => h (i :: js) (List.cons_prefix_cons.mpr ⟨rfl, hjs⟩)⟩
      · rintro ⟨hcond, hrest⟩ js hjs
        cases js with
        | nil => exact hs
        | cons j js =>
            obtain ⟨rfl, htail⟩ := List.cons_prefix_cons.mp hjs
            exact (ih ((hstep s j hs).mpr hcond)).mpr hrest js htail

end Rules

end Yorishiro.Lib.Transition
