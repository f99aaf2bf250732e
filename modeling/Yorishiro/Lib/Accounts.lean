import Mathlib.Algebra.Order.Group.Defs
import Mathlib.Tactic.Abel

/-!
# Accounts that cover their withdrawals

Deposits to accounts `κ` and withdrawals from them, in amounts of an ordered group. A list of
postings is covered from some balances when each of them, in its turn, has a positive amount
and takes out no more than its account has by then.

Covered postings keep every balance from falling below zero, and stay covered when the
accounts that they withdraw from start with more.
-/

set_option autoImplicit false

namespace Yorishiro.Lib.Accounts

universe u v

/-- A deposit to an account, or a withdrawal from it. -/
inductive Posting (κ : Type u) (M : Type v) where
  | deposit (account : κ) (amount : M)
  | withdraw (account : κ) (amount : M)

variable {κ : Type u} {M : Type v} [DecidableEq κ] [AddCommGroup M]

namespace Posting

/-- The account of a posting. -/
def account : Posting κ M → κ
  | deposit k _ => k
  | withdraw k _ => k

/-- What a posting adds to its account. -/
def change : Posting κ M → M
  | deposit _ n => n
  | withdraw _ n => -n

/-- The balances after a posting. -/
def apply (balance : κ → M) (p : Posting κ M) (k : κ) : M :=
  if p.account = k then balance k + p.change else balance k

theorem apply_of_eq (balance : κ → M) {p : Posting κ M} {k : κ} (h : p.account = k) :
    p.apply balance k = balance k + p.change := if_pos h

theorem apply_of_ne (balance : κ → M) {p : Posting κ M} {k : κ} (h : p.account ≠ k) :
    p.apply balance k = balance k := if_neg h

end Posting

/-! ## Balances -/

/-- The balances after postings, one after the other. -/
def after (balance : κ → M) (ps : List (Posting κ M)) : κ → M := ps.foldl Posting.apply balance

/-- What the postings put into an account. -/
def deposited (k : κ) : List (Posting κ M) → M
  | [] => 0
  | .deposit l n :: ps => if l = k then n + deposited k ps else deposited k ps
  | .withdraw _ _ :: ps => deposited k ps

/-- What the postings take out of an account. -/
def withdrawn (k : κ) : List (Posting κ M) → M
  | [] => 0
  | .deposit _ _ :: ps => withdrawn k ps
  | .withdraw l n :: ps => if l = k then n + withdrawn k ps else withdrawn k ps

@[simp] theorem after_nil (balance : κ → M) : after balance [] = balance := rfl

@[simp] theorem after_cons (balance : κ → M) (p : Posting κ M) (ps : List (Posting κ M)) :
    after balance (p :: ps) = after (p.apply balance) ps := rfl

/-- **A balance is what was put in less what was taken out.** -/
theorem after_eq (balance : κ → M) (ps : List (Posting κ M)) (k : κ) :
    after balance ps k = balance k + deposited k ps - withdrawn k ps := by
  induction ps generalizing balance with
  | nil => simp [deposited, withdrawn]
  | cons p ps ih =>
      rw [after_cons, ih]
      cases p with
      | deposit l n =>
          by_cases hl : l = k
          · rw [Posting.apply_of_eq (p := .deposit l n) balance hl, deposited, withdrawn,
              if_pos hl]
            simp only [Posting.change]
            abel
          · rw [Posting.apply_of_ne (p := .deposit l n) balance hl, deposited, withdrawn,
              if_neg hl]
      | withdraw l n =>
          by_cases hl : l = k
          · rw [Posting.apply_of_eq (p := .withdraw l n) balance hl, deposited, withdrawn,
              if_pos hl]
            simp only [Posting.change]
            abel
          · rw [Posting.apply_of_ne (p := .withdraw l n) balance hl, deposited, withdrawn,
              if_neg hl]

/-! ## Cover -/

variable [LinearOrder M]

/-- The amount is positive, and the account has as much where it is taken out. -/
def Posting.Allowed (balance : κ → M) : Posting κ M → Prop
  | deposit _ n => 0 < n
  | withdraw k n => 0 < n ∧ n ≤ balance k

/-- Every posting is allowed in its turn. -/
def Covered (balance : κ → M) : List (Posting κ M) → Prop
  | [] => True
  | p :: ps => p.Allowed balance ∧ Covered (p.apply balance) ps

theorem covered_append (balance : κ → M) (ps qs : List (Posting κ M)) :
    Covered balance (ps ++ qs) ↔ Covered balance ps ∧ Covered (after balance ps) qs := by
  induction ps generalizing balance with
  | nil => exact (iff_of_eq (true_and _)).symm
  | cons p ps ih =>
      simp only [List.cons_append, Covered, after_cons, ih]
      exact and_assoc.symm

variable [IsOrderedAddMonoid M]

theorem Posting.apply_mono {balance balance' : κ → M} (p : Posting κ M) {k : κ}
    (h : balance k ≤ balance' k) : p.apply balance k ≤ p.apply balance' k := by
  unfold Posting.apply
  split_ifs
  · exact add_le_add_left h p.change
  · exact h

/-- **Monotonicity.** Postings stay covered when the accounts they withdraw from have more. -/
theorem Covered.mono {balance balance' : κ → M} {ps : List (Posting κ M)} (h : Covered balance ps)
    (hle : ∀ k n, .withdraw k n ∈ ps → balance k ≤ balance' k) : Covered balance' ps := by
  induction ps generalizing balance balance' with
  | nil => trivial
  | cons p ps ih =>
      refine ⟨?_, ih h.2 fun k n hmem => p.apply_mono (hle k n (List.mem_cons_of_mem p hmem))⟩
      cases p with
      | deposit k n => exact h.1
      | withdraw k n => exact ⟨h.1.1, h.1.2.trans (hle k n List.mem_cons_self)⟩

/-- An allowed posting keeps the balances from falling below zero. -/
theorem Posting.Allowed.nonneg {balance : κ → M} {p : Posting κ M} (h : p.Allowed balance)
    (hbalance : ∀ k, 0 ≤ balance k) (k : κ) : 0 ≤ p.apply balance k := by
  unfold Posting.apply
  split_ifs with hk
  · cases p with
    | deposit l n => exact add_nonneg (hbalance k) (le_of_lt h)
    | withdraw l n =>
        obtain rfl : l = k := hk
        exact (sub_nonneg.mpr h.2).trans_eq (sub_eq_add_neg _ _)
  · exact hbalance k

/-- **Covered postings never overdraw.** -/
theorem Covered.nonneg {balance : κ → M} {ps : List (Posting κ M)} (h : Covered balance ps)
    (hbalance : ∀ k, 0 ≤ balance k) (k : κ) : 0 ≤ after balance ps k := by
  induction ps generalizing balance with
  | nil => exact hbalance k
  | cons p ps ih => exact ih h.2 (h.1.nonneg hbalance)

/-- An account that nothing is withdrawn from does not fall. -/
theorem Covered.le_after {balance : κ → M} {ps : List (Posting κ M)} (h : Covered balance ps)
    {k : κ} (hk : ∀ n, .withdraw k n ∉ ps) : balance k ≤ after balance ps k := by
  induction ps generalizing balance with
  | nil => exact le_refl _
  | cons p ps ih =>
      refine le_trans ?_ (ih h.2 fun n hn => hk n (List.mem_cons_of_mem p hn))
      unfold Posting.apply
      split_ifs with haccount
      · cases p with
        | deposit l n => exact le_add_of_nonneg_right (le_of_lt h.1)
        | withdraw l n =>
            obtain rfl : l = k := haccount
            exact absurd List.mem_cons_self (hk n)
      · exact le_refl _

end Yorishiro.Lib.Accounts
