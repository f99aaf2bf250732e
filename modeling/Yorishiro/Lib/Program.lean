import Yorishiro.Lib.OrderedMap

/-!
# Transactions as programs

A transaction reads and writes the rows of one table `κ → α`, one SQL statement at
a time, and reads and changes everything else in the database (`β`) as a whole. A
`Prog` is such a transaction: the next statement, and how the transaction goes on
from the statement's result. Writing a row stamps it with what the database or the
clock supplies (`τ`). A program ends by committing a result or by rolling back.

`Prog.wp` is a weakest precondition for partial correctness. It is independent of
what other transactions do: a `World` says what is known of every row and table
that a statement may meet, and a `Contract` says what a write may assume of the row
it finds (`calm`) and what it guarantees (`writes`). The rules are `wp_bind`, one
rule for each statement, `wp_mono` and the loop rule `wp_foldlM`.

`Prog.alone` runs a program by itself. `alone_sound` says that a program with a
weakest precondition keeps the world, where each write finds the row as it was
before the program started. `Prog.ends` is the weakest precondition of such a run,
with a postcondition on the store it leaves and one on the error it ends with.
-/

set_option autoImplicit false

namespace Yorishiro.Lib

variable {κ α β τ ε ρ σ : Type}

/-- A transaction: its next statement and what follows it. -/
inductive Prog (κ α β τ ε ρ : Type) where
  | ret (r : ρ)
  | abort (e : ε)
  | select (p : β → κ → α → Bool) (cont : List (κ × α) → Prog κ α β τ ε ρ)
  | tables (cont : β → Prog κ α β τ ε ρ)
  | amend (f : (κ → Option α) → β → β × Nat) (cont : Nat → Prog κ α β τ ε ρ)
  | lock (k : κ) (cont : Prog κ α β τ ε ρ)
  | write (k : κ) (p : α → Bool) (act : τ → α → Option α)
      (cont : Option (Option α) → Prog κ α β τ ε ρ)

namespace Prog

/-! ## Statements in sequence -/

/-- Continues with `f` where the first program would have committed. -/
def bind : Prog κ α β τ ε ρ → (ρ → Prog κ α β τ ε σ) → Prog κ α β τ ε σ
  | ret r, f => f r
  | abort e, _ => abort e
  | select p cont, f => select p fun rows => (cont rows).bind f
  | tables cont, f => tables fun b => (cont b).bind f
  | amend g cont, f => amend g fun n => (cont n).bind f
  | lock k cont, f => lock k (cont.bind f)
  | write k p act cont, f => write k p act fun o => (cont o).bind f

instance : Monad (Prog κ α β τ ε) where
  pure := ret
  bind := bind

/-- `SELECT` of the rows that satisfy `p`, which may look into the other tables. -/
def rows (p : β → κ → α → Bool) : Prog κ α β τ ε (List (κ × α)) := select p ret

/-- A statement that reads the other tables. -/
def read : Prog κ α β τ ε β := tables ret

/-- A statement that changes the other tables; it may copy from the rows. Its result is
the number of records it changed. -/
def change (f : (κ → Option α) → β → β × Nat) : Prog κ α β τ ε Nat := amend f ret

/-- `SELECT ... FOR UPDATE` of one row. -/
def lockRow (k : κ) : Prog κ α β τ ε Unit := lock k (ret ())

/-- `UPDATE` or `DELETE` of row `k`, filtered by `p`: if it found the row, what it left. -/
def update (k : κ) (p : α → Bool) (act : τ → α → Option α) :
    Prog κ α β τ ε (Option (Option α)) :=
  write k p act ret

/-- Continues with the result of a fallible computation, or rolls back. -/
def ofExcept : Except ε ρ → Prog κ α β τ ε ρ
  | .ok r => ret r
  | .error e => abort e

end Prog

/-! ## Running alone -/

/-- The contents of a database: the rows and everything else. -/
structure Store (κ : Type) [LinearOrder κ] (α β : Type) where
  rows : OrderedMap κ α
  tables : β

/-- Writes a row, or removes it. -/
def OrderedMap.put [LinearOrder κ] (m : OrderedMap κ α) (k : κ) : Option α → OrderedMap κ α
  | some x => m.insert k x
  | none => m.erase k

@[simp] theorem OrderedMap.get?_put [LinearOrder κ] (m : OrderedMap κ α) (k l : κ)
    (o : Option α) : (m.put k o).get? l = if l = k then o else m.get? l := by
  cases o <;> simp [put]

/-- The rows a selection returns. -/
def OrderedMap.select [LinearOrder κ] (m : OrderedMap κ α) (p : κ → α → Bool) : List (κ × α) :=
  m.entries.filter fun e => p e.1 e.2

theorem OrderedMap.mem_select [LinearOrder κ] {m : OrderedMap κ α} {p : κ → α → Bool}
    {e : κ × α} : e ∈ m.select p ↔ m.get? e.1 = some e.2 ∧ p e.1 e.2 = true := by
  rw [select, List.mem_filter, ← mem_entries_iff]

theorem OrderedMap.nodup_select [LinearOrder κ] (m : OrderedMap κ α) (p : κ → α → Bool) :
    ((m.select p).map Prod.fst).Nodup := by
  have hkeys : (m.select p).Pairwise fun a b => a.1 ≠ b.1 :=
    (m.sorted.filter _).imp fun hlt => ne_of_lt hlt
  exact List.pairwise_map.mpr hkeys

/-- Runs a program with no other transaction around; `n` counts its writes. -/
def Prog.alone [LinearOrder κ] (stamps : Nat → τ) :
    Prog κ α β τ ε ρ → Nat → Store κ α β → Except ε (ρ × Store κ α β)
  | .ret r, _, s => .ok (r, s)
  | .abort e, _, _ => .error e
  | .select p cont, n, s => (cont (s.rows.select (p s.tables))).alone stamps n s
  | .tables cont, n, s => (cont s.tables).alone stamps n s
  | .amend f cont, n, s =>
      (cont (f s.rows.get? s.tables).2).alone stamps n
        { s with tables := (f s.rows.get? s.tables).1 }
  | .lock _ cont, n, s => cont.alone stamps n s
  | .write k p act cont, n, s =>
      match (s.rows.get? k).filter p with
      | some x =>
          -- the statement's result tells the program what it left of the row
          (cont (some (act (stamps n) x))).alone stamps (n + 1)
            { s with rows := s.rows.put k (act (stamps n) x) }
      | none => (cont none).alone stamps n s

/-! ## Weakest preconditions -/

/-- What is known of every row and of the other tables. -/
structure World (κ α β : Type) where
  row : κ → α → Prop
  table : β → Prop

/-- What a write of a transaction may assume of the row it finds, and what it
guarantees, given the rows the transaction has read and the keys it has written. -/
structure Contract (κ α τ : Type) where
  calm : List (κ × α) → List κ → κ → α → Prop
  writes : List (κ × α) → List κ → κ → τ → α → Option α → Prop

namespace Prog

variable (W : World κ α β) (C : Contract κ α τ)

/-- From a point where it has read `seen` and written `wrote`, the program keeps the
world and its contract, and ends in `post` if it commits. -/
def wp : Prog κ α β τ ε ρ → (List (κ × α) → List κ → ρ → Prop) → List (κ × α) → List κ → Prop
  | ret r, post, seen, wrote => post seen wrote r
  | abort _, _, _, _ => True
  | select p cont, post, seen, wrote =>
      ∀ b (rows : List (κ × α)), W.table b → (rows.map Prod.fst).Nodup →
        (∀ e ∈ rows, W.row e.1 e.2 ∧ p b e.1 e.2 = true) →
        (cont rows).wp post (seen ++ rows) wrote
  | tables cont, post, seen, wrote => ∀ b, W.table b → (cont b).wp post seen wrote
  | amend f cont, post, seen, wrote =>
      (∀ look b, (∀ k x, look k = some x → W.row k x) → W.table b → W.table (f look b).1) ∧
        ∀ n, (cont n).wp post seen wrote
  | lock _ cont, post, seen, wrote => cont.wp post seen wrote
  | write k p act cont, post, seen, wrote =>
      -- only a calm write owes the contract; the program goes on after any write it performs
      (∀ stamp x, W.row k x → p x = true → C.calm seen wrote k x →
        C.writes seen wrote k stamp x (act stamp x) ∧ ∀ y, act stamp x = some y → W.row k y) ∧
      (∀ stamp x, W.row k x → p x = true →
        (cont (some (act stamp x))).wp post seen (wrote ++ [k])) ∧
      (cont none).wp post seen wrote

section Rules

variable {W C} {post : List (κ × α) → List κ → ρ → Prop} {seen : List (κ × α)} {wrote : List κ}

@[simp] theorem wp_pure (r : ρ) :
    wp W C (pure r : Prog κ α β τ ε ρ) post seen wrote ↔ post seen wrote r := Iff.rfl

@[simp] theorem wp_abort (e : ε) : wp W C (abort e : Prog κ α β τ ε ρ) post seen wrote ↔ True :=
  Iff.rfl

theorem wp_bind (p : Prog κ α β τ ε σ) (f : σ → Prog κ α β τ ε ρ) :
    wp W C (p >>= f) post seen wrote ↔
      wp W C p (fun seen wrote r => wp W C (f r) post seen wrote) seen wrote := by
  change wp W C (p.bind f) post seen wrote ↔ _
  -- the ghost lists grow along the program, so they are generalised
  induction p generalizing seen wrote with
  | ret r => exact Iff.rfl
  | abort e => exact Iff.rfl
  | select p cont ih => simp only [bind, wp, ih]
  | tables cont ih => simp only [bind, wp, ih]
  | amend g cont ih => simp only [bind, wp, ih]
  | lock k cont ih => simp only [bind, wp, ih]
  | write k p act cont ih => simp only [bind, wp, ih]

theorem wp_mono {post' : List (κ × α) → List κ → ρ → Prop} {p : Prog κ α β τ ε ρ}
    (h : wp W C p post seen wrote) (hpost : ∀ seen wrote r, post seen wrote r → post' seen wrote r) :
    wp W C p post' seen wrote := by
  induction p generalizing seen wrote with
  | ret r => exact hpost _ _ _ h
  | abort e => trivial
  | select p cont ih =>
      intro b rows hb hnodup hrows
      exact ih rows (h b rows hb hnodup hrows)
  | tables cont ih =>
      intro b hb
      exact ih b (h b hb)
  | amend f cont ih => exact ⟨h.1, fun n => ih n (h.2 n)⟩
  | lock k cont ih => exact ih h
  | write k p act cont ih =>
      exact ⟨h.1, fun stamp x hx hp => ih _ (h.2.1 stamp x hx hp), ih none h.2.2⟩

theorem wp_rows (p : β → κ → α → Bool) {post : List (κ × α) → List κ → List (κ × α) → Prop} :
    wp W C (rows p : Prog κ α β τ ε _) post seen wrote ↔
      ∀ b (rows : List (κ × α)), W.table b → (rows.map Prod.fst).Nodup →
        (∀ e ∈ rows, W.row e.1 e.2 ∧ p b e.1 e.2 = true) → post (seen ++ rows) wrote rows :=
  Iff.rfl

theorem wp_read {post : List (κ × α) → List κ → β → Prop} :
    wp W C (read : Prog κ α β τ ε β) post seen wrote ↔
      ∀ b, W.table b → post seen wrote b := Iff.rfl

theorem wp_change (f : (κ → Option α) → β → β × Nat)
    {post : List (κ × α) → List κ → Nat → Prop} :
    wp W C (change f : Prog κ α β τ ε Nat) post seen wrote ↔
      (∀ look b, (∀ k x, look k = some x → W.row k x) → W.table b → W.table (f look b).1) ∧
        ∀ n, post seen wrote n := Iff.rfl

theorem wp_lockRow (k : κ) {post : List (κ × α) → List κ → Unit → Prop} :
    wp W C (lockRow k : Prog κ α β τ ε Unit) post seen wrote ↔ post seen wrote () := Iff.rfl

theorem wp_update (k : κ) (p : α → Bool) (act : τ → α → Option α)
    {post : List (κ × α) → List κ → Option (Option α) → Prop} :
    wp W C (update k p act : Prog κ α β τ ε _) post seen wrote ↔
      (∀ stamp x, W.row k x → p x = true → C.calm seen wrote k x →
        C.writes seen wrote k stamp x (act stamp x) ∧ ∀ y, act stamp x = some y → W.row k y) ∧
      (∀ stamp x, W.row k x → p x = true → post seen (wrote ++ [k]) (some (act stamp x))) ∧
      post seen wrote none := Iff.rfl

theorem wp_ofExcept (r : Except ε ρ) :
    wp W C (ofExcept r : Prog κ α β τ ε ρ) post seen wrote ↔
      ∀ x, r = .ok x → post seen wrote x := by
  cases r with
  | error e => exact iff_of_true trivial fun x hx => by cases hx
  | ok x => exact ⟨fun h y hy => by cases hy; exact h, fun h => h x rfl⟩

/-- **Loop rule.** The invariant speaks about the elements still to come. -/
theorem wp_foldlM {γ : Type} (body : σ → γ → Prog κ α β τ ε σ)
    (Inv : List γ → List (κ × α) → List κ → σ → Prop)
    (hbody : ∀ g gs seen wrote acc, Inv (g :: gs) seen wrote acc →
      wp W C (body acc g) (Inv gs) seen wrote)
    {gs : List γ} {acc : σ} (h : Inv gs seen wrote acc) :
    wp W C (gs.foldlM body acc) (Inv []) seen wrote := by
  induction gs generalizing seen wrote acc with
  | nil => exact h
  | cons g gs ih =>
      rw [List.foldlM_cons, wp_bind]
      -- the body's postcondition is the invariant for the rest of the list
      exact wp_mono (hbody g gs seen wrote acc h) fun seen wrote acc' h' => ih h'

end Rules

end Prog

/-! ## Soundness of a run alone -/

section Alone

variable [LinearOrder κ] {W : World κ α β} {C : Contract κ α τ}
  {post : List (κ × α) → List κ → ρ → Prop}

/-- Every row and the other tables are as the world says. -/
def Store.Within (W : World κ α β) (s : Store κ α β) : Prop :=
  (∀ k x, s.rows.get? k = some x → W.row k x) ∧ W.table s.tables

/-- A row that the program has not written is still as it was in `s₀`, also in what the
program has read of it. -/
def Store.Untouched (s₀ s : Store κ α β) (seen : List (κ × α)) (wrote : List κ) : Prop :=
  ∀ k, k ∉ wrote → s.rows.get? k = s₀.rows.get? k ∧
    ∀ r, (k, r) ∈ seen → s₀.rows.get? k = some r

/-- **A program run alone keeps the world.** Its writes may assume that the row they find
is the one that was there, and was read, when the program started. -/
theorem alone_sound {stamps : Nat → τ} {s₀ : Store κ α β}
    (hcalm : ∀ seen wrote k x,
      (k ∉ wrote → s₀.rows.get? k = some x ∧ ∀ r, (k, r) ∈ seen → r = x) → C.calm seen wrote k x)
    {p : Prog κ α β τ ε ρ} {n : Nat} {s s' : Store κ α β} {r : ρ} {seen : List (κ × α)}
    {wrote : List κ} (hwp : p.wp W C post seen wrote) (hs : s.Within W)
    (hkept : s₀.Untouched s seen wrote) (hrun : p.alone stamps n s = .ok (r, s')) :
    s'.Within W ∧ ∃ seen' wrote', post seen' wrote' r := by
  -- the store stays within the world, and rows not yet written are as at the start
  induction p generalizing n s seen wrote with
  | ret r₀ =>
      cases hrun
      exact ⟨hs, seen, wrote, hwp⟩
  | abort e => cases hrun
  | select q cont ih =>
      have hrows : ∀ e ∈ s.rows.select (q s.tables), W.row e.1 e.2 ∧ q s.tables e.1 e.2 = true := by
        intro e he
        obtain ⟨hget, hq⟩ := OrderedMap.mem_select.mp he
        exact ⟨hs.1 e.1 e.2 hget, hq⟩
      refine ih _ (hwp _ _ hs.2 (s.rows.nodup_select _) hrows) hs ?_ hrun
      intro k hk
      refine ⟨(hkept k hk).1, fun r hr => ?_⟩
      rcases List.mem_append.mp hr with hr | hr
      · exact (hkept k hk).2 r hr
      · rw [← (hkept k hk).1]
        exact (OrderedMap.mem_select.mp hr).1
  | tables cont ih => exact ih _ (hwp _ hs.2) hs hkept hrun
  | amend f cont ih =>
      exact ih _ (s := { s with tables := (f s.rows.get? s.tables).1 }) (hwp.2 _)
        ⟨hs.1, hwp.1 _ _ hs.1 hs.2⟩ hkept hrun
  | lock k cont ih => exact ih hwp hs hkept hrun
  | write k q act cont ih =>
      rw [Prog.alone] at hrun
      cases hget : (s.rows.get? k).filter q with
      | none =>
          rw [hget] at hrun
          exact ih none hwp.2.2 hs hkept hrun
      | some x =>
          rw [hget] at hrun
          obtain ⟨hx, hq⟩ := Option.filter_eq_some_iff.mp hget
          -- a row not written before is the one the program started with
          have hassumed : C.calm seen wrote k x := by
            apply hcalm
            intro hk
            obtain ⟨hrow, hseen⟩ := hkept k hk
            refine ⟨hrow ▸ hx, fun r hr => ?_⟩
            exact Option.some.inj ((hseen r hr).symm.trans (hrow.symm.trans hx))
          obtain ⟨-, hrow⟩ := hwp.1 (stamps n) x (hs.1 k x hx) hq hassumed
          refine ih _ (s := { s with rows := s.rows.put k (act (stamps n) x) })
            (hwp.2.1 (stamps n) x (hs.1 k x hx) hq) ⟨?_, hs.2⟩ ?_ hrun
          · intro l y hy
            rw [OrderedMap.get?_put] at hy
            split_ifs at hy with hl
            · subst hl
              exact hrow y hy
            · exact hs.1 l y hy
          · intro l hl
            rw [List.mem_append, List.mem_singleton, not_or] at hl
            refine ⟨?_, (hkept l hl.1).2⟩
            rw [OrderedMap.get?_put, if_neg hl.2]
            exact (hkept l hl.1).1

end Alone

/-! ## What a run alone ends in -/

section Ends

variable [LinearOrder κ] {err : ε → Prop}

/-- Run alone from `s`, whatever stamps its writes get, the program ends in `post` if it
commits, and with an error of `err` if it does not. -/
def Prog.ends (err : ε → Prop) :
    Prog κ α β τ ε ρ → (ρ → Store κ α β → Prop) → Store κ α β → Prop
  | .ret r, post, s => post r s
  | .abort e, _, _ => err e
  | .select p cont, post, s => (cont (s.rows.select (p s.tables))).ends err post s
  | .tables cont, post, s => (cont s.tables).ends err post s
  | .amend f cont, post, s =>
      (cont (f s.rows.get? s.tables).2).ends err post
        { s with tables := (f s.rows.get? s.tables).1 }
  | .lock _ cont, post, s => cont.ends err post s
  | .write k p act cont, post, s =>
      match (s.rows.get? k).filter p with
      | some x => ∀ stamp, (cont (some (act stamp x))).ends err post
          { s with rows := s.rows.put k (act stamp x) }
      | none => (cont none).ends err post s

namespace Prog

variable {post : ρ → Store κ α β → Prop} {s : Store κ α β}

/-- **Soundness.** -/
theorem ends_sound {stamps : Nat → τ} {p : Prog κ α β τ ε ρ} {n : Nat}
    (h : p.ends err post s) :
    (∀ r s', p.alone stamps n s = .ok (r, s') → post r s') ∧
      ∀ e, p.alone stamps n s = .error e → err e := by
  induction p generalizing n s with
  | ret r =>
      refine ⟨fun r' s' hrun => ?_, fun e hrun => by cases hrun⟩
      cases hrun
      exact h
  | abort e =>
      refine ⟨fun r' s' hrun => (by cases hrun), fun e' hrun => ?_⟩
      cases hrun
      exact h
  | select p cont ih => exact ih _ h
  | tables cont ih => exact ih _ h
  | amend f cont ih => exact ih _ h
  | lock k cont ih => exact ih h
  | write k p act cont ih =>
      simp only [ends, alone] at h ⊢
      cases hget : (s.rows.get? k).filter p with
      | none =>
          rw [hget] at h
          exact ih none h
      | some x =>
          rw [hget] at h
          exact ih _ (h (stamps n))

@[simp] theorem ends_pure (r : ρ) :
    (pure r : Prog κ α β τ ε ρ).ends err post s ↔ post r s := Iff.rfl

@[simp] theorem ends_abort (e : ε) : (abort e : Prog κ α β τ ε ρ).ends err post s ↔ err e :=
  Iff.rfl

theorem ends_bind (p : Prog κ α β τ ε σ) (f : σ → Prog κ α β τ ε ρ) :
    (p >>= f).ends err post s ↔ p.ends err (fun r s => (f r).ends err post s) s := by
  change (p.bind f).ends err post s ↔ _
  induction p generalizing s with
  | ret r => exact Iff.rfl
  | abort e => exact Iff.rfl
  | select p cont ih => exact ih _
  | tables cont ih => exact ih _
  | amend g cont ih => exact ih _
  | lock k cont ih => exact ih
  | write k p act cont ih =>
      simp only [bind, ends]
      cases (s.rows.get? k).filter p with
      | none => exact ih none
      | some x => exact forall_congr' fun stamp => ih _

theorem ends_mono {post' : ρ → Store κ α β → Prop} {err' : ε → Prop} {p : Prog κ α β τ ε ρ}
    (h : p.ends err post s) (hpost : ∀ r s, post r s → post' r s) (herr : ∀ e, err e → err' e) :
    p.ends err' post' s := by
  induction p generalizing s with
  | ret r => exact hpost _ _ h
  | abort e => exact herr _ h
  | select p cont ih => exact ih _ h
  | tables cont ih => exact ih _ h
  | amend f cont ih => exact ih _ h
  | lock k cont ih => exact ih h
  | write k p act cont ih =>
      simp only [ends] at h ⊢
      cases hget : (s.rows.get? k).filter p with
      | none =>
          rw [hget] at h
          exact ih none h
      | some x =>
          rw [hget] at h
          exact fun stamp => ih _ (h stamp)

@[simp] theorem ends_rows (p : β → κ → α → Bool) {post : List (κ × α) → Store κ α β → Prop} :
    (rows p : Prog κ α β τ ε _).ends err post s ↔ post (s.rows.select (p s.tables)) s := Iff.rfl

@[simp] theorem ends_read {post : β → Store κ α β → Prop} :
    (read : Prog κ α β τ ε β).ends err post s ↔ post s.tables s := Iff.rfl

@[simp] theorem ends_change (f : (κ → Option α) → β → β × Nat)
    {post : Nat → Store κ α β → Prop} :
    (change f : Prog κ α β τ ε Nat).ends err post s ↔
      post (f s.rows.get? s.tables).2 { s with tables := (f s.rows.get? s.tables).1 } := Iff.rfl

@[simp] theorem ends_lockRow (k : κ) {post : Unit → Store κ α β → Prop} :
    (lockRow k : Prog κ α β τ ε Unit).ends err post s ↔ post () s := Iff.rfl

theorem ends_update_some {k : κ} {p : α → Bool} (act : τ → α → Option α)
    {post : Option (Option α) → Store κ α β → Prop} {x : α} (hx : s.rows.get? k = some x)
    (hp : p x = true) :
    (update k p act : Prog κ α β τ ε _).ends err post s ↔
      ∀ stamp, post (some (act stamp x)) { s with rows := s.rows.put k (act stamp x) } := by
  have hfilter : (s.rows.get? k).filter p = some x := Option.filter_eq_some_iff.mpr ⟨hx, hp⟩
  simp only [update, ends, hfilter]

theorem ends_update_none {k : κ} {p : α → Bool} (act : τ → α → Option α)
    {post : Option (Option α) → Store κ α β → Prop} (hx : (s.rows.get? k).filter p = none) :
    (update k p act : Prog κ α β τ ε _).ends err post s ↔ post none s := by
  simp only [update, ends, hx]

theorem ends_ofExcept (r : Except ε ρ) :
    (ofExcept r : Prog κ α β τ ε ρ).ends err post s ↔
      (∀ x, r = .ok x → post x s) ∧ ∀ e, r = .error e → err e := by
  cases r with
  | error e =>
      refine ⟨fun h => ⟨fun x hx => (by cases hx), fun e' he => ?_⟩, fun h => h.2 e rfl⟩
      cases he
      exact h
  | ok x =>
      refine ⟨fun h => ⟨fun y hy => ?_, fun e he => by cases he⟩, fun h => h.1 x rfl⟩
      cases hy
      exact h

/-- **Loop rule.** The invariant speaks about the elements still to come. -/
theorem ends_foldlM {γ : Type} (body : σ → γ → Prog κ α β τ ε σ)
    (Inv : List γ → σ → Store κ α β → Prop)
    (hbody : ∀ g gs acc s, Inv (g :: gs) acc s → (body acc g).ends err (Inv gs) s)
    {gs : List γ} {acc : σ} (h : Inv gs acc s) : (gs.foldlM body acc).ends err (Inv []) s := by
  induction gs generalizing s acc with
  | nil => exact h
  | cons g gs ih =>
      rw [List.foldlM_cons, ends_bind]
      exact ends_mono (hbody g gs acc s h) (fun acc' s' h' => ih h') fun e he => he

/-- A program that only renames the result of another runs as it does. -/
theorem alone_bind_pure (stamps : Nat → τ) (p : Prog κ α β τ ε ρ) (f : ρ → σ) (n : Nat)
    (s : Store κ α β) :
    (p >>= fun r => pure (f r)).alone stamps n s =
      (p.alone stamps n s).map fun r => (f r.1, r.2) := by
  change (p.bind fun r => ret (f r)).alone stamps n s = _
  induction p generalizing n s with
  | ret r => rfl
  | abort e => rfl
  | select p cont ih => exact ih _ n s
  | tables cont ih => exact ih _ n s
  | amend f cont ih => exact ih _ n _
  | lock k cont ih => exact ih n s
  | write k p act cont ih =>
      simp only [bind, alone]
      cases (s.rows.get? k).filter p with
      | none => exact ih none n s
      | some x => exact ih _ (n + 1) _

end Prog

end Ends

end Yorishiro.Lib
