import Yorishiro.Lib.Program
import Yorishiro.Lib.Transition

/-!
# Interleaved transactions under read committed

Any number of transactions, each a `Prog`, run statement by statement in any order.
A statement sees the committed rows and the transaction's own writes. A written or
locked row stays locked until its transaction ends, and a write whose row is locked
waits: it looks for its row when it starts, and filters the row again, as it is
then, when it can have the lock. Commits are atomic, and a rollback leaves nothing.

Two histories are kept beside the state. `written` holds every version of a row
there has ever been, and `commits` what each commit changed.

`sound_step` and `sound_run` are the rules for such systems. When every program has
its weakest precondition, every state of every run whose writes meet what their
contracts assume is within the world, and each commit of a transaction that writes
no row twice has changed the rows that were committed just before it as its
contract guarantees (`Sys.Sound`).
-/

set_option autoImplicit false

namespace Yorishiro.Lib

variable {ι κ α β τ ε ρ : Type} [LinearOrder κ]

/-! ## The system -/

/-- A transaction that has begun: what it runs, and what it has locked, written and read. -/
structure Txn (ι κ α β τ ε ρ : Type) [LinearOrder κ] where
  job : ι
  prog : Prog κ α β τ ε ρ
  queued : Bool
  locked : List κ
  dirty : OrderedMap κ (Option α)
  pending : β → β
  seen : List (κ × α)
  wrote : List κ

namespace Txn

/-- A transaction before its first statement. -/
def fresh (job : ι) (prog : Prog κ α β τ ε ρ) : Txn ι κ α β τ ε ρ where
  job := job
  prog := prog
  queued := false
  locked := []
  dirty := OrderedMap.empty
  pending := id
  seen := []
  wrote := []

/-- The rows as the transaction sees them: its own writes over the committed rows. -/
def view (x : Txn ι κ α β τ ε ρ) (rows : OrderedMap κ α) : OrderedMap κ α :=
  x.dirty.entries.foldl (fun m e => m.put e.1 e.2) rows

/-- The transaction has the lock of row `k`. -/
def holds (x : Txn ι κ α β τ ε ρ) (k : κ) : Bool :=
  x.locked.contains k || (x.dirty.get? k).isSome

/-- Executes the next statement; `blocked` tells which rows other transactions hold. Also
returns the version it wrote, if it wrote one. -/
def advance (blocked : κ → Bool) (s : Store κ α β) (stamp : τ) (x : Txn ι κ α β τ ε ρ) :
    Txn ι κ α β τ ε ρ × List (κ × α) :=
  match x.prog with
  | .ret _ => (x, [])
  | .abort _ => (x, [])
  | .select p cont =>
      let rows := (x.view s.rows).select (p (x.pending s.tables))
      ({ x with prog := cont rows, seen := x.seen ++ rows }, [])
  | .tables cont => ({ x with prog := cont (x.pending s.tables) }, [])
  | .amend f cont =>
      -- the rows are read now, the change itself is applied to the tables at commit time
      let look := (x.view s.rows).get?
      ({ x with
          prog := cont (f look (x.pending s.tables)).2
          pending := fun b => (f look (x.pending b)).1 }, [])
  | .lock k cont =>
      match (x.view s.rows).get? k with
      | none => ({ x with prog := cont }, [])
      | some _ =>
          -- a blocked lock request waits: the statement is tried again at the next step
          if blocked k then (x, []) else ({ x with prog := cont, locked := k :: x.locked }, [])
  | .write k p act cont =>
      match ((x.view s.rows).get? k).filter p with
      | none => ({ x with prog := cont none, queued := false }, [])
      | some row =>
          -- the first look only queues; the row is filtered again once it can be locked
          if !x.queued then ({ x with queued := true }, [])
          else if blocked k then (x, [])
          else
            ({ x with
                prog := cont (some (act stamp row))
                queued := false
                dirty := x.dirty.insert k (act stamp row)
                wrote := x.wrote ++ [k] },
              ((act stamp row).map fun y => (k, y)).toList)

/-- What a statement can do, with the guards under which it does it. -/
inductive Moves (blocked : κ → Bool) (s : Store κ α β) (stamp : τ) (x : Txn ι κ α β τ ε ρ) :
    Txn ι κ α β τ ε ρ × List (κ × α) → Prop where
  | stay : Moves blocked s stamp x (x, [])
  | queue : Moves blocked s stamp x ({ x with queued := true }, [])
  | select (p : β → κ → α → Bool) (cont : List (κ × α) → Prog κ α β τ ε ρ)
      (hprog : x.prog = .select p cont) :
      Moves blocked s stamp x
        ({ x with
            prog := cont ((x.view s.rows).select (p (x.pending s.tables)))
            seen := x.seen ++ (x.view s.rows).select (p (x.pending s.tables)) }, [])
  | tables (cont : β → Prog κ α β τ ε ρ) (hprog : x.prog = .tables cont) :
      Moves blocked s stamp x ({ x with prog := cont (x.pending s.tables) }, [])
  | amend (f : (κ → Option α) → β → β × Nat) (cont : Nat → Prog κ α β τ ε ρ)
      (hprog : x.prog = .amend f cont) :
      Moves blocked s stamp x
        ({ x with
            prog := cont (f (x.view s.rows).get? (x.pending s.tables)).2
            pending := fun b => (f (x.view s.rows).get? (x.pending b)).1 }, [])
  | absent (k : κ) (cont : Prog κ α β τ ε ρ) (hprog : x.prog = .lock k cont) :
      Moves blocked s stamp x ({ x with prog := cont }, [])
  | lock (k : κ) (cont : Prog κ α β τ ε ρ) (hprog : x.prog = .lock k cont)
      (hfree : blocked k = false) :
      Moves blocked s stamp x ({ x with prog := cont, locked := k :: x.locked }, [])
  | miss (k : κ) (p : α → Bool) (act : τ → α → Option α) (cont : Option (Option α) → Prog κ α β τ ε ρ)
      (hprog : x.prog = .write k p act cont) :
      Moves blocked s stamp x ({ x with prog := cont none, queued := false }, [])
  | write (k : κ) (p : α → Bool) (act : τ → α → Option α)
      (cont : Option (Option α) → Prog κ α β τ ε ρ) (row : α) (hprog : x.prog = .write k p act cont)
      (hqueued : x.queued = true) (hfree : blocked k = false)
      (hrow : (x.view s.rows).get? k = some row) (hp : p row = true) :
      Moves blocked s stamp x
        ({ x with
            prog := cont (some (act stamp row))
            queued := false
            dirty := x.dirty.insert k (act stamp row)
            wrote := x.wrote ++ [k] },
          ((act stamp row).map fun y => (k, y)).toList)

theorem advance_moves (blocked : κ → Bool) (s : Store κ α β) (stamp : τ)
    (x : Txn ι κ α β τ ε ρ) : Moves blocked s stamp x (x.advance blocked s stamp) := by
  unfold advance
  split
  case h_1 => exact .stay
  case h_2 => exact .stay
  case h_3 p cont hprog => exact .select p cont hprog
  case h_4 cont hprog => exact .tables cont hprog
  case h_5 f cont hprog => exact .amend f cont hprog
  case h_6 k cont hprog =>
    split
    · exact .absent k cont hprog
    · split_ifs with hblocked
      · exact .stay
      · exact .lock k cont hprog (by simpa using hblocked)
  case h_7 k p act cont hprog =>
    split
    · exact .miss k p act cont hprog
    · rename_i row hrow
      -- the filter is evaluated on the newest committed version, as after a lock wait
      obtain ⟨hget, hp⟩ := Option.filter_eq_some_iff.mp hrow
      split_ifs with hqueued hblocked
      · exact .queue
      · exact .stay
      · exact .write k p act cont row hprog (by simpa using hqueued) (by simpa using hblocked)
          hget hp

end Txn

/-- What a commit did: for each row it changed, the row before and after. -/
structure Commit (ι κ α ρ : Type) where
  job : ι
  result : ρ
  changes : List (κ × α × Option α)
deriving DecidableEq

/-- The committed database, the open transactions, and the histories. -/
structure Sys (ι κ α β τ ε ρ : Type) [LinearOrder κ] where
  store : Store κ α β
  txns : OrderedMap Nat (Txn ι κ α β τ ε ρ)
  written : List (κ × α)
  commits : List (Commit ι κ α ρ)

/-- What happens next: a transaction begins, or an open one executes a statement. -/
inductive Input (ι τ : Type) where
  | start (t : Nat) (job : ι)
  | step (t : Nat) (stamp : τ)

/-- The next `n` statements of transaction `t`. -/
def Input.steps (t n : Nat) (stamp : τ) : List (Input ι τ) := List.replicate n (.step t stamp)

namespace Sys

/-- No transaction has begun. -/
def init (store : Store κ α β) : Sys ι κ α β τ ε ρ where
  store := store
  txns := OrderedMap.empty
  written := store.rows.entries
  commits := []

/-- Another transaction than `t` has the lock of row `k`. -/
def blocked (s : Sys ι κ α β τ ε ρ) (t : Nat) (k : κ) : Bool :=
  s.txns.entries.any fun e => decide (e.1 ≠ t) && e.2.holds k

/-- The changes of transaction `x`, if it commits now. -/
def changes (s : Sys ι κ α β τ ε ρ) (x : Txn ι κ α β τ ε ρ) : List (κ × α × Option α) :=
  x.dirty.entries.filterMap fun e => (s.store.rows.get? e.1).map fun old => (e.1, old, e.2)

/-- Transaction `x`, open as `t`, commits with result `r`. -/
def commit (s : Sys ι κ α β τ ε ρ) (t : Nat) (x : Txn ι κ α β τ ε ρ) (r : ρ) :
    Sys ι κ α β τ ε ρ where
  store := { rows := x.view s.store.rows, tables := x.pending s.store.tables }
  txns := s.txns.erase t
  written := s.written
  commits := s.commits ++ [{ job := x.job, result := r, changes := s.changes x }]

/-- One step of the system; `code` gives the program of a job. -/
def step (code : ι → Prog κ α β τ ε ρ) (s : Sys ι κ α β τ ε ρ) :
    Input ι τ → Sys ι κ α β τ ε ρ
  | .start t job =>
      if (s.txns.get? t).isSome then s
      else { s with txns := s.txns.insert t (Txn.fresh job (code job)) }
  | .step t stamp =>
      match s.txns.get? t with
      | none => s
      | some x =>
          match x.prog with
          | .ret r => s.commit t x r
          | .abort _ => { s with txns := s.txns.erase t }
          | _ =>
              let moved := x.advance (s.blocked t) s.store stamp
              { s with
                txns := s.txns.insert t moved.1
                written := s.written ++ moved.2 }

/-- What a step of the system can do. -/
inductive Moves (code : ι → Prog κ α β τ ε ρ) (s : Sys ι κ α β τ ε ρ) :
    Input ι τ → Sys ι κ α β τ ε ρ → Prop where
  | idle (i : Input ι τ) : Moves code s i s
  | start (t : Nat) (job : ι) (hnew : s.txns.get? t = none) :
      Moves code s (.start t job) { s with txns := s.txns.insert t (Txn.fresh job (code job)) }
  | rollback (t : Nat) (stamp : τ) (x : Txn ι κ α β τ ε ρ) (hx : s.txns.get? t = some x) :
      Moves code s (.step t stamp) { s with txns := s.txns.erase t }
  | commit (t : Nat) (stamp : τ) (x : Txn ι κ α β τ ε ρ) (r : ρ)
      (hx : s.txns.get? t = some x) (hprog : x.prog = .ret r) :
      Moves code s (.step t stamp) (s.commit t x r)
  | advance (t : Nat) (stamp : τ) (x : Txn ι κ α β τ ε ρ)
      (m : Txn ι κ α β τ ε ρ × List (κ × α)) (hx : s.txns.get? t = some x)
      (hmove : x.Moves (s.blocked t) s.store stamp m) :
      Moves code s (.step t stamp)
        { s with txns := s.txns.insert t m.1, written := s.written ++ m.2 }

theorem step_moves (code : ι → Prog κ α β τ ε ρ) (s : Sys ι κ α β τ ε ρ) (i : Input ι τ) :
    Moves code s i (s.step code i) := by
  cases i with
  | start t job =>
      simp only [step]
      split_ifs with hsome
      · exact .idle _
      · exact .start t job (Option.not_isSome_iff_eq_none.mp hsome)
  | step t stamp =>
      simp only [step]
      split
      · exact .idle _
      · rename_i x hx
        split
        · rename_i r hprog
          exact .commit t stamp x r hx hprog
        · exact .rollback t stamp x hx
        · exact .advance t stamp x _ hx (Txn.advance_moves _ _ _ _)

/-- The write that the next statement of `t` performs, if it performs one: the
transaction, the key, and the row it finds. -/
def writing (s : Sys ι κ α β τ ε ρ) (t : Nat) : Option (Txn ι κ α β τ ε ρ × κ × α) :=
  match s.txns.get? t with
  | none => none
  | some x =>
      match x.prog with
      | .write k p _ _ =>
          if x.queued && !s.blocked t k then
            (((x.view s.store.rows).get? k).filter p).map fun row => (x, k, row)
          else none
      | _ => none

/-- A write of this step finds the row that its contract assumes. -/
def Calm (C : ι → Contract κ α τ) (s : Sys ι κ α β τ ε ρ) : Input ι τ → Prop
  | .start _ _ => True
  | .step t _ =>
      match s.writing t with
      | none => True
      | some (x, k, row) => (C x.job).calm x.seen x.wrote k row

instance Calm.decidable (C : ι → Contract κ α τ) (s : Sys ι κ α β τ ε ρ) (i : Input ι τ)
    [∀ job seen wrote k x, Decidable ((C job).calm seen wrote k x)] : Decidable (s.Calm C i) :=
  match i with
  | .start _ _ => .isTrue trivial
  | .step t _ =>
      match h : s.writing t with
      | none => .isTrue (by simp [Calm, h])
      | some (x, k, row) =>
          decidable_of_iff ((C x.job).calm x.seen x.wrote k row) (by simp [Calm, h])

theorem writing_eq {s : Sys ι κ α β τ ε ρ} {t : Nat} {x : Txn ι κ α β τ ε ρ}
    (hx : s.txns.get? t = some x) {k : κ} {p : α → Bool} {act : τ → α → Option α}
    {cont : Option (Option α) → Prog κ α β τ ε ρ} {row : α} (hprog : x.prog = .write k p act cont)
    (hqueued : x.queued = true) (hfree : s.blocked t k = false)
    (hrow : (x.view s.store.rows).get? k = some row) (hp : p row = true) :
    s.writing t = some (x, k, row) := by
  have hfilter : ((x.view s.store.rows).get? k).filter p = some row :=
    Option.filter_eq_some_iff.mpr ⟨hrow, hp⟩
  simp [writing, hx, hprog, hqueued, hfree, hfilter]

theorem Calm.write {C : ι → Contract κ α τ} {s : Sys ι κ α β τ ε ρ} {t : Nat} {stamp : τ}
    (h : s.Calm C (.step t stamp)) {x : Txn ι κ α β τ ε ρ} (hx : s.txns.get? t = some x) {k : κ}
    {p : α → Bool} {act : τ → α → Option α} {cont : Option (Option α) → Prog κ α β τ ε ρ} {row : α}
    (hprog : x.prog = .write k p act cont) (hqueued : x.queued = true)
    (hfree : s.blocked t k = false) (hrow : (x.view s.store.rows).get? k = some row)
    (hp : p row = true) : (C x.job).calm x.seen x.wrote k row := by
  simpa [Calm, writing_eq hx hprog hqueued hfree hrow hp] using h

end Sys

/-! ## Views and locks -/

section Views

theorem get?_foldl_put {es : List (κ × Option α)} (hs : Entries.Sorted es) (m : OrderedMap κ α)
    (k : κ) : (es.foldl (fun m e => m.put e.1 e.2) m).get? k =
      (Entries.get? k es).getD (m.get? k) := by
  -- keys are strictly increasing, so the head's key is not written again by the tail
  induction es generalizing m with
  | nil => rfl
  | cons e es ih =>
      obtain ⟨l, o⟩ := e
      rw [List.foldl_cons, ih (List.pairwise_cons.mp hs).2, Entries.get?_cons]
      by_cases hk : k = l
      · subst hk
        rw [Entries.get?_tail_eq_none hs, if_pos rfl]
        simp
      · simp [hk]

@[simp] theorem Txn.get?_view (x : Txn ι κ α β τ ε ρ) (rows : OrderedMap κ α) (k : κ) :
    (x.view rows).get? k = (x.dirty.get? k).getD (rows.get? k) :=
  get?_foldl_put x.dirty.sorted rows k

theorem Sys.blocked_eq_false {s : Sys ι κ α β τ ε ρ} {t : Nat} {k : κ}
    (h : s.blocked t k = false) {t' : Nat} {x : Txn ι κ α β τ ε ρ}
    (hx : s.txns.get? t' = some x) (hne : t' ≠ t) : x.holds k = false := by
  have hmem := (OrderedMap.mem_entries_iff s.txns t' x).mpr hx
  have := List.any_eq_false.mp h (t', x) hmem
  simpa [hne] using this

theorem Sys.mem_changes {s : Sys ι κ α β τ ε ρ} {x : Txn ι κ α β τ ε ρ} {k : κ} {old : α}
    {o : Option α} : (k, old, o) ∈ s.changes x ↔
      x.dirty.get? k = some o ∧ s.store.rows.get? k = some old := by
  simp only [changes, List.mem_filterMap, Option.map_eq_some_iff, Prod.mk.injEq]
  constructor
  · rintro ⟨e, he, old', hold, rfl, rfl, rfl⟩
    exact ⟨(OrderedMap.mem_entries_iff _ _ _).mp he, hold⟩
  · rintro ⟨hdirty, hold⟩
    exact ⟨(k, o), (OrderedMap.mem_entries_iff _ _ _).mpr hdirty, old, hold, rfl, rfl, rfl⟩

end Views

/-! ## Soundness -/

/-- The contract allows no second write of a row. -/
def Contract.Once (C : Contract κ α τ) : Prop :=
  ∀ seen wrote k stamp x o, C.writes seen wrote k stamp x o → k ∉ wrote

section Soundness

variable (W : World κ α β) (C : ι → Contract κ α τ)
  (post : ι → List (κ × α) → List κ → ρ → Prop)

/-- An open transaction over the committed `rows`: its program has its weakest
precondition, its writes are within the world, and if it writes no row twice then each
of its writes relates to the committed row as its contract says. -/
structure Txn.Sound (rows : OrderedMap κ α) (written : List (κ × α))
    (x : Txn ι κ α β τ ε ρ) : Prop where
  wp : x.prog.wp W (C x.job) (post x.job) x.seen x.wrote
  dirty_row : ∀ k y, x.dirty.get? k = some (some y) → W.row k y
  pending : ∀ b, W.table b → W.table (x.pending b)
  wrote : ∀ k, (x.dirty.get? k).isSome = true ↔ k ∈ x.wrote
  base : ∀ k ∈ x.wrote, ∃ old, rows.get? k = some old
  related : (C x.job).Once → ∀ k o old, x.dirty.get? k = some o → rows.get? k = some old →
    ∃ seen wrote stamp, seen ⊆ x.seen ∧ (C x.job).writes seen wrote k stamp old o
  seen_written : ∀ e ∈ x.seen, e ∈ written
  dirty_written : ∀ k y, x.dirty.get? k = some (some y) → (k, y) ∈ written

/-- A commit: it ended as its program promises, and if it wrote no row twice then each
change is one that its contract guarantees. -/
structure Commit.Sound (written : List (κ × α)) (c : Commit ι κ α ρ) : Prop where
  out : ∃ seen wrote, post c.job seen wrote c.result ∧ (∀ e ∈ seen, e ∈ written) ∧
    ∀ k, k ∈ wrote ↔ ∃ old o, (k, old, o) ∈ c.changes
  related : (C c.job).Once → ∀ k old o, (k, old, o) ∈ c.changes →
    ∃ seen wrote stamp, (∀ e ∈ seen, e ∈ written) ∧ (C c.job).writes seen wrote k stamp old o

/-- **Soundness of a state**: within the world, every transaction sound, no row locked
twice, and every commit so far sound. -/
structure Sys.Sound (s : Sys ι κ α β τ ε ρ) : Prop where
  within : s.store.Within W
  rows_written : ∀ k x, s.store.rows.get? k = some x → (k, x) ∈ s.written
  txn : ∀ t x, s.txns.get? t = some x → x.Sound W C post s.store.rows s.written
  exclusive : ∀ t t' x x' k, s.txns.get? t = some x → s.txns.get? t' = some x' → t ≠ t' →
    x.holds k = true → x'.holds k = false
  commits : ∀ c ∈ s.commits, c.Sound C post s.written

variable {W C post}

theorem Txn.Sound.mono {rows rows' : OrderedMap κ α} {written written' : List (κ × α)}
    {x : Txn ι κ α β τ ε ρ} (h : x.Sound W C post rows written)
    (hrows : ∀ k ∈ x.wrote, rows'.get? k = rows.get? k) (hwritten : written ⊆ written') :
    x.Sound W C post rows' written' where
  wp := h.wp
  dirty_row := h.dirty_row
  pending := h.pending
  wrote := h.wrote
  base := by
    intro k hk
    rw [hrows k hk]
    exact h.base k hk
  related := by
    intro honce k o old hdirty hold
    have hk : k ∈ x.wrote := (h.wrote k).mp (by simp [hdirty])
    exact h.related honce k o old hdirty (hrows k hk ▸ hold)
  seen_written := fun e he => hwritten (h.seen_written e he)
  dirty_written := fun k y hy => hwritten (h.dirty_written k y hy)

omit [LinearOrder κ] in
theorem Commit.Sound.mono {written written' : List (κ × α)} {c : Commit ι κ α ρ}
    (h : c.Sound C post written) (hwritten : written ⊆ written') : c.Sound C post written' where
  out := by
    obtain ⟨seen, wrote, hpost, hseen, hwrote⟩ := h.out
    exact ⟨seen, wrote, hpost, fun e he => hwritten (hseen e he), hwrote⟩
  related := by
    intro honce k old o hmem
    obtain ⟨seen, wrote, stamp, hseen, hwrites⟩ := h.related honce k old o hmem
    exact ⟨seen, wrote, stamp, fun e he => hwritten (hseen e he), hwrites⟩

/-- What holds of the committed rows and of the dirty ones holds of what a transaction sees. -/
theorem Txn.forall_view {P : κ → α → Prop} {rows : OrderedMap κ α} {x : Txn ι κ α β τ ε ρ}
    (hrows : ∀ k y, rows.get? k = some y → P k y)
    (hdirty : ∀ k y, x.dirty.get? k = some (some y) → P k y) {k : κ} {y : α}
    (hy : (x.view rows).get? k = some y) : P k y := by
  rw [Txn.get?_view] at hy
  cases hwrote : x.dirty.get? k with
  | none =>
      rw [hwrote] at hy
      exact hrows k y hy
  | some o =>
      rw [hwrote] at hy
      obtain rfl : o = some y := hy
      exact hdirty k y hwrote

/-- What a transaction sees is within the world. -/
theorem Txn.Sound.view_row {rows : OrderedMap κ α} {written : List (κ × α)}
    {x : Txn ι κ α β τ ε ρ} (h : x.Sound W C post rows written)
    (hrows : ∀ k y, rows.get? k = some y → W.row k y) {k : κ} {y : α}
    (hy : (x.view rows).get? k = some y) : W.row k y :=
  Txn.forall_view hrows h.dirty_row hy

theorem Txn.Sound.view_written {rows : OrderedMap κ α} {written : List (κ × α)}
    {x : Txn ι κ α β τ ε ρ} (h : x.Sound W C post rows written)
    (hrows : ∀ k y, rows.get? k = some y → (k, y) ∈ written) {k : κ} {y : α}
    (hy : (x.view rows).get? k = some y) : (k, y) ∈ written :=
  Txn.forall_view (P := fun k y => (k, y) ∈ written) hrows h.dirty_written hy

/-- A statement that writes no row: what it may change of a sound transaction. -/
theorem Txn.Sound.quiet {rows : OrderedMap κ α} {written : List (κ × α)}
    {x x' : Txn ι κ α β τ ε ρ} (h : x.Sound W C post rows written) (hjob : x'.job = x.job)
    (hdirty : x'.dirty = x.dirty) (hwrote : x'.wrote = x.wrote)
    (hwp : x'.prog.wp W (C x.job) (post x.job) x'.seen x.wrote)
    (hpending : ∀ b, W.table b → W.table (x'.pending b)) (hseen : x.seen ⊆ x'.seen)
    (hknown : ∀ e ∈ x'.seen, e ∈ written) : x'.Sound W C post rows written where
  wp := by rw [hjob, hwrote]; exact hwp
  dirty_row := by rw [hdirty]; exact h.dirty_row
  pending := hpending
  wrote := by rw [hdirty, hwrote]; exact h.wrote
  base := by rw [hwrote]; exact h.base
  related := by
    rw [hjob, hdirty]
    intro honce k o old hk hold
    obtain ⟨seen, wrote, stamp, hsub, hwrites⟩ := h.related honce k o old hk hold
    exact ⟨seen, wrote, stamp, fun e he => hseen (hsub he), hwrites⟩
  seen_written := hknown
  dirty_written := by rw [hdirty]; exact h.dirty_written

/-- A write that finds the row its contract assumes. -/
theorem Txn.Sound.write {rows : OrderedMap κ α} {written : List (κ × α)}
    {x : Txn ι κ α β τ ε ρ} (h : x.Sound W C post rows written)
    (hrows : ∀ k y, rows.get? k = some y → W.row k y) {k : κ} {p : α → Bool}
    {act : τ → α → Option α} {cont : Option (Option α) → Prog κ α β τ ε ρ}
    (hprog : x.prog = .write k p act cont) {row : α}
    (hrow : (x.view rows).get? k = some row) (hp : p row = true)
    (hcalm : (C x.job).calm x.seen x.wrote k row) (stamp : τ) :
    Txn.Sound W C post rows (written ++ ((act stamp row).map fun y => (k, y)).toList)
      { x with
        prog := cont (some (act stamp row))
        queued := false
        dirty := x.dirty.insert k (act stamp row)
        wrote := x.wrote ++ [k] } := by
  have hwp := h.wp
  rw [hprog] at hwp
  have hW : W.row k row := h.view_row hrows hrow
  obtain ⟨hwrites, hnew⟩ := hwp.1 stamp row hW hp hcalm
  -- where the transaction has not written yet, it sees the committed row
  have hfirst : k ∉ x.wrote → rows.get? k = some row := by
    intro hk
    have hnone : x.dirty.get? k = none := by
      rw [← Option.not_isSome_iff_eq_none]
      exact fun hsome => hk ((h.wrote k).mp hsome)
    rwa [Txn.get?_view, hnone] at hrow
  constructor
  case wp => exact hwp.2.1 stamp row hW hp
  case dirty_row =>
    intro l y hy
    rw [OrderedMap.get?_insert] at hy
    split_ifs at hy with hl
    · subst hl
      exact hnew y (Option.some.inj hy)
    · exact h.dirty_row l y hy
  case pending => exact h.pending
  case wrote =>
    intro l
    rw [OrderedMap.get?_insert]
    by_cases hl : l = k
    · simp [hl]
    · simpa [hl] using h.wrote l
  case base =>
    intro l hl
    rcases List.mem_append.mp hl with hl | hl
    · exact h.base l hl
    -- the row exists in the store: either it was written before, or it was found there just now
    · obtain rfl := List.mem_singleton.mp hl
      by_cases hk : l ∈ x.wrote
      · exact h.base l hk
      · exact ⟨row, hfirst hk⟩
  case related =>
    intro honce l o old hl hold
    simp only [OrderedMap.get?_insert] at hl
    split_ifs at hl with hlk
    · subst hlk
      obtain rfl := Option.some.inj hl
      -- a first write found the committed row, which is what the contract relates
      have hk : l ∉ x.wrote := honce _ _ _ _ _ _ hwrites
      obtain rfl : row = old := Option.some.inj ((hfirst hk).symm.trans hold)
      exact ⟨x.seen, x.wrote, stamp, fun e he => he, hwrites⟩
    · exact h.related honce l o old hl hold
  case seen_written =>
    intro e he
    exact List.mem_append_left _ (h.seen_written e he)
  case dirty_written =>
    intro l y hy
    simp only [OrderedMap.get?_insert] at hy
    split_ifs at hy with hl
    · subst hl
      apply List.mem_append_right
      rw [Option.some.inj hy]
      simp
    · exact List.mem_append_left _ (h.dirty_written l y hy)

/-- The next statement of a sound transaction leaves it sound. -/
theorem Txn.Sound.moves {s : Store κ α β} {written : List (κ × α)} {x : Txn ι κ α β τ ε ρ}
    (h : x.Sound W C post s.rows written) (hs : s.Within W)
    (hknown : ∀ k y, s.rows.get? k = some y → (k, y) ∈ written) {blocked : κ → Bool} {stamp : τ}
    {m : Txn ι κ α β τ ε ρ × List (κ × α)} (hmove : x.Moves blocked s stamp m)
    (hcalm : ∀ k p act cont row, x.prog = .write k p act cont → x.queued = true →
      blocked k = false → (x.view s.rows).get? k = some row → p row = true →
      (C x.job).calm x.seen x.wrote k row) :
    m.1.Sound W C post s.rows (written ++ m.2) := by
  have hwp := h.wp
  have hquiet : written ++ [] = written := List.append_nil written
  cases hmove with
  | stay =>
      rw [hquiet]
      exact h
  | queue =>
      rw [hquiet]
      exact h.quiet rfl rfl rfl hwp h.pending (fun e he => he) h.seen_written
  | select p cont hprog =>
      rw [hprog] at hwp
      rw [hquiet]
      -- rows that a selection returns are within the world, whoever wrote them
      refine h.quiet rfl rfl rfl ?_ h.pending (List.subset_append_left _ _) ?_
      · apply hwp _ _ (h.pending _ hs.2) (OrderedMap.nodup_select _ _)
        intro e he
        obtain ⟨hget, hp⟩ := OrderedMap.mem_select.mp he
        exact ⟨h.view_row hs.1 hget, hp⟩
      · intro e he
        rcases List.mem_append.mp he with he | he
        · exact h.seen_written e he
        · exact h.view_written hknown (OrderedMap.mem_select.mp he).1
  | tables cont hprog =>
      rw [hprog] at hwp
      rw [hquiet]
      exact h.quiet rfl rfl rfl (hwp _ (h.pending _ hs.2)) h.pending (fun e he => he)
        h.seen_written
  | amend f cont hprog =>
      rw [hprog] at hwp
      rw [hquiet]
      refine h.quiet rfl rfl rfl (hwp.2 _) ?_ (fun e he => he) h.seen_written
      intro b hb
      exact hwp.1 _ _ (fun k y hy => h.view_row hs.1 hy) (h.pending b hb)
  | absent k cont hprog =>
      rw [hprog] at hwp
      rw [hquiet]
      exact h.quiet rfl rfl rfl hwp h.pending (fun e he => he) h.seen_written
  | lock k cont hprog hfree =>
      rw [hprog] at hwp
      rw [hquiet]
      exact h.quiet rfl rfl rfl hwp h.pending (fun e he => he) h.seen_written
  | miss k p act cont hprog =>
      rw [hprog] at hwp
      rw [hquiet]
      exact h.quiet rfl rfl rfl hwp.2.2 h.pending (fun e he => he) h.seen_written
  | write k p act cont row hprog hqueued hfree hrow hp =>
      exact h.write hs.1 hprog hrow hp (hcalm k p act cont row hprog hqueued hfree hrow hp) stamp

/-- A statement locks no row that another transaction holds. -/
theorem Txn.Moves.holds {blocked : κ → Bool} {s : Store κ α β} {stamp : τ}
    {x : Txn ι κ α β τ ε ρ} {m : Txn ι κ α β τ ε ρ × List (κ × α)}
    (hmove : x.Moves blocked s stamp m) {k : κ} (h : m.1.holds k = true) :
    x.holds k = true ∨ blocked k = false := by
  cases hmove with
  | lock l cont hprog hfree =>
      by_cases hk : k = l
      · exact Or.inr (hk ▸ hfree)
      · exact Or.inl (by simpa [Txn.holds, hk] using h)
  | write l p act cont row hprog hqueued hfree hrow hp =>
      by_cases hk : k = l
      · exact Or.inr (hk ▸ hfree)
      · exact Or.inl (by simpa [Txn.holds, hk] using h)
  | _ => exact Or.inl h

/-- The programs have their weakest preconditions when they begin. -/
def Verified (W : World κ α β) (C : ι → Contract κ α τ)
    (post : ι → List (κ × α) → List κ → ρ → Prop) (code : ι → Prog κ α β τ ε ρ) : Prop :=
  ∀ job, (code job).wp W (C job) (post job) [] []

theorem Sys.sound_init {store : Store κ α β} (hs : store.Within W) :
    (Sys.init store : Sys ι κ α β τ ε ρ).Sound W C post where
  within := hs
  rows_written := fun k x hx => (OrderedMap.mem_entries_iff store.rows k x).mpr hx
  txn := fun t x hx => by cases hx
  exclusive := fun t t' x x' k hx => by cases hx
  commits := fun c hc => by cases hc

theorem Txn.sound_fresh {code : ι → Prog κ α β τ ε ρ} (hcode : Verified W C post code) (job : ι)
    (rows : OrderedMap κ α) (written : List (κ × α)) :
    (Txn.fresh job (code job)).Sound W C post rows written where
  wp := hcode job
  dirty_row := fun k y hy => by cases hy
  pending := fun b hb => hb
  wrote := fun k => by simp [Txn.fresh]
  base := fun k hk => by cases hk
  related := fun _ k o old hk => by cases hk
  seen_written := fun e he => by cases he
  dirty_written := fun k y hy => by cases hy

/-- A commit of a sound transaction is sound. -/
theorem Txn.Sound.commit {s : Sys ι κ α β τ ε ρ} {x : Txn ι κ α β τ ε ρ}
    (h : x.Sound W C post s.store.rows s.written) {r : ρ} (hprog : x.prog = .ret r) :
    Commit.Sound C post s.written { job := x.job, result := r, changes := s.changes x } where
  out := by
    have hwp := h.wp
    rw [hprog] at hwp
    refine ⟨x.seen, x.wrote, hwp, h.seen_written, fun k => ?_⟩
    constructor
    · intro hk
      obtain ⟨old, hold⟩ := h.base k hk
      obtain ⟨o, ho⟩ := Option.isSome_iff_exists.mp ((h.wrote k).mpr hk)
      exact ⟨old, o, Sys.mem_changes.mpr ⟨ho, hold⟩⟩
    · rintro ⟨old, o, hmem⟩
      exact (h.wrote k).mp (by simp [(Sys.mem_changes.mp hmem).1])
  related := by
    intro honce k old o hmem
    obtain ⟨hdirty, hold⟩ := Sys.mem_changes.mp hmem
    obtain ⟨seen, wrote, stamp, hsub, hwrites⟩ := h.related honce k o old hdirty hold
    exact ⟨seen, wrote, stamp, fun e he => h.seen_written e (hsub he), hwrites⟩

/-- Rows that another transaction wrote are as they were after a commit. -/
theorem Sys.Sound.commit_rows {s : Sys ι κ α β τ ε ρ} (h : s.Sound W C post) {t t' : Nat}
    {x x' : Txn ι κ α β τ ε ρ} (hx : s.txns.get? t = some x) (hx' : s.txns.get? t' = some x')
    (hne : t' ≠ t) {k : κ} (hk : k ∈ x'.wrote) :
    (x.view s.store.rows).get? k = s.store.rows.get? k := by
  have hdirty' : (x'.dirty.get? k).isSome = true := ((h.txn t' x' hx').wrote k).mpr hk
  -- the other transaction holds the row's lock, so `x` has not written it
  have hfree := h.exclusive t' t x' x k hx' hx hne (by simp [Txn.holds, hdirty'])
  rw [Txn.holds, Bool.or_eq_false_iff, Option.isSome_eq_false_iff, Option.isNone_iff_eq_none]
    at hfree
  rw [Txn.get?_view, hfree.2, Option.getD_none]

/-! ### Locks of the open transactions -/

/-- No row is locked by two of the transactions. -/
def Exclusive (txns : OrderedMap Nat (Txn ι κ α β τ ε ρ)) : Prop :=
  ∀ t t' x x' k, txns.get? t = some x → txns.get? t' = some x' → t ≠ t' →
    x.holds k = true → x'.holds k = false

theorem Exclusive.erase {txns : OrderedMap Nat (Txn ι κ α β τ ε ρ)} (h : Exclusive txns)
    (t : Nat) : Exclusive (txns.erase t) := by
  intro t₁ t₂ x₁ x₂ k h₁ h₂
  exact h t₁ t₂ x₁ x₂ k (OrderedMap.get?_erase_eq_some h₁).2 (OrderedMap.get?_erase_eq_some h₂).2

theorem Exclusive.insert {txns : OrderedMap Nat (Txn ι κ α β τ ε ρ)} (h : Exclusive txns)
    {t : Nat} {x : Txn ι κ α β τ ε ρ}
    (hothers : ∀ t' x' k, txns.get? t' = some x' → t' ≠ t → x.holds k = true →
      x'.holds k = false) : Exclusive (txns.insert t x) := by
  intro t₁ t₂ x₁ x₂ k h₁ h₂ hne hholds
  rcases OrderedMap.get?_insert_eq_some h₁ with ⟨ht₁, hx₁⟩ | ⟨ht₁, hget₁⟩
  · rcases OrderedMap.get?_insert_eq_some h₂ with ⟨ht₂, -⟩ | ⟨ht₂, hget₂⟩
    · exact absurd (ht₁.trans ht₂.symm) hne
    · exact hothers t₂ x₂ k hget₂ ht₂ (hx₁ ▸ hholds)
  · rcases OrderedMap.get?_insert_eq_some h₂ with ⟨-, hx₂⟩ | ⟨-, hget₂⟩
    · -- If the new transaction held the row as well, the old one would not.
      rw [hx₂]
      by_contra hnot
      rw [Bool.not_eq_false] at hnot
      rw [hothers t₁ x₁ k hget₁ ht₁ hnot] at hholds
      cases hholds
    · exact h t₁ t₂ x₁ x₂ k hget₁ hget₂ hne hholds

/-! ### Steps -/

theorem Sys.Sound.start {code : ι → Prog κ α β τ ε ρ} (hcode : Verified W C post code)
    {s : Sys ι κ α β τ ε ρ} (h : s.Sound W C post) (t : Nat) (job : ι) :
    ({ s with txns := s.txns.insert t (Txn.fresh job (code job)) } :
      Sys ι κ α β τ ε ρ).Sound W C post where
  within := h.within
  rows_written := h.rows_written
  txn := by
    intro t' x' hx'
    rcases OrderedMap.get?_insert_eq_some hx' with ⟨-, rfl⟩ | ⟨-, hx'⟩
    · exact Txn.sound_fresh hcode job _ _
    · exact h.txn t' x' hx'
  exclusive := by
    apply Exclusive.insert h.exclusive
    -- a transaction that has just begun holds nothing
    intro t' x' k _ _ hholds
    cases hholds
  commits := h.commits

theorem Sys.Sound.rollback {s : Sys ι κ α β τ ε ρ} (h : s.Sound W C post) (t : Nat) :
    ({ s with txns := s.txns.erase t } : Sys ι κ α β τ ε ρ).Sound W C post where
  within := h.within
  rows_written := h.rows_written
  txn := fun t' x' hx' => h.txn t' x' (OrderedMap.get?_erase_eq_some hx').2
  exclusive := Exclusive.erase h.exclusive t
  commits := h.commits

theorem Sys.Sound.committed {s : Sys ι κ α β τ ε ρ} (h : s.Sound W C post) {t : Nat}
    {x : Txn ι κ α β τ ε ρ} {r : ρ} (hx : s.txns.get? t = some x) (hprog : x.prog = .ret r) :
    (s.commit t x r).Sound W C post where
  within := ⟨fun _ _ hy => (h.txn t x hx).view_row h.within.1 hy,
    (h.txn t x hx).pending _ h.within.2⟩
  rows_written := fun _ _ hy => (h.txn t x hx).view_written h.rows_written hy
  txn := by
    intro t' x' hx'
    -- the other transactions have locked the rows they wrote, so these are as they were
    obtain ⟨hne, hx'⟩ := OrderedMap.get?_erase_eq_some hx'
    apply (h.txn t' x' hx').mono
    · intro k hk
      exact h.commit_rows hx hx' hne hk
    · exact fun e he => he
  exclusive := Exclusive.erase h.exclusive t
  commits := by
    intro c hc
    rcases List.mem_append.mp hc with hc | hc
    · exact h.commits c hc
    · rw [List.mem_singleton.mp hc]
      exact (h.txn t x hx).commit hprog

theorem Sys.Sound.advance {s : Sys ι κ α β τ ε ρ} (h : s.Sound W C post) {t : Nat} {stamp : τ}
    (hcalm : s.Calm C (.step t stamp)) {x : Txn ι κ α β τ ε ρ} (hx : s.txns.get? t = some x)
    {m : Txn ι κ α β τ ε ρ × List (κ × α)} (hmove : x.Moves (s.blocked t) s.store stamp m) :
    ({ s with txns := s.txns.insert t m.1, written := s.written ++ m.2 } :
      Sys ι κ α β τ ε ρ).Sound W C post := by
  have hsub : s.written ⊆ s.written ++ m.2 := List.subset_append_left _ _
  have hm : m.1.Sound W C post s.store.rows (s.written ++ m.2) := by
    apply (h.txn t x hx).moves h.within h.rows_written hmove
    intro k p act cont row hprog hqueued hfree hrow hp
    exact hcalm.write hx hprog hqueued hfree hrow hp
  refine ⟨h.within, fun k y hy => hsub (h.rows_written k y hy), ?_, ?_,
    fun c hc => (h.commits c hc).mono hsub⟩
  · intro t' x' hx'
    rcases OrderedMap.get?_insert_eq_some hx' with ⟨-, rfl⟩ | ⟨-, hx'⟩
    · exact hm
    · exact (h.txn t' x' hx').mono (fun _ _ => rfl) hsub
  · apply Exclusive.insert h.exclusive
    intro t' x' k hx' hne hholds
    -- a new lock was free, and an old one excludes the others already
    rcases hmove.holds hholds with hold | hfree
    · exact h.exclusive t t' x x' k hx hx' hne.symm hold
    · exact blocked_eq_false hfree hx' hne

/-- **Step rule.** A step whose write finds the row its contract assumes keeps soundness. -/
theorem Sys.sound_step {code : ι → Prog κ α β τ ε ρ} (hcode : Verified W C post code)
    {s : Sys ι κ α β τ ε ρ} {i : Input ι τ} (h : s.Sound W C post) (hcalm : s.Calm C i) :
    (s.step code i).Sound W C post := by
  have hmoves := step_moves code s i
  generalize s.step code i = s' at hmoves
  cases hmoves with
  | idle => exact h
  | start t job hnew => exact h.start hcode t job
  | rollback t stamp x hx => exact h.rollback t
  | commit t stamp x r hx hprog => exact h.committed hx hprog
  | advance t stamp x m hx hmove => exact h.advance hcalm hx hmove

/-- **Run rule.** -/
theorem Sys.sound_run {code : ι → Prog κ α β τ ε ρ} (hcode : Verified W C post code)
    {store : Store κ α β} (hs : store.Within W) {is : List (Input ι τ)}
    (hcalm : Transition.StepsMeet (Sys.step code) (Sys.Calm C) (Sys.init store) is) :
    (Transition.run (Sys.step code) (Sys.init store) is).Sound W C post :=
  Transition.run_invariant (Sys.Sound W C post) (fun _ _ h hc => sound_step hcode h hc)
    (sound_init hs) hcalm

end Soundness

end Yorishiro.Lib
