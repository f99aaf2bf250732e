import Yorishiro.Tenancy.Operations

/-!
# Runs of tenancy operations

Operations one after the other, from any database, with time passing and tenants, users and
workspaces appearing in between. A `Trace` keeps the calls that succeeded, each with the
database before and after it; a call that fails is rolled back and leaves no trace.

`run_kept` is the rule for what never changes: a relation that every statement and every
setup respects holds between any two databases of a run, in their order.
-/

set_option autoImplicit false

namespace Yorishiro.Tenancy

open Yorishiro.Lib
open Yorishiro.Lib.Fence
open Yorishiro.Lib.Transition
open Yorishiro.Queue (Instant)

/-- For examples: the digest is the characters of the text, and expiries are instants. -/
def Externals.plain : Externals where
  hashKey := fun s => s.toList.map fun c => Fin.ofNat 256 c.toNat
  hashPassword := fun salt password => salt ++ password
  verifyPassword := fun password stored => decide (stored = password)
  expiryZone := fun _ => none

/-- A call that succeeded. -/
structure Call where
  op : Op
  result : Result
  before : Db
  after : Db

/-- The database, and the calls that led there. -/
structure Trace where
  db : Db
  calls : List Call

/-- No calls yet. -/
def Trace.start (db : Db) : Trace := ⟨db, []⟩

/-- What happens next. -/
inductive Label where
  | op (op : Op)
  | setup (s : Setup)

/-- One step. -/
def Trace.step (h : Externals) (t : Trace) : Label → Trace
  | .op op =>
      match (op.code h).alone t.db with
      | .ok (r, db) => { db := db, calls := t.calls ++ [⟨op, r, t.db, db⟩] }
      | .error _ => t
  | .setup s => { t with db := s.apply t.db }

section Steps

variable {h : Externals}

/-- **Inversion of a step.** -/
theorem Trace.step_cases (t : Trace) (label : Label) :
    t.step h label = t ∨
      (∃ op r db, (op.code h).alone t.db = .ok (r, db) ∧
        t.step h label = { db := db, calls := t.calls ++ [⟨op, r, t.db, db⟩] }) ∨
      ∃ s : Setup, t.step h label = { t with db := s.apply t.db } := by
  cases label with
  | op op =>
      cases hcode : (op.code h).alone t.db with
      | error e => exact Or.inl (by simp only [Trace.step, hcode])
      | ok r => exact Or.inr (Or.inl ⟨op, r.1, r.2, hcode, by simp only [Trace.step, hcode]⟩)
  | setup s => exact Or.inr (Or.inr ⟨s, rfl⟩)

/-- A recorded call is a run of its operation. -/
def Call.Ran (h : Externals) (call : Call) : Prop :=
  (call.op.code h).alone call.before = .ok (call.result, call.after)

end Steps

/-! ## What is kept -/

/-- Statements and setups respect the relation. -/
structure Kept (h : Externals) (R : Db → Db → Prop) : Prop where
  refl : ∀ db, R db db
  trans : ∀ u v w, R u v → R v w → R u w
  statement : ∀ parts db db', Statement h parts db db' → R db db'
  setup : ∀ (s : Setup) db, R db (s.apply db)

section Rules

variable {h : Externals} {R : Db → Db → Prop}

theorem Kept.op (hR : Kept h R) {op : Op} {db db' : Db} {r : Result}
    (hcode : (op.code h).alone db = .ok (r, db')) : R db db' :=
  Script.Within.alone ((op_within op).mono (hR.statement op.writes)) hR.refl hR.trans hcode

/-- The relation holds from the start of the trace to its end, around every call. -/
structure Trace.Ordered (h : Externals) (R : Db → Db → Prop) (db : Db) (t : Trace) : Prop where
  reached : R db t.db
  ran : ∀ call ∈ t.calls, call.Ran h
  before : ∀ call ∈ t.calls, R db call.before
  later : ∀ call ∈ t.calls, R call.after t.db

theorem Trace.Ordered.step (hR : Kept h R) {db : Db} {t : Trace} (ht : t.Ordered h R db)
    (label : Label) : (t.step h label).Ordered h R db := by
  rcases t.step_cases (h := h) label with heq | ⟨op, r, db', hcode, heq⟩ | ⟨s, heq⟩
  · rw [heq]
    exact ht
  · rw [heq]
    have hmoved : R t.db db' := hR.op hcode
    refine ⟨hR.trans _ _ _ ht.reached hmoved, fun call hcall => ?_, fun call hcall => ?_,
      fun call hcall => ?_⟩
    · rcases List.mem_append.mp hcall with hold | hnew
      · exact ht.ran call hold
      · rw [List.mem_singleton.mp hnew]
        exact hcode
    · rcases List.mem_append.mp hcall with hold | hnew
      · exact ht.before call hold
      · rw [List.mem_singleton.mp hnew]
        exact ht.reached
    · rcases List.mem_append.mp hcall with hold | hnew
      · exact hR.trans _ _ _ (ht.later call hold) hmoved
      · rw [List.mem_singleton.mp hnew]
        exact hR.refl db'
  · rw [heq]
    have hmoved : R t.db (s.apply t.db) := hR.setup s t.db
    exact ⟨hR.trans _ _ _ ht.reached hmoved, ht.ran, ht.before,
      fun call hcall => hR.trans _ _ _ (ht.later call hcall) hmoved⟩

/-- **Run rule.** -/
theorem run_ordered (hR : Kept h R) (db : Db) (labels : List Label) :
    (run (Trace.step h) (.start db) labels).Ordered h R db := by
  have hstart : (Trace.start db).Ordered h R db :=
    ⟨hR.refl db, List.forall_mem_nil _, List.forall_mem_nil _, List.forall_mem_nil _⟩
  have hmeet : StepsMeet (Trace.step h) (fun _ _ => True) (.start db) labels :=
    StepsMeet.of_forall (fun _ _ => trivial) _ _
  exact run_invariant (Trace.Ordered h R db) (fun t label ht _ => ht.step hR label) hstart hmeet

/-- The database at the end of a run is related to any on the way there. -/
theorem run_kept (hR : Kept h R) (t : Trace) (labels : List Label) :
    R t.db (run (Trace.step h) t labels).db := by
  induction labels generalizing t with
  | nil => exact hR.refl t.db
  | cons label labels ih =>
      refine hR.trans _ _ _ ?_ (ih (t.step h label))
      rcases t.step_cases (h := h) label with heq | ⟨op, r, db', hcode, heq⟩ | ⟨s, heq⟩
      · rw [heq]
        exact hR.refl t.db
      · rw [heq]
        exact hR.op hcode
      · rw [heq]
        exact hR.setup s t.db

end Rules

end Yorishiro.Tenancy
