import Yorishiro.Base.Error
import Yorishiro.Queue.Lifecycle

/-!
# The maintenance switch

One row of `system_maintenance` says what the deployment refuses: nothing, writes, or
everything. Operators write it with `set`; `set_if_current` writes it only where it still
holds what its caller has read. Requests pass `maintenance_guard`, which reads the row for
each of them.

The row carries the CHECK constraints of its table, so that what `set` stores is what `get`
reads (`get_set`), and `set_if_current` succeeds exactly on the row that reads as expected
(`setIfCurrent_get`).
-/

set_option autoImplicit false

namespace Yorishiro.Maintenance

open Yorishiro.Lib
open Yorishiro.Queue (i32Max)

/-! ## States -/

/-- `DEFAULT_RETRY_AFTER_SECONDS`. -/
def defaultRetryAfterSeconds : Nat := 300

/-- `AUTO_REASON`: the reason recorded when the load guard, not an operator, enables
read-only mode. -/
def autoReason : String := "database load (automatic)"

/-- What the deployment is refusing. -/
inductive MaintenanceMode where
  | off
  | readOnly
  | fullLock
deriving DecidableEq, Repr

/-- `as_db_str`. -/
def MaintenanceMode.asDbStr : MaintenanceMode → String
  | .off => "off"
  | .readOnly => "read_only"
  | .fullLock => "full_lock"

/-- `from_db_str`. -/
def MaintenanceMode.fromDbStr (value : String) : Option MaintenanceMode :=
  if value = "off" then some .off
  else if value = "read_only" ∨ value = "read-only" then some .readOnly
  else if value = "full_lock" ∨ value = "full-lock" then some .fullLock
  else none

/-- `MaintenanceState`. -/
structure MaintenanceState where
  mode : MaintenanceMode
  retryAfter : Nat
  reason : Option String
deriving DecidableEq, Repr

/-- `YorishiroError::Maintenance`. -/
structure Refusal where
  message : String
  readOnly : Bool
  retryAfter : Nat
deriving DecidableEq, Repr

/-- The HTTP status a refusal is answered with. -/
def Refusal.httpStatus (r : Refusal) : Nat := if r.readOnly then 423 else 503

/-- `refusal`: the error to refuse a request with, or `none` when it may proceed. -/
def MaintenanceState.refusal (s : MaintenanceState) (isWrite : Bool) : Option Refusal :=
  let (refuse, readOnly) := match s.mode with
    | .off => (false, false)
    | .readOnly => (isWrite, true)
    | .fullLock => (true, false)
  if !refuse then none
  else
    some
      { message := s.reason.getD
          (if readOnly then "the deployment is read-only for maintenance; writes are disabled"
          else "the deployment is unavailable for maintenance")
        readOnly := readOnly
        retryAfter := s.retryAfter }

/-! ## The row -/

/-- `maintenance_mode_check`. -/
def storedModes : List String := ["off", "read_only", "full_lock"]

/-- The row of `system_maintenance`, under the constraints of the table. -/
structure MaintenanceRow where
  mode : String
  retryAfter : Int
  reason : Option String
  modeCheck : mode ∈ storedModes
  retryAfterCheck : 0 < retryAfter ∧ retryAfter ≤ i32Max
deriving DecidableEq

/-- `i32::try_from(n).unwrap_or(i32::MAX)`. -/
def toI32 (n : Nat) : Int := if (n : Int) ≤ i32Max then n else i32Max

theorem asDbStr_mem (mode : MaintenanceMode) : mode.asDbStr ∈ storedModes := by
  cases mode with
  | off => exact List.mem_cons_self
  | readOnly => exact List.mem_cons_of_mem _ List.mem_cons_self
  | fullLock => exact List.mem_cons_of_mem _ (List.mem_cons_of_mem _ List.mem_cons_self)

theorem toI32_check (n : Nat) : 0 < toI32 (max n 1) ∧ toI32 (max n 1) ≤ i32Max := by
  have hmax : i32Max = 2147483647 := rfl
  unfold toI32
  split_ifs with h
  · exact ⟨by omega, h⟩
  · exact ⟨by omega, le_refl _⟩

/-- The row that stores a mode, an interval and a reason. -/
def MaintenanceRow.of (mode : MaintenanceMode) (retryAfter : Nat) (reason : Option String) :
    MaintenanceRow where
  mode := mode.asDbStr
  retryAfter := toI32 (max retryAfter 1)
  reason := reason
  modeCheck := asDbStr_mem mode
  retryAfterCheck := toI32_check retryAfter

/-- The row that the migration inserts. -/
def MaintenanceRow.seed : MaintenanceRow := .of .off defaultRetryAfterSeconds none

/-- `get`. -/
def get (row : Option MaintenanceRow) : Except YorishiroError MaintenanceState :=
  match row with
  | none => .ok { mode := .off, retryAfter := defaultRetryAfterSeconds, reason := none }
  | some row =>
      match MaintenanceMode.fromDbStr row.mode with
      | none =>
          .error (.internal (.custom
            s!"system_maintenance.mode holds '{row.mode}', which is not a maintenance mode"))
      | some mode =>
          .ok { mode := mode, retryAfter := (max row.retryAfter 1).toNat, reason := row.reason }

/-- `set`. -/
def set (row : Option MaintenanceRow) (mode : MaintenanceMode) (retryAfter : Nat)
    (reason : Option String) : Except YorishiroError (MaintenanceState × MaintenanceRow) :=
  match row with
  | none => .error (.internal (.custom "None of the records are updated"))
  | some _ =>
      .ok ({ mode := mode, retryAfter := max retryAfter 1, reason := reason },
        .of mode retryAfter reason)

/-- `set_if_current`: whether the row was the expected one, and the row after it. -/
def setIfCurrent (row : Option MaintenanceRow) (expected : MaintenanceState)
    (mode : MaintenanceMode) (retryAfter : Nat) (reason : Option String) :
    Bool × Option MaintenanceRow :=
  match row with
  | none => (false, none)
  | some row =>
      if row.mode = expected.mode.asDbStr ∧ row.retryAfter = toI32 expected.retryAfter ∧
          row.reason = expected.reason then
        (true, some (.of mode retryAfter reason))
      else (false, some row)

/-! ## Requests -/

/-- `always_served`. -/
def alwaysServed (path : String) : Bool :=
  path == "/_ping" || path == "/_health" || path == "/_readiness" ||
    path == "/api/system/maintenance"

/-- `is_write`. -/
def isWrite (method : String) : Bool :=
  !(method == "GET" || method == "HEAD" || method == "OPTIONS")

/-- What becomes of a request: it is passed on, refused with a `retry-after` header, or the
row cannot be read. -/
inductive Answer where
  | served
  | refused (error : Refusal) (retryAfterHeader : Nat)
  | failed (error : YorishiroError)
deriving DecidableEq, Repr

/-- `maintenance_guard`. -/
def maintenanceGuard (row : Option MaintenanceRow) (path method : String) : Answer :=
  if alwaysServed path then .served
  else
    match get row with
    | .error e => .failed e
    | .ok current =>
        match current.refusal (isWrite method) with
        | some error => .refused error current.retryAfter
        | none => .served

/-! ## What is stored is what is read -/

@[simp] theorem fromDbStr_asDbStr (mode : MaintenanceMode) :
    MaintenanceMode.fromDbStr mode.asDbStr = some mode := by
  cases mode with
  | off => rfl
  | readOnly => rfl
  | fullLock => rfl

theorem asDbStr_injective {a b : MaintenanceMode} (h : a.asDbStr = b.asDbStr) : a = b := by
  have hsome : some a = some b := by rw [← fromDbStr_asDbStr a, h, fromDbStr_asDbStr]
  exact Option.some.inj hsome

/-- The constraint lets the modes through, and nothing else. -/
theorem exists_mode (row : MaintenanceRow) : ∃ mode : MaintenanceMode, row.mode = mode.asDbStr := by
  rcases List.mem_cons.mp row.modeCheck with h | h
  · exact ⟨.off, h⟩
  · rcases List.mem_cons.mp h with h | h
    · exact ⟨.readOnly, h⟩
    · exact ⟨.fullLock, List.mem_singleton.mp h⟩

/-- A stored row is always read. -/
theorem get_some (row : MaintenanceRow) :
    ∃ mode : MaintenanceMode, row.mode = mode.asDbStr ∧
      get (some row) =
        .ok { mode := mode, retryAfter := row.retryAfter.toNat, reason := row.reason } := by
  obtain ⟨mode, hmode⟩ := exists_mode row
  have hretry : max row.retryAfter 1 = row.retryAfter := max_eq_left row.retryAfterCheck.1
  refine ⟨mode, hmode, ?_⟩
  simp only [get, hmode, fromDbStr_asDbStr, hretry]

theorem get_of (mode : MaintenanceMode) (retryAfter : Nat) (reason : Option String) :
    get (some (.of mode retryAfter reason)) =
      .ok { mode := mode, retryAfter := (toI32 (max retryAfter 1)).toNat, reason := reason } := by
  have hretry : max (toI32 (max retryAfter 1)) 1 = toI32 (max retryAfter 1) :=
    max_eq_left (toI32_check retryAfter).1
  simp only [get, MaintenanceRow.of, fromDbStr_asDbStr, hretry]

/-- What `set` stores is what `get` reads, with the interval cut to what the column holds. -/
theorem get_set {row : Option MaintenanceRow} {mode : MaintenanceMode} {retryAfter : Nat}
    {reason : Option String} {state : MaintenanceState} {row' : MaintenanceRow}
    (h : set row mode retryAfter reason = .ok (state, row')) :
    get (some row') =
      .ok { mode := mode, retryAfter := (toI32 state.retryAfter).toNat, reason := reason } := by
  cases row with
  | none => cases h
  | some row =>
      cases h
      exact get_of mode retryAfter reason

/-- `set_if_current` finds a row exactly when it reads as expected. -/
theorem setIfCurrent_get {row : MaintenanceRow} {expected : MaintenanceState}
    (h : get (some row) = .ok expected) (mode : MaintenanceMode) (retryAfter : Nat)
    (reason : Option String) :
    setIfCurrent (some row) expected mode retryAfter reason =
      (true, some (.of mode retryAfter reason)) := by
  obtain ⟨m, hmode, hget⟩ := get_some row
  have hfits : ((row.retryAfter.toNat : Nat) : Int) = row.retryAfter :=
    Int.toNat_of_nonneg (le_of_lt row.retryAfterCheck.1)
  have hretry : row.retryAfter = toI32 row.retryAfter.toNat := by
    unfold toI32
    rw [hfits, if_pos row.retryAfterCheck.2]
  obtain rfl : expected = { mode := m, retryAfter := row.retryAfter.toNat, reason := row.reason } :=
    Except.ok.inj (h.symm.trans hget)
  exact if_pos ⟨hmode, hretry, rfl⟩

/-- A row that `set_if_current` changes was the expected one. -/
theorem setIfCurrent_cases (row : MaintenanceRow) (expected : MaintenanceState)
    (mode : MaintenanceMode) (retryAfter : Nat) (reason : Option String) :
    setIfCurrent (some row) expected mode retryAfter reason = (false, some row) ∨
      (setIfCurrent (some row) expected mode retryAfter reason =
          (true, some (.of mode retryAfter reason)) ∧
        row.mode = expected.mode.asDbStr ∧ row.retryAfter = toI32 expected.retryAfter ∧
        row.reason = expected.reason) := by
  by_cases h : row.mode = expected.mode.asDbStr ∧ row.retryAfter = toI32 expected.retryAfter ∧
      row.reason = expected.reason
  · exact .inr ⟨if_pos h, h⟩
  · exact .inl (if_neg h)

end Yorishiro.Maintenance
