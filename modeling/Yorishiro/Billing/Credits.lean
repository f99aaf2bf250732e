import Yorishiro.Base.Error
import Yorishiro.Base.Uuid
import Yorishiro.Lib.Accounts
import Yorishiro.Lib.Fence
import Yorishiro.Lib.SingleWriter
import Yorishiro.Queue.Lifecycle
import Mathlib.Algebra.Order.Ring.Int

/-!
# The compute credit ledger

A workspace earns credits and is debited for the work that it had done. Both are rows of a
ledger that is only appended to, and the balance is the sum of the workspace's rows. A debit
takes the lock of its workspace, which lasts until its transaction ends, and compares the balance
that it then sees with its amount; earnings take no lock. SQLite has no such locks, and rejects a
transaction that writes after another one has committed.

A transaction makes any number of such calls, on any workspaces, and goes on as it likes after a
refusal (`CreditCaller`). The main results say that the committed calls, in the order of the
commits, are a history of accounts that cover their debits.
-/

set_option autoImplicit false

namespace Yorishiro.Billing

open Yorishiro.Lib Yorishiro.Lib.Fence Yorishiro.Lib.Accounts
open Yorishiro.Queue (Instant)

/-! ## The ledger -/

/-- Which kind of ledger event a row records. -/
inductive TransactionType where
  | earn
  | spend
deriving DecidableEq, Repr

/-- A row of the ledger; the amount is positive for an earn event, negative for a debit. -/
structure CreditRow where
  id : Uuid
  workspaceId : Uuid
  amount : Int64
  transactionType : TransactionType
  createdAt : Instant
  updatedAt : Instant
deriving DecidableEq

/-- The workspaces that there are, and the ledger. -/
structure CreditDb where
  workspaces : List Uuid
  rows : List CreditRow
deriving DecidableEq

/-- An empty ledger. -/
def CreditDb.empty (workspaces : List Uuid) : CreditDb := ⟨workspaces, []⟩

/-- What the rows of a workspace add up to. -/
def CreditDb.total (db : CreditDb) (workspaceId : Uuid) : Int :=
  ((db.rows.filter fun row => row.workspaceId = workspaceId).map fun row => row.amount.toInt).sum

/-- Why a transaction rolls back: a statement failed, or its caller chose to. -/
inductive CreditAbort where
  | failed (e : YorishiroError)
  | rolledBack
deriving DecidableEq

/-- A transaction. -/
abbrev CreditTx := Script String CreditDb CreditAbort

/-- What the database and the clock give a new row. -/
structure RowGiven where
  id : Uuid
  createdAt : Instant
  updatedAt : Instant
deriving DecidableEq

/-- Inserts a row into the ledger. -/
def insertRow (workspaceId : Uuid) (amount : Int64) (transactionType : TransactionType)
    (given : RowGiven) : CreditTx Unit :=
  Script.update fun db =>
    if given.id ∈ db.rows.map CreditRow.id then .error (.failed (.internal .uniqueViolation))
    else if workspaceId ∉ db.workspaces then .error (.failed (.internal .foreignKeyViolation))
    else
      .ok ((), { db with
        rows := db.rows ++ [{
          id := given.id
          workspaceId := workspaceId
          amount := amount
          transactionType := transactionType
          createdAt := given.createdAt
          updatedAt := given.updatedAt }] })

/-- `CAST(… AS bigint)`. -/
def castBigint (n : Int) : Except CreditAbort Int64 :=
  if -2 ^ 63 ≤ n ∧ n < 2 ^ 63 then .ok (Int64.ofInt n) else .error (.failed (.internal .outOfRange))

/-- The workspace's current balance. -/
def balance (workspaceId : Uuid) : CreditTx Int64 := do
  let total ← Script.read fun db => castBigint (db.total workspaceId)
  Script.ofExcept total

/-- Records an earn event for the workspace. -/
def earn (workspaceId : Uuid) (amount : Int64) (given : RowGiven) :
    CreditTx (Except YorishiroError Unit) :=
  if amount ≤ 0 then
    pure (.error (.validationFailed "earn amount must be positive" []
      "use spend for debit events"))
  else do
    insertRow workspaceId amount .earn given
    pure (.ok ())

/-- The lock of a workspace's debits. -/
def creditLock (workspaceId : Uuid) : String := "compute-credit:" ++ workspaceId.toString

/-- Debits the positive actual cost after successful work without permitting an overdraft. -/
def debitActual (workspaceId : Uuid) (amount : Int64) (given : RowGiven) :
    CreditTx (Except YorishiroError Unit) :=
  if amount ≤ 0 then
    pure (.error (.validationFailed "actual credit cost must be positive" []
      "debit only the positive cost of successful work"))
  else do
    Script.acquire (creditLock workspaceId)
    let total ← balance workspaceId
    if total < amount then
      pure (.error (.validationFailed "insufficient compute credits" []
        "earn more compute credits before running this work"))
    else do
      insertRow workspaceId (-amount) .spend given
      pure (.ok ())

/-! ## Callers -/

/-- A call of `earn` or `debitActual`. -/
inductive CreditCall where
  | earn (workspaceId : Uuid) (amount : Int64) (given : RowGiven)
  | debitActual (workspaceId : Uuid) (amount : Int64) (given : RowGiven)
deriving DecidableEq

namespace CreditCall

/-- The workspace that a call is about. -/
def workspaceId : CreditCall → Uuid
  | earn id _ _ => id
  | debitActual id _ _ => id

/-- Makes the call. -/
def perform : CreditCall → CreditTx (Except YorishiroError Unit)
  | earn id amount given => Billing.earn id amount given
  | debitActual id amount given => Billing.debitActual id amount given

/-- The row that a call inserts when it is not refused. -/
def row : CreditCall → CreditRow
  | earn id amount given => ⟨given.id, id, amount, .earn, given.createdAt, given.updatedAt⟩
  | debitActual id amount given =>
      ⟨given.id, id, -amount, .spend, given.createdAt, given.updatedAt⟩

/-- What a call means for the account of its workspace. -/
def posting : CreditCall → Posting Uuid Int
  | earn id amount _ => .deposit id amount.toInt
  | debitActual id amount _ => .withdraw id amount.toInt

end CreditCall

@[simp] theorem CreditCall.workspaceId_row (c : CreditCall) :
    c.row.workspaceId = c.workspaceId := by
  cases c with
  | earn id amount given => rfl
  | debitActual id amount given => rfl

@[simp] theorem CreditCall.account_posting (c : CreditCall) :
    c.posting.account = c.workspaceId := by
  cases c with
  | earn id amount given => rfl
  | debitActual id amount given => rfl

/-- The calls that a transaction made, with what they returned. -/
abbrev CreditCalls := List (CreditCall × Except YorishiroError Unit)

/-- The calls that were not refused. -/
def accepted (calls : CreditCalls) : List CreditCall :=
  (calls.filter fun call => call.2.isOk).map Prod.fst

/-- The rest of a transaction: it calls, sees what comes back and goes on, until it commits
or rolls back. -/
inductive CreditCaller where
  | commit
  | rollback
  | balance (workspaceId : Uuid) (next : Int64 → CreditCaller)
  | call (c : CreditCall) (next : Except YorishiroError Unit → CreditCaller)

/-- The rest of a transaction, after the given calls. -/
def CreditCaller.after : CreditCaller → CreditCalls → CreditTx CreditCalls
  | commit, calls => pure calls
  | rollback, _ => Script.fail .rolledBack
  | balance id next, calls => do
      let total ← Billing.balance id
      (next total).after calls
  | call c next, calls => do
      let result ← c.perform
      (next result).after (calls ++ [(c, result)])

/-- A transaction from its beginning. -/
def CreditCaller.run (caller : CreditCaller) : CreditTx CreditCalls := caller.after []

/-- The transactions of the ledger, and what is committed. -/
abbrev CreditServer := Server CreditCaller String CreditDb CreditAbort CreditCalls

/-- One step on PostgreSQL: a transaction begins, executes a statement or is lost. -/
def CreditServer.next : CreditServer → Event CreditCaller Empty → CreditServer :=
  Server.step CreditCaller.run fun e _ => e.elim

/-- The same transactions on SQLite. -/
abbrev CreditFile := SingleWriter.Server CreditCaller String CreditDb CreditAbort CreditCalls

/-- One step on SQLite. -/
def CreditFile.next : CreditFile → Event CreditCaller Empty → CreditFile :=
  SingleWriter.Server.step CreditCaller.run Empty.elim

/-- The committed state after these steps from an empty ledger. -/
def creditRun (workspaces : List Uuid) (is : List (Event CreditCaller Empty)) :
    Backend → State CreditCaller CreditDb CreditCalls
  | .postgres =>
      (Transition.run CreditServer.next (Server.init (CreditDb.empty workspaces)) is).state
  | .sqlite =>
      (Transition.run CreditFile.next (SingleWriter.Server.init (CreditDb.empty workspaces))
        is).state

/-! ## Rows and accounts -/

/-- The rows of the calls, in order, at the end of the ledger. -/
def CreditDb.append (db : CreditDb) (calls : List CreditCall) : CreditDb :=
  { db with rows := db.rows ++ calls.map CreditCall.row }

theorem CreditDb.append_nil (db : CreditDb) : db.append [] = db := by
  simp [append]

theorem CreditDb.append_append (db : CreditDb) (cs ds : List CreditCall) :
    (db.append cs).append ds = db.append (cs ++ ds) := by
  simp [append, List.append_assoc]

theorem toInt_neg_of_pos {n : Int64} (h : 0 < n.toInt) : (-n).toInt = -n.toInt := by
  have hlt := n.toInt_lt
  rw [Int64.toInt_neg]
  exact Int.bmod_eq_of_le (by norm_num; omega) (by norm_num; omega)

theorem CreditCall.toInt_row_amount {c : CreditCall} {balance : Uuid → Int}
    (h : c.posting.Allowed balance) : c.row.amount.toInt = c.posting.change := by
  cases c with
  | earn id amount given => rfl
  | debitActual id amount given => exact toInt_neg_of_pos h.1

/-- One row more is one posting to its workspace's account. -/
theorem CreditDb.total_append_one (db : CreditDb) {c : CreditCall}
    (h : c.posting.Allowed db.total) : (db.append [c]).total = c.posting.apply db.total := by
  funext id
  have hsum : (db.append [c]).total id =
      db.total id + if c.workspaceId = id then c.row.amount.toInt else 0 := by
    unfold total append
    rw [List.map_singleton, List.filter_append, List.map_append, List.sum_append]
    by_cases hid : c.workspaceId = id
    · simp [hid]
    · simp [hid]
  rw [hsum]
  by_cases hid : c.workspaceId = id
  · rw [if_pos hid, Posting.apply_of_eq db.total (c.account_posting.trans hid),
      c.toInt_row_amount h]
  · rw [if_neg hid, Posting.apply_of_ne db.total (c.account_posting.symm ▸ hid), add_zero]

/-- **Refinement.** The totals of a ledger are the balances of accounts that cover their
debits. -/
theorem CreditDb.total_append (db : CreditDb) {cs : List CreditCall}
    (h : Covered db.total (cs.map CreditCall.posting)) :
    (db.append cs).total = Accounts.after db.total (cs.map CreditCall.posting) := by
  induction cs generalizing db with
  | nil => rw [append_nil, List.map_nil, after_nil]
  | cons c cs ih =>
      have hone := db.total_append_one h.1
      have happend : db.append (c :: cs) = (db.append [c]).append cs := by
        rw [append_append, List.singleton_append]
      rw [happend, ih (db.append [c]) (hone ▸ h.2), hone, List.map_cons, after_cons]

/-- Calls leave the totals of the other workspaces as they are. -/
theorem CreditDb.total_append_of_ne (db : CreditDb) {cs : List CreditCall} {id : Uuid}
    (h : ∀ c ∈ cs, c.workspaceId ≠ id) : (db.append cs).total id = db.total id := by
  have hnone : (cs.map CreditCall.row).filter (fun row => row.workspaceId = id) = [] := by
    refine List.filter_eq_nil_iff.mpr fun row hrow => ?_
    obtain ⟨c, hc, rfl⟩ := List.mem_map.mp hrow
    simpa using h c hc
  unfold total append
  rw [List.filter_append, hnone, List.append_nil]

theorem accepted_concat_ok (calls : CreditCalls) (c : CreditCall) :
    accepted (calls ++ [(c, .ok ())]) = accepted calls ++ [c] := by
  unfold accepted
  rw [List.filter_append, List.map_append]
  rfl

theorem accepted_concat_error (calls : CreditCalls) (c : CreditCall) (e : YorishiroError) :
    accepted (calls ++ [(c, .error e)]) = accepted calls := by
  unfold accepted
  rw [List.filter_append, List.map_append]
  exact List.append_nil _

/-! ## What the lock protects -/

/-- The accepted calls of the transactions that committed, in the order of the commits. -/
def committed (log : List (Entry CreditCaller CreditDb CreditCalls)) : List CreditCall :=
  log.flatMap fun e => accepted e.result

theorem committed_concat (log : List (Entry CreditCaller CreditDb CreditCalls))
    (e : Entry CreditCaller CreditDb CreditCalls) :
    committed (log ++ [e]) = committed log ++ accepted e.result := by
  unfold committed
  rw [List.flatMap_append, List.flatMap_singleton]

/-- **The invariant of the ledger.** It has the rows of the committed calls, whose debits are
covered in the order of the commits. -/
structure Balanced (workspaces : List Uuid) (w : State CreditCaller CreditDb CreditCalls) :
    Prop where
  rows : w.db = (CreditDb.empty workspaces).append (committed w.log)
  covered : Covered (fun _ => 0) ((committed w.log).map CreditCall.posting)
  entries : ∀ e ∈ w.log, e.after = e.before.append (accepted e.result)

/-- Whoever has the lock of a workspace sees its total not fall. -/
def creditDiscipline (workspaces : List Uuid) :
    Discipline CreditCaller String CreditDb CreditCalls where
  inv := Balanced workspaces
  onward := fun _ _ => True
  keeps := fun name w w' => ∀ id, name = creditLock id → w.db.total id ≤ w'.db.total id
  met := fun _ _ _ => True
  onward_refl := fun _ => trivial
  onward_trans := fun _ _ _ _ _ => trivial
  keeps_refl := fun _ _ _ _ => le_refl _
  keeps_trans := fun _ _ _ _ h h' id hname => (h id hname).trans (h' id hname)

variable {workspaces : List Uuid}

/-- The totals are the balances after the committed calls. -/
theorem Balanced.total {w : State CreditCaller CreditDb CreditCalls} (h : Balanced workspaces w) :
    w.db.total = Accounts.after (fun _ => 0) ((committed w.log).map CreditCall.posting) := by
  rw [h.rows]
  exact (CreditDb.empty workspaces).total_append h.covered

/-- Where a transaction of the ledger stands. -/
abbrev CreditPoint := Point CreditCaller String CreditDb CreditAbort CreditCalls

/-- A transaction has written the rows of some calls. The calls that it has planned are covered
by what is committed, and it has the locks of their debits. -/
structure CreditStage (workspaces : List Uuid) (written planned : List CreditCall)
    (pt : CreditPoint) : Prop where
  inv : Balanced workspaces pt.state
  pending : ∀ d d', pt.pending d = .ok d' → d' = d.append written
  covered : Covered pt.state.db.total (planned.map CreditCall.posting)
  locked : ∀ id amount given, .debitActual id amount given ∈ planned → creditLock id ∈ pt.held

section Stage

variable {written planned : List CreditCall} {pt : CreditPoint} {job : CreditCaller}

/-- The plan stays covered while the state moves as the locks allow. -/
theorem CreditStage.rely (h : CreditStage workspaces written planned pt) {held : List String}
    (seen : List CreditDb) {w : State CreditCaller CreditDb CreditCalls} (hheld : pt.held ⊆ held)
    (hw : (creditDiscipline workspaces).Rely pt.held pt.state w) :
    CreditStage workspaces written planned ⟨held, seen, pt.pending, w⟩ where
  inv := hw.inv
  pending := h.pending
  covered := h.covered.mono fun id n hmem => by
    obtain ⟨c, hc, hposting⟩ := List.mem_map.mp hmem
    cases c with
    | earn id' amount given => cases hposting
    | debitActual id' amount given =>
        cases hposting
        exact hw.keeps _ (h.locked id amount given hc) id rfl
  locked := fun id amount given hc => hheld (h.locked id amount given hc)

/-- What the transaction sees of a workspace: the committed total with its own calls. -/
theorem CreditStage.total_seen (h : CreditStage workspaces planned planned pt) {v : CreditDb}
    (hv : pt.pending pt.state.db = .ok v) :
    v.total = Accounts.after pt.state.db.total (planned.map CreditCall.posting) := by
  rw [h.pending _ _ hv, CreditDb.total_append _ h.covered]

/-- The row of a planned call is written. -/
theorem wp_insertRow {c : CreditCall} {transactionType : TransactionType} {amount : Int64}
    {given : RowGiven} (hrow : c.row = ⟨given.id, c.workspaceId, amount, transactionType,
      given.createdAt, given.updatedAt⟩)
    (h : CreditStage workspaces written (written ++ [c]) pt) :
    (insertRow c.workspaceId amount transactionType given).wp (creditDiscipline workspaces) job
      (fun _ => CreditStage workspaces (written ++ [c]) (written ++ [c])) pt := by
  unfold insertRow
  rw [Script.wp_update]
  intro w hw v hv _ _ v' _
  have hstage := h.rely (pt.seen ++ [v]) (List.Subset.refl _) hw
  refine { hstage with pending := fun d d' hd => ?_ }
  obtain ⟨d₁, hd₁, hinsert⟩ := Except.bind_eq_ok.mp hd
  obtain ⟨⟨_, d₂⟩, hok, rfl⟩ := Except.map_eq_ok hinsert
  split_ifs at hok
  cases hok
  rw [← CreditDb.append_append, ← h.pending d d₁ hd₁]
  unfold CreditDb.append
  rw [List.map_singleton, hrow]

/-- The transaction plans one more call that what it sees covers. -/
theorem CreditStage.plan (h : CreditStage workspaces planned planned pt) {c : CreditCall}
    (hc : c.posting.Allowed
      (Accounts.after pt.state.db.total (planned.map CreditCall.posting)))
    (hlocked : ∀ id amount given, c = .debitActual id amount given → creditLock id ∈ pt.held) :
    CreditStage workspaces planned (planned ++ [c]) pt where
  inv := h.inv
  pending := h.pending
  covered := by
    rw [List.map_append, covered_append]
    exact ⟨h.covered, hc, trivial⟩
  locked := fun id amount given hmem => by
    rcases List.mem_append.mp hmem with hmem | hmem
    · exact h.locked id amount given hmem
    · exact hlocked id amount given (List.mem_singleton.mp hmem).symm

/-- A balance that is read is the total that is seen. -/
theorem wp_balance (id : Uuid) {K : Int64 → CreditPoint → Prop}
    (h : CreditStage workspaces planned planned pt)
    (hK : ∀ n seen w, CreditStage workspaces planned planned ⟨pt.held, seen, pt.pending, w⟩ →
      n.toInt = Accounts.after w.db.total (planned.map CreditCall.posting) id →
      K n ⟨pt.held, seen, pt.pending, w⟩) :
    (balance id).wp (creditDiscipline workspaces) job K pt := by
  unfold balance
  rw [Script.wp_bind, Script.wp_read]
  intro w hw v hv _
  rw [Script.wp_ofExcept]
  intro n hn
  have hstage := h.rely (pt.seen ++ [v]) (List.Subset.refl _) hw
  refine hK n (pt.seen ++ [v]) w hstage ?_
  unfold castBigint at hn
  split_ifs at hn with hrange
  cases hn
  rw [Int64.toInt_ofInt_of_le hrange.1 hrange.2, hstage.total_seen hv]

theorem wp_earn (id : Uuid) (amount : Int64) (given : RowGiven) {calls : CreditCalls}
    (h : CreditStage workspaces (accepted calls) (accepted calls) pt) :
    (earn id amount given).wp (creditDiscipline workspaces) job
      (fun r pt' =>
        let made := accepted (calls ++ [(.earn id amount given, r)])
        CreditStage workspaces made made pt') pt := by
  unfold earn
  split_ifs with hpos
  · rw [Script.wp_pure, accepted_concat_error]
    exact h
  · have hamount : (0 : Int64).toInt < amount.toInt :=
      Int64.lt_iff_toInt_lt.mp (Int64.not_le.mp hpos)
    rw [Script.wp_bind]
    have hplan := h.plan (c := .earn id amount given) hamount fun _ _ _ hc => by cases hc
    refine Script.wp_mono (wp_insertRow (c := .earn id amount given) rfl hplan) fun _ pt' hpt' => ?_
    rw [Script.wp_pure, accepted_concat_ok]
    exact hpt'

theorem wp_debitActual (id : Uuid) (amount : Int64) (given : RowGiven) {calls : CreditCalls}
    (h : CreditStage workspaces (accepted calls) (accepted calls) pt) :
    (debitActual id amount given).wp (creditDiscipline workspaces) job
      (fun r pt' =>
        let made := accepted (calls ++ [(.debitActual id amount given, r)])
        CreditStage workspaces made made pt') pt := by
  unfold debitActual
  split_ifs with hpos
  · rw [Script.wp_pure, accepted_concat_error]
    exact h
  · have hamount : (0 : Int64).toInt < amount.toInt :=
      Int64.lt_iff_toInt_lt.mp (Int64.not_le.mp hpos)
    rw [Script.wp_bind, Script.wp_acquire]
    intro w hw
    have hlocked := h.rely pt.seen (List.subset_cons_self (creditLock id) pt.held) hw
    rw [Script.wp_bind]
    refine wp_balance id hlocked fun n seen w' hstage hn => ?_
    split_ifs with hless
    · rw [Script.wp_pure, accepted_concat_error]
      exact hstage
    · -- the balance that was read covers the debit, and only the holder of the lock lowers it
      have hcover : amount.toInt ≤ n.toInt := Int64.le_iff_toInt_le.mp (Int64.not_lt.mp hless)
      have hplan := hstage.plan (c := .debitActual id amount given) ⟨hamount, hn ▸ hcover⟩
        fun _ _ _ hc => by
          cases hc
          exact List.mem_cons_self
      rw [Script.wp_bind]
      refine Script.wp_mono (wp_insertRow (c := .debitActual id amount given) rfl hplan)
        fun _ pt' hpt' => ?_
      rw [Script.wp_pure, accepted_concat_ok]
      exact hpt'

/-- What a transaction has made it may commit. -/
theorem CreditStage.commits {calls : CreditCalls}
    (h : CreditStage workspaces (accepted calls) (accepted calls) pt) :
    (creditDiscipline workspaces).Commits job calls pt := by
  intro w hw a ha
  have hstage := h.rely pt.seen (List.Subset.refl _) hw
  have hafter : a = w.db.append (accepted calls) := h.pending w.db a ha
  have hlog := committed_concat w.log ⟨job, calls, pt.seen, w.db, a⟩
  refine ⟨⟨?_, ?_, fun e he => ?_⟩, trivial, fun name hname id hid => ?_⟩
  · change a = (CreditDb.empty workspaces).append (committed (w.log ++ [_]))
    rw [hlog, ← CreditDb.append_append, ← hw.inv.rows, hafter]
  · change Covered (fun _ => 0) ((committed (w.log ++ [_])).map CreditCall.posting)
    rw [hlog, List.map_append, covered_append, ← Balanced.total hw.inv]
    exact ⟨hw.inv.covered, hstage.covered⟩
  · rcases List.mem_append.mp he with he | he
    · exact hw.inv.entries e he
    · obtain rfl := List.mem_singleton.mp he
      exact hafter
  · -- without the lock there is no debit
    change w.db.total id ≤ a.total id
    rw [hafter, CreditDb.total_append _ hstage.covered]
    refine hstage.covered.le_after fun n hn => ?_
    obtain ⟨c, hc, hposting⟩ := List.mem_map.mp hn
    cases c with
    | earn id' amount given => cases hposting
    | debitActual id' amount given =>
        cases hposting
        exact hname (hid ▸ h.locked id amount given hc)

/-- **Run lemma of a transaction**, for whatever it goes on to call. -/
theorem wp_after (caller : CreditCaller) {calls : CreditCalls}
    (h : CreditStage workspaces (accepted calls) (accepted calls) pt) :
    (caller.after calls).wp (creditDiscipline workspaces) job
      ((creditDiscipline workspaces).Commits job) pt := by
  induction caller generalizing calls pt with
  | commit => exact h.commits
  | rollback => trivial
  | balance id next ih =>
      unfold CreditCaller.after
      rw [Script.wp_bind]
      exact wp_balance id h fun n seen w hstage _ => ih n hstage
  | call c next ih =>
      unfold CreditCaller.after
      rw [Script.wp_bind]
      cases c with
      | earn id amount given =>
          exact Script.wp_mono (wp_earn id amount given h) fun r _ hpt' => ih r hpt'
      | debitActual id amount given =>
          exact Script.wp_mono (wp_debitActual id amount given h) fun r _ hpt' => ih r hpt'

end Stage

theorem credits_verified (workspaces : List Uuid) :
    Verified (creditDiscipline workspaces) CreditCaller.run := by
  intro caller w hinv
  refine wp_after caller ⟨hinv, fun d d' hd => ?_, trivial, fun _ _ _ hc => by cases hc⟩
  cases hd
  exact (CreditDb.append_nil d).symm

theorem credits_tame (workspaces : List Uuid) :
    Tame (creditDiscipline workspaces) fun (e : Empty) _ => e.elim := fun e => e.elim

theorem balanced_empty (workspaces : List Uuid) :
    Balanced workspaces ⟨CreditDb.empty workspaces, []⟩ where
  rows := (CreditDb.append_nil _).symm
  covered := trivial
  entries := fun e he => by cases he

/-- **Run lemma.** Every interleaving of transactions keeps the invariant of the ledger. -/
theorem balanced_run (workspaces : List Uuid) (is : List (Event CreditCaller Empty))
    (backend : Backend) : Balanced workspaces (creditRun workspaces is backend) := by
  cases backend with
  | postgres =>
      exact (Server.sound_run (credits_verified workspaces) (credits_tame workspaces)
        (balanced_empty workspaces) (Server.stepsMeet (fun _ _ _ => trivial) _ is)).inv
  | sqlite =>
      exact SingleWriter.Server.inv_run (credits_verified workspaces) (fun e => e.elim)
        (fun _ _ _ => trivial)
        (balanced_empty workspaces) is

/-! ## Main results -/

/-- A call adds its row where it is accepted and nothing where it is refused, whatever its
statements see. -/
theorem CreditCall.perform_effects (c : CreditCall) :
    c.perform.Effects fun d r d' => d' = if r.isOk then d.append [c] else d := by
  have hinsert : ∀ (transactionType : TransactionType) (amount : Int64) (given : RowGiven),
      c.row = ⟨given.id, c.workspaceId, amount, transactionType, given.createdAt,
        given.updatedAt⟩ →
      (insertRow c.workspaceId amount transactionType given >>= fun _ =>
        (pure (.ok ()) : CreditTx (Except YorishiroError Unit))).Effects
          fun d r d' => d' = if r.isOk then d.append [c] else d := by
    intro transactionType amount given hrow
    refine (Script.effects_update (a := ()) (S := fun d d' => d' = d.append [c])
      fun d b d' hok => ⟨rfl, ?_⟩).bind (fun _ =>
        Script.effects_pure (Except.ok () : Except YorishiroError Unit)) ?_
    · split_ifs at hok
      cases hok
      unfold CreditDb.append
      rw [List.map_singleton, hrow]
    · rintro d _ d' r d'' ⟨-, rfl⟩ ⟨rfl, rfl⟩
      rfl
  cases c with
  | earn id amount given =>
      change Script.Effects (Billing.earn id amount given) _
      unfold Billing.earn
      split_ifs
      · exact fun d => rfl
      · exact hinsert .earn amount given rfl
  | debitActual id amount given =>
      have hquiet : Script.Quiet (balance id) :=
        (Script.within_read _).bind fun total => Script.within_ofExcept total
      change Script.Effects (Billing.debitActual id amount given) _
      unfold Billing.debitActual
      split_ifs
      · exact fun d => rfl
      · refine Script.Quiet.effects_bind (Script.within_acquire _) fun _ =>
          hquiet.effects_bind fun total => ?_
        split_ifs
        · exact fun d => rfl
        · exact hinsert .spend (-amount) given rfl

/-- What the committed calls earned the workspace. -/
def earnings (log : List (Entry CreditCaller CreditDb CreditCalls)) (id : Uuid) : Int :=
  deposited id ((committed log).map CreditCall.posting)

/-- What the committed calls debited the workspace. -/
def debits (log : List (Entry CreditCaller CreditDb CreditCalls)) (id : Uuid) : Int :=
  withdrawn id ((committed log).map CreditCall.posting)

/-- **The ledger is never overdrawn.** In every interleaving of transactions that earn and debit
credits, every committed balance is what committed calls earned less what they debited, and not
negative. Refused calls insert nothing, and a commit leaves the balances of the workspaces that
it has no accepted calls for. -/
theorem credits_never_overdrawn (workspaces : List Uuid) (is : List (Event CreditCaller Empty))
    (backend : Backend) :
    let w := creditRun workspaces is backend
    (∀ id, w.db.total id = earnings w.log id - debits w.log id ∧ 0 ≤ w.db.total id) ∧
      (∀ e ∈ w.log, e.after = e.before.append (accepted e.result) ∧
        ∀ id, (∀ c ∈ accepted e.result, c.workspaceId ≠ id) →
          e.after.total id = e.before.total id) ∧
      ∀ c : CreditCall,
        c.perform.Effects fun d r d' => d' = if r.isOk then d.append [c] else d := by
  intro w
  have hbalanced : Balanced workspaces w := balanced_run workspaces is backend
  refine ⟨fun id => ⟨?_, ?_⟩, fun e he => ⟨hbalanced.entries e he, fun id hid => ?_⟩,
    CreditCall.perform_effects⟩
  · rw [hbalanced.total, after_eq, zero_add]
    rfl
  · rw [hbalanced.total]
    exact hbalanced.covered.nonneg (fun _ => le_refl 0) id
  · rw [hbalanced.entries e he]
    exact e.before.total_append_of_ne hid

/-- A debit of seven in a transaction of its own. -/
def debitSeven (row : Uuid) : CreditCaller := .call (.debitActual 1 7 ⟨row, 0, 0⟩) fun _ => .commit

/-- Ten credits are earned, and two debits of seven race for them. -/
def debitsRace : List (Event CreditCaller Empty) :=
  [.start 0 (.call (.earn 1 10 ⟨0, 0, 0⟩) fun _ => .commit)] ++ Event.steps 0 2 ++
    [.start 1 (debitSeven 1), .start 2 (debitSeven 2)] ++
    (List.replicate 4 [.step 1, .step 2]).flatten ++ Event.steps 2 4

-- the second debit waits and is refused, or is stale and fails
example (backend : Backend) : (creditRun [1] debitsRace backend).db.total 1 = 3 := by
  cases backend with
  | postgres => decide
  | sqlite => decide

/-- **Refinement.** The committed calls are, in the order of the commits, a history of accounts
that cover their debits, and the ledger shows their balances. -/
theorem credits_refine_accounts (workspaces : List Uuid) (is : List (Event CreditCaller Empty))
    (backend : Backend) :
    let w := creditRun workspaces is backend
    Covered (fun _ => 0) ((committed w.log).map CreditCall.posting) ∧
      w.db.total = Accounts.after (fun _ => 0) ((committed w.log).map CreditCall.posting) :=
  ⟨(balanced_run workspaces is backend).covered, (balanced_run workspaces is backend).total⟩

/-- A debit that runs alone is accepted when the balance covers it, and only then. -/
theorem debitActual_alone {db : CreditDb} {id : Uuid} {amount : Int64} {given : RowGiven}
    (hrange : -2 ^ 63 ≤ db.total id ∧ db.total id < 2 ^ 63)
    (hgiven : given.id ∉ db.rows.map CreditRow.id) (hid : id ∈ db.workspaces)
    (hamount : 0 < amount.toInt) :
    (amount.toInt ≤ db.total id →
      (debitActual id amount given).alone db =
        .ok (.ok (), db.append [.debitActual id amount given])) ∧
    (db.total id < amount.toInt →
      ∃ e, (debitActual id amount given).alone db = .ok (.error e, db)) := by
  have hpos : ¬ amount ≤ 0 := Int64.not_le.mpr (Int64.lt_iff_toInt_lt.mpr hamount)
  have hcast : castBigint (db.total id) = .ok (Int64.ofInt (db.total id)) := if_pos hrange
  have htotal := Int64.toInt_ofInt_of_le hrange.1 hrange.2
  have hbalance : (balance id).alone db = .ok (Int64.ofInt (db.total id), db) := by
    unfold balance
    rw [Script.alone_read_bind, hcast]
    rfl
  unfold debitActual
  rw [if_neg hpos, Script.alone_acquire_bind, Script.alone_bind, hbalance]
  refine ⟨fun hle => ?_, fun hlt => ?_⟩
  · have hless : ¬ Int64.ofInt (db.total id) < amount := by
      rw [Int64.lt_iff_toInt_lt, htotal]
      exact not_lt.mpr hle
    simp only [Except.bind, if_neg hless]
    rw [Script.alone_bind]
    simp only [insertRow, Script.alone_update, if_neg hgiven, not_true_eq_false, hid, if_false,
      Except.bind, Script.alone_pure]
    rfl
  · have hless : Int64.ofInt (db.total id) < amount := by
      rw [Int64.lt_iff_toInt_lt, htotal]
      exact hlt
    simp only [Except.bind, if_pos hless]
    exact ⟨_, rfl⟩

end Yorishiro.Billing
