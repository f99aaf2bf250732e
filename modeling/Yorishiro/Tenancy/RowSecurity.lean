import Yorishiro.Base.Uuid
import Yorishiro.Lib.Settings
import Yorishiro.Lib.Transition

/-!
# Row-level security over pooled connections

Requests of all tenants share the connections of the tenant pool. A connection assumes the
application role when it is opened; a request names its tenant and its workspace in settings of
the session, for a transaction (`begin_for_workspace`) or until it gives the connection back
(`acquire_for_workspace`), and the hook on release clears them. A table's policy compares one of
these settings with a column of each row (`rlsPolicy`, on all tables whose policy
`enable_rls_with_policy` has made), and that of `api_keys` compares both (`apiKeysPolicy`). The
tables that the role may read without any policy, and those of embeddings and lifecycles, which
have policies of their own, are not among these.

`pool_isolates` is what that is for: in every state a pool can get to, whatever fails and
whoever drops a transaction without ending it, a statement sees of these tables the rows of the
tenant and the workspace its own request has named and no others, and a connection that nobody has
named them on shows no row of them.
-/

set_option autoImplicit false

namespace Yorishiro.Tenancy.RowSecurity

open Yorishiro.Lib Yorishiro.Lib.Transition
open Yorishiro.Lib.Settings (Session)

/-! ## Settings -/

/-- The settings the pools write. -/
inductive Setting where
  | currentTenant
  | currentWorkspace
  | timeZone
deriving DecidableEq, Repr

/-- A session of the database. -/
abbrev Conn := Session Setting

/-- `PoolRole`. -/
inductive PoolRole where
  | identity
  | tenant
deriving DecidableEq, Repr

/-- The role of the tenant pool's connections. -/
def appRole : String := "yorishiro_app"

/-- `initialize`. -/
def PoolRole.initialize (role : PoolRole) (conn : Conn) : Conn :=
  match role with
  | .tenant => conn.setRole appRole
  | .identity => conn

/-- `reset`. -/
def PoolRole.reset (role : PoolRole) (conn : Conn) : Conn :=
  match role with
  | .tenant => (conn.reset .currentTenant).reset .currentWorkspace
  | .identity => conn

/-- The `after_connect` hook of `postgres_session_options`. -/
def afterConnect (timezone : String) (role : PoolRole) (conn : Conn) : Conn :=
  let conn := PoolRole.initialize role conn
  conn.setConfig .timeZone timezone false

/-- The `after_release` hook of `postgres_session_options`. -/
def afterRelease (timezone : String) (role : PoolRole) (conn : Conn) : Conn :=
  (role.reset conn).setConfig .timeZone timezone false

/-- `begin_for_workspace`, on the connection the pool gives. -/
def beginForWorkspace (conn : Conn) (tenant workspace : Uuid) : Conn :=
  (conn.start.setConfig .currentTenant tenant.toString true).setConfig .currentWorkspace
    workspace.toString true

/-- `acquire_for_workspace`, on the connection the pool gives. -/
def acquireForWorkspace (conn : Conn) (tenant workspace : Uuid) : Conn :=
  (conn.setConfig .currentTenant tenant.toString false).setConfig .currentWorkspace
    workspace.toString false

/-! ## Policies -/

/-- Why the evaluation of a policy fails. -/
inductive PolicyErr where
  | undefinedObject (name : Setting)
  | invalidTextRepresentation (text : String)
deriving DecidableEq, Repr

/-- `::uuid`. -/
def castUuid (text : String) : Except PolicyErr Uuid :=
  match Uuid.parseStr text with
  | some id => .ok id
  | none => .error (.invalidTextRepresentation text)

/-- `current_setting(name)::uuid`. -/
def strictKey (conn : Conn) (name : Setting) : Except PolicyErr (Option Uuid) :=
  match conn.current name with
  | none => .error (.undefinedObject name)
  | some text => (castUuid text).map some

/-- `NULLIF(current_setting(name, true), '')::uuid`. -/
def lenientKey (conn : Conn) (name : Setting) : Except PolicyErr (Option Uuid) :=
  match conn.current name with
  | none => .ok none
  | some text => if text = "" then .ok none else (castUuid text).map some

/-- The key of `enable_rls_with_policy`. -/
def policyKey (lenient : Bool) (conn : Conn) (name : Setting) : Except PolicyErr (Option Uuid) :=
  if lenient then lenientKey conn name else strictKey conn name

/-- A policy: whether a row may be seen, and written. A comparison with null is not true. -/
abbrev Policy (α : Type) := Conn → α → Except PolicyErr Bool

/-- The policy of `enable_rls_with_policy`. -/
def rlsPolicy {α : Type} (column : α → Uuid) (name : Setting) (lenient : Bool) : Policy α :=
  fun conn row => (policyKey lenient conn name).map fun key => decide (key = some (column row))

/-- The policy of `api_keys`: keys of the workspace, and keys of the tenant alone. -/
def apiKeysPolicy {α : Type} (workspaceId : α → Option Uuid) (tenantId : α → Uuid) : Policy α :=
  fun conn row => do
    let workspace ← lenientKey conn .currentWorkspace
    let tenant ← lenientKey conn .currentTenant
    pure (match workspaceId row with
      | some id => decide (workspace = some id)
      | none => decide (tenant = some (tenantId row)))

/-- The rows that a statement sees of a table. -/
def select {α : Type} (policy : Policy α) (conn : Conn) : List α → Except PolicyErr (List α)
  | [] => .ok []
  | row :: rows =>
      -- other roles own the tables, and no policy applies to them
      if conn.role = some appRole then do
        let visible ← policy conn row
        let rest ← select policy conn rows
        pure (if visible then row :: rest else rest)
      else .ok (row :: rows)

/-! ## The pool -/

/-- What the holder of a connection has done with it. -/
inductive Use where
  | unscoped
  | transaction (tenant workspace : Uuid)
  | session (tenant workspace : Uuid)
deriving DecidableEq, Repr

/-- A connection that a request holds. -/
structure Holder where
  conn : Conn
  use : Use

/-- A pool: its role and timezone, the connections nobody holds, and the requests that hold
one. -/
structure Pool (ι : Type) where
  role : PoolRole
  timezone : String
  idle : List Conn
  held : ι → Option Holder

/-- What happens next. -/
inductive Label (ι : Type) where
  /-- A new connection, which is only kept when its hook succeeds. -/
  | connect (initialized : Bool)
  /-- A request gets the first connection that is idle. -/
  | take (i : ι)
  /-- `begin_for_workspace`; its transaction begins, and naming the scope may fail. -/
  | begin (i : ι) (tenant workspace : Uuid) (named : Bool)
  /-- `acquire_for_workspace`. -/
  | scope (i : ι) (tenant workspace : Uuid)
  | commit (i : ι)
  | rollback (i : ι)
  /-- The request gives the connection back, or drops it: an open transaction is rolled back, and
  the connection is kept when the hook succeeds. -/
  | release (i : ι) (reset : Bool)
  /-- The request keeps the connection for itself. -/
  | detach (i : ι)

section Pools

variable {ι : Type} [DecidableEq ι]

/-- The pool with another holder under `i`. -/
def Pool.put (p : Pool ι) (i : ι) (holder : Option Holder) : Pool ι :=
  { p with held := Function.update p.held i holder }

/-- What the request `i` makes of its connection. -/
def Pool.use (p : Pool ι) (i : ι) (f : Holder → Holder) : Pool ι :=
  p.put i ((p.held i).map f)

/-- Names a scope on a connection that has none. -/
def Holder.begin (holder : Holder) (tenant workspace : Uuid) (named : Bool) : Holder :=
  match holder.use with
  | .unscoped =>
      if named then
        ⟨beginForWorkspace holder.conn tenant workspace, .transaction tenant workspace⟩
      else ⟨holder.conn.start.rollback, .unscoped⟩
  | _ => holder

def Holder.scope (holder : Holder) (tenant workspace : Uuid) : Holder :=
  match holder.use with
  | .unscoped => ⟨acquireForWorkspace holder.conn tenant workspace, .session tenant workspace⟩
  | _ => holder

/-- Ends the transaction. -/
def Holder.finish (holder : Holder) (committed : Bool) : Holder :=
  match holder.use with
  | .transaction _ _ =>
      ⟨if committed then holder.conn.commit else holder.conn.rollback, .unscoped⟩
  | _ => holder

/-- A step of the pool. -/
def step (p : Pool ι) : Label ι → Pool ι
  | .connect initialized =>
      if initialized then { p with idle := p.idle ++ [afterConnect p.timezone p.role .fresh] }
      else p
  | .take i =>
      match p.held i, p.idle with
      | none, conn :: idle => { p.put i (some ⟨conn, .unscoped⟩) with idle := idle }
      | _, _ => p
  | .begin i tenant workspace named => p.use i (·.begin tenant workspace named)
  | .scope i tenant workspace => p.use i (·.scope tenant workspace)
  | .commit i => p.use i (·.finish true)
  | .rollback i => p.use i (·.finish false)
  | .release i reset =>
      match p.held i with
      | none => p
      | some holder =>
          let conn := afterRelease p.timezone p.role (holder.finish false).conn
          { p.put i none with idle := if reset then p.idle ++ [conn] else p.idle }
  | .detach i => p.put i none

/-- A pool before its first connection. -/
def Pool.start (role : PoolRole) (timezone : String) : Pool ι :=
  { role := role, timezone := timezone, idle := [], held := fun _ => none }

/-! ## What a connection shows -/

/-- A connection of the application role, in the pool's timezone, with `settings` for the
session. -/
structure Opened (timezone : String) (settings : Setting → Option String) : Prop where
  blank : ∀ name, name ≠ .timeZone → settings name = none ∨ settings name = some ""
  zone : settings .timeZone = some timezone

/-- Nobody has named a scope on the connection. -/
structure Unscoped (timezone : String) (conn : Conn) : Prop where
  role : conn.role = some appRole
  opened : Opened timezone conn.base
  overlay : ∀ name, conn.overlay name = none
  saved : conn.saved = none

/-- A transaction has named its scope, which the session does not have. -/
structure InTransaction (timezone : String) (tenant workspace : Uuid) (conn : Conn) : Prop where
  role : conn.role = some appRole
  opened : Opened timezone conn.base
  tenant : conn.overlay .currentTenant = some tenant.toString
  workspace : conn.overlay .currentWorkspace = some workspace.toString
  zone : conn.overlay .timeZone = none
  saved : ∃ saved, conn.saved = some saved ∧ Opened timezone saved

/-- The session has a scope. -/
structure InSession (timezone : String) (tenant workspace : Uuid) (conn : Conn) : Prop where
  role : conn.role = some appRole
  tenant : conn.base .currentTenant = some tenant.toString
  workspace : conn.base .currentWorkspace = some workspace.toString
  overlay : ∀ name, conn.overlay name = none
  saved : conn.saved = none

/-- A holder's connection is in the state its use has brought it to. -/
def Holder.Sound (timezone : String) (holder : Holder) : Prop :=
  match holder.use with
  | .unscoped => Unscoped timezone holder.conn
  | .transaction tenant workspace => InTransaction timezone tenant workspace holder.conn
  | .session tenant workspace => InSession timezone tenant workspace holder.conn

variable {timezone : String} {conn : Conn} {tenant workspace : Uuid}

theorem unscoped_afterConnect (timezone : String) :
    Unscoped timezone (afterConnect timezone .tenant .fresh) where
  role := rfl
  opened :=
    { blank := fun name hne => .inl (Function.update_of_ne hne _ _)
      zone := rfl }
  overlay := fun name => by cases name <;> rfl
  saved := rfl

/-- The hook on release clears whatever a connection outside a transaction has. -/
theorem unscoped_afterRelease (timezone : String) (hrole : conn.role = some appRole)
    (hsaved : conn.saved = none) :
    Unscoped timezone (afterRelease timezone .tenant conn) where
  role := hrole
  opened :=
    { blank := fun name hne => by
        cases name with
        | currentTenant => exact .inr rfl
        | currentWorkspace => exact .inr rfl
        | timeZone => exact absurd rfl hne
      zone := rfl }
  overlay := fun name => by cases name <;> rfl
  saved := hsaved

theorem inTransaction_begin (h : Unscoped timezone conn) (tenant workspace : Uuid) :
    InTransaction timezone tenant workspace (beginForWorkspace conn tenant workspace) := by
  have hbegin : beginForWorkspace conn tenant workspace =
      { conn with
        overlay := Function.update (Function.update conn.overlay .currentTenant
          (some tenant.toString)) .currentWorkspace (some workspace.toString)
        saved := some conn.base } := by
    simp [beginForWorkspace, Session.start, Session.setConfig, h.saved]
  rw [hbegin]
  exact
    { role := h.role
      opened := h.opened
      tenant := rfl
      workspace := rfl
      zone := h.overlay .timeZone
      saved := ⟨conn.base, rfl, h.opened⟩ }

theorem inSession_acquire (h : Unscoped timezone conn) (tenant workspace : Uuid) :
    InSession timezone tenant workspace (acquireForWorkspace conn tenant workspace) where
  role := h.role
  tenant := rfl
  workspace := rfl
  overlay := fun name => by
    cases name with
    | currentTenant => rfl
    | currentWorkspace => rfl
    | timeZone => exact h.overlay .timeZone
  saved := h.saved

theorem Opened.known {overlay base : Setting → Option String} (h : Opened timezone base) :
    Opened timezone fun name => Settings.Session.known (overlay name) (base name) where
  blank := fun name hne => Settings.Session.known_blank (h.blank name hne)
  zone := by
    simp only [h.zone]
    rfl

theorem unscoped_commit (h : InTransaction timezone tenant workspace conn) :
    Unscoped timezone conn.commit where
  role := h.role
  opened := h.opened.known
  overlay := fun _ => rfl
  saved := rfl

theorem unscoped_rollback {saved : Setting → Option String} (hrole : conn.role = some appRole)
    (hsaved : conn.saved = some saved) (h : Opened timezone saved) :
    Unscoped timezone conn.rollback := by
  unfold Settings.Session.rollback
  rw [hsaved]
  exact { role := hrole, opened := h.known, overlay := fun _ => rfl, saved := rfl }

theorem begin_sound {holder : Holder} (h : holder.Sound timezone) (tenant workspace : Uuid)
    (named : Bool) : (holder.begin tenant workspace named).Sound timezone := by
  obtain ⟨conn, use⟩ := holder
  cases use with
  | transaction t w => exact h
  | session t w => exact h
  | unscoped =>
      have hconn : Unscoped timezone conn := h
      cases named with
      | true => exact inTransaction_begin hconn tenant workspace
      | false =>
          have hstart : conn.start = { conn with saved := some conn.base } := by
            simp [Session.start, hconn.saved]
          have hrollback : Unscoped timezone conn.start.rollback := by
            rw [hstart]
            exact unscoped_rollback hconn.role rfl hconn.opened
          exact hrollback

theorem scope_sound {holder : Holder} (h : holder.Sound timezone) (tenant workspace : Uuid) :
    (holder.scope tenant workspace).Sound timezone := by
  obtain ⟨conn, use⟩ := holder
  cases use with
  | transaction t w => exact h
  | session t w => exact h
  | unscoped => exact inSession_acquire h tenant workspace

theorem finish_sound {holder : Holder} (h : holder.Sound timezone) (committed : Bool) :
    (holder.finish committed).Sound timezone := by
  obtain ⟨conn, use⟩ := holder
  cases use with
  | unscoped => exact h
  | session t w => exact h
  | transaction t w =>
      have hconn : InTransaction timezone t w conn := h
      cases committed with
      | true => exact unscoped_commit hconn
      | false =>
          obtain ⟨saved, hsaved, hopened⟩ := hconn.saved
          exact unscoped_rollback hconn.role hsaved hopened

/-- What a holder gives back is cleared. -/
theorem released_unscoped {holder : Holder} (h : holder.Sound timezone) :
    Unscoped timezone (afterRelease timezone .tenant (holder.finish false).conn) := by
  have hfinish := finish_sound h false
  obtain ⟨conn, use⟩ := holder
  cases use with
  | unscoped =>
      have hconn : Unscoped timezone conn := h
      exact unscoped_afterRelease timezone hconn.role hconn.saved
  | session t w =>
      have hconn : InSession timezone t w conn := h
      exact unscoped_afterRelease timezone hconn.role hconn.saved
  | transaction t w =>
      have hconn : Unscoped timezone conn.rollback := hfinish
      exact unscoped_afterRelease timezone hconn.role hconn.saved

/-- Every connection of the tenant pool is where its use has brought it. -/
structure Pool.Sound (timezone : String) (p : Pool ι) : Prop where
  role : p.role = .tenant
  zone : p.timezone = timezone
  idle : ∀ conn ∈ p.idle, Unscoped timezone conn
  held : ∀ i holder, p.held i = some holder → holder.Sound timezone

theorem put_sound {p : Pool ι} (h : p.Sound timezone) (i : ι) {holder : Option Holder}
    (hholder : ∀ x, holder = some x → x.Sound timezone) : (p.put i holder).Sound timezone where
  role := h.role
  zone := h.zone
  idle := h.idle
  held := fun j x hx => by
    by_cases hij : j = i
    · subst hij
      exact hholder x (by simpa [Pool.put] using hx)
    · exact h.held j x (by simpa [Pool.put, Function.update_of_ne hij] using hx)

theorem use_sound {p : Pool ι} (h : p.Sound timezone) (i : ι) {f : Holder → Holder}
    (hf : ∀ x, x.Sound timezone → (f x).Sound timezone) : (p.use i f).Sound timezone := by
  refine put_sound h i fun x hx => ?_
  obtain ⟨holder, hholder, rfl⟩ := Option.map_eq_some_iff.mp hx
  exact hf holder (h.held i holder hholder)

omit [DecidableEq ι] in
theorem idle_sound {p : Pool ι} (h : p.Sound timezone) {idle : List Conn}
    (hidle : ∀ conn ∈ idle, Unscoped timezone conn) :
    ({ p with idle := idle } : Pool ι).Sound timezone :=
  { role := h.role, zone := h.zone, idle := hidle, held := h.held }

theorem step_sound {p : Pool ι} (h : p.Sound timezone) (l : Label ι) :
    (step p l).Sound timezone := by
  cases l with
  | connect initialized =>
      cases initialized with
      | false => exact h
      | true =>
          refine idle_sound h fun conn hconn => ?_
          rcases List.mem_append.mp hconn with hconn | hconn
          · exact h.idle conn hconn
          · rw [List.mem_singleton.mp hconn, h.role, h.zone]
            exact unscoped_afterConnect timezone
  | take i =>
      dsimp only [step]
      split
      · rename_i conn idle _ hidle
        have hmem : ∀ c ∈ conn :: idle, Unscoped timezone c := hidle ▸ h.idle
        refine idle_sound (put_sound h i fun x hx => ?_) fun c hc =>
          hmem c (List.mem_cons_of_mem _ hc)
        cases hx
        exact hmem conn List.mem_cons_self
      · exact h
  | begin i tenant workspace named =>
      exact use_sound h i fun x hx => begin_sound hx tenant workspace named
  | scope i tenant workspace => exact use_sound h i fun x hx => scope_sound hx tenant workspace
  | commit i => exact use_sound h i fun x hx => finish_sound hx true
  | rollback i => exact use_sound h i fun x hx => finish_sound hx false
  | release i reset =>
      dsimp only [step]
      split
      · exact h
      · rename_i holder hholder
        refine idle_sound (put_sound h i fun _ hx => by cases hx) fun conn hconn => ?_
        cases reset with
        | false => exact h.idle conn hconn
        | true =>
            rcases List.mem_append.mp hconn with hconn | hconn
            · exact h.idle conn hconn
            · rw [List.mem_singleton.mp hconn, h.role, h.zone]
              exact released_unscoped (h.held i holder hholder)
  | detach i => exact put_sound h i fun _ hx => by cases hx

theorem run_sound (timezone : String) (labels : List (Label ι)) :
    (run step (.start .tenant timezone) labels).Sound timezone :=
  run_invariant (Pool.Sound timezone) (fun _ l h _ => step_sound h l)
    { role := rfl
      zone := rfl
      idle := fun _ h => absurd h List.not_mem_nil
      held := fun _ _ h => by cases h }
    (StepsMeet.of_forall (fun _ _ => trivial) _ labels)

/-! ## What statements see -/

theorem castUuid_toString (id : Uuid) : castUuid id.toString = .ok id := by
  unfold castUuid
  rw [Uuid.parseStr_toString]

theorem toString_ne_empty (id : Uuid) : id.toString ≠ "" := by
  intro h
  have hlen := Uuid.length_toString id
  rw [h] at hlen
  cases hlen

/-- A setting that names an id is the key of its policies. -/
theorem policyKey_of_current {name : Setting} {id : Uuid}
    (h : conn.current name = some id.toString) (lenient : Bool) :
    policyKey lenient conn name = .ok (some id) := by
  cases lenient with
  | true =>
      simp only [policyKey, if_true, lenientKey, h, if_neg (toString_ne_empty id),
        castUuid_toString]
      rfl
  | false =>
      simp only [policyKey, Bool.false_eq_true, if_false, strictKey, h, castUuid_toString]
      rfl

/-- A blank setting is no key: the policy errs, or is true of no row. -/
theorem policyKey_of_blank {name : Setting} (h : conn.Blank name) (lenient : Bool) :
    (∃ e, policyKey lenient conn name = .error e) ∨ policyKey lenient conn name = .ok none := by
  cases lenient with
  | true =>
      right
      rcases h with h | h
      · simp [policyKey, lenientKey, h]
      · simp [policyKey, lenientKey, h]
  | false =>
      left
      rcases h with h | h
      · exact ⟨_, by simp only [policyKey, Bool.false_eq_true, if_false, strictKey, h]; rfl⟩
      · exact ⟨.invalidTextRepresentation "", by
          simp only [policyKey, Bool.false_eq_true, if_false, strictKey, h]
          rfl⟩

theorem select_eq_filter {α : Type} {policy : Policy α} {visible : α → Bool}
    (hrole : conn.role = some appRole) (h : ∀ row, policy conn row = .ok (visible row))
    (rows : List α) : select policy conn rows = .ok (rows.filter visible) := by
  induction rows with
  | nil => rfl
  | cons row rows ih =>
      rw [select, if_pos hrole, h row, ih, List.filter_cons]
      rfl

theorem select_eq_nil {α : Type} {policy : Policy α} (hrole : conn.role = some appRole)
    (h : ∀ row visible, policy conn row = .ok visible → visible = false) {rows seen : List α}
    (hseen : select policy conn rows = .ok seen) : seen = [] := by
  induction rows generalizing seen with
  | nil =>
      cases hseen
      rfl
  | cons row rows ih =>
      rw [select, if_pos hrole] at hseen
      cases hpolicy : policy conn row with
      | error e => rw [hpolicy] at hseen; cases hseen
      | ok visible =>
          cases hrest : select policy conn rows with
          | error e => rw [hpolicy, hrest] at hseen; cases hseen
          | ok rest =>
              rw [hpolicy, hrest, h row visible hpolicy, ih hrest] at hseen
              cases hseen
              rfl

/-- The columns of a row that policies compare. -/
structure Columns (α : Type) where
  tenantId : α → Uuid
  workspaceId : α → Uuid
  keyWorkspaceId : α → Option Uuid

/-- A connection shows a table as one tenant and workspace see it: under the policies on either
column, strict or lenient, and under that of the API keys. -/
structure Shows (conn : Conn) (tenant workspace : Uuid) : Prop where
  byTenant : ∀ (α : Type) (columns : Columns α) (lenient : Bool) (rows : List α),
    select (rlsPolicy columns.tenantId .currentTenant lenient) conn rows =
      .ok (rows.filter fun row => decide (columns.tenantId row = tenant))
  byWorkspace : ∀ (α : Type) (columns : Columns α) (lenient : Bool) (rows : List α),
    select (rlsPolicy columns.workspaceId .currentWorkspace lenient) conn rows =
      .ok (rows.filter fun row => decide (columns.workspaceId row = workspace))
  keys : ∀ (α : Type) (columns : Columns α) (rows : List α),
    select (apiKeysPolicy columns.keyWorkspaceId columns.tenantId) conn rows =
      .ok (rows.filter fun row => match columns.keyWorkspaceId row with
        | some id => decide (id = workspace)
        | none => decide (columns.tenantId row = tenant))

/-- A connection shows no row of any table under these policies. -/
structure ShowsNothing (conn : Conn) : Prop where
  byTenant : ∀ (α : Type) (columns : Columns α) (lenient : Bool) (rows seen : List α),
    select (rlsPolicy columns.tenantId .currentTenant lenient) conn rows = .ok seen → seen = []
  byWorkspace : ∀ (α : Type) (columns : Columns α) (lenient : Bool) (rows seen : List α),
    select (rlsPolicy columns.workspaceId .currentWorkspace lenient) conn rows = .ok seen →
      seen = []
  keys : ∀ (α : Type) (columns : Columns α) (rows seen : List α),
    select (apiKeysPolicy columns.keyWorkspaceId columns.tenantId) conn rows = .ok seen → seen = []

theorem shows_of_current (hrole : conn.role = some appRole)
    (htenant : conn.current .currentTenant = some tenant.toString)
    (hworkspace : conn.current .currentWorkspace = some workspace.toString) :
    Shows conn tenant workspace where
  byTenant := fun α columns lenient => select_eq_filter hrole fun row => by
    simp only [rlsPolicy, policyKey_of_current htenant, Except.map, Option.some.injEq, eq_comm]
  byWorkspace := fun α columns lenient => select_eq_filter hrole fun row => by
    simp only [rlsPolicy, policyKey_of_current hworkspace, Except.map, Option.some.injEq, eq_comm]
  keys := fun α columns => select_eq_filter hrole fun row => by
    have htenant' := policyKey_of_current htenant true
    have hworkspace' := policyKey_of_current hworkspace true
    simp only [policyKey, if_true] at htenant' hworkspace'
    simp only [apiKeysPolicy, htenant', hworkspace', bind, Except.bind, pure, Except.pure,
      Option.some.injEq]
    cases columns.keyWorkspaceId row with
    | none => simp only [eq_comm]
    | some id => simp only [eq_comm]

theorem rlsPolicy_blank {α : Type} {column : α → Uuid} {name : Setting} (h : conn.Blank name)
    (lenient : Bool) (row : α) (visible : Bool)
    (hvisible : rlsPolicy column name lenient conn row = .ok visible) : visible = false := by
  rcases policyKey_of_blank h lenient with ⟨e, herr⟩ | hnone
  · simp [rlsPolicy, herr, Except.map] at hvisible
  · simpa [rlsPolicy, hnone, Except.map, eq_comm] using hvisible

theorem showsNothing_of_blank (hrole : conn.role = some appRole)
    (htenant : conn.Blank .currentTenant) (hworkspace : conn.Blank .currentWorkspace) :
    ShowsNothing conn where
  byTenant := fun α columns lenient rows seen =>
    select_eq_nil hrole (rlsPolicy_blank htenant lenient)
  byWorkspace := fun α columns lenient rows seen =>
    select_eq_nil hrole (rlsPolicy_blank hworkspace lenient)
  keys := fun α columns rows seen => select_eq_nil hrole fun row visible hvisible => by
    have htenant' := policyKey_of_blank htenant true
    have hworkspace' := policyKey_of_blank hworkspace true
    simp only [policyKey, if_true] at htenant' hworkspace'
    rcases hworkspace' with ⟨e, hw⟩ | hw
    · simp [apiKeysPolicy, hw, bind, Except.bind] at hvisible
    · rcases htenant' with ⟨e, ht⟩ | ht
      · simp [apiKeysPolicy, hw, ht, bind, Except.bind] at hvisible
      · simp only [apiKeysPolicy, hw, ht, bind, Except.bind, pure, Except.pure] at hvisible
        cases hkey : columns.keyWorkspaceId row with
        | none => simpa [hkey, eq_comm] using hvisible
        | some id => simpa [hkey, eq_comm] using hvisible

theorem Unscoped.showsNothing (h : Unscoped timezone conn) : ShowsNothing conn := by
  have hblank : ∀ name, name ≠ .timeZone → conn.Blank name := fun name hne => by
    unfold Settings.Session.Blank Settings.Session.current
    rw [h.overlay name]
    exact h.opened.blank name hne
  exact showsNothing_of_blank h.role (hblank _ (by decide)) (hblank _ (by decide))

theorem InTransaction.shows (h : InTransaction timezone tenant workspace conn) :
    Shows conn tenant workspace := by
  refine shows_of_current h.role ?_ ?_
  · rw [Settings.Session.current, h.tenant]
    rfl
  · rw [Settings.Session.current, h.workspace]
    rfl

theorem InSession.shows (h : InSession timezone tenant workspace conn) :
    Shows conn tenant workspace := by
  refine shows_of_current h.role ?_ ?_
  · rw [Settings.Session.current, h.overlay, h.tenant]
    rfl
  · rw [Settings.Session.current, h.overlay, h.workspace]
    rfl

/-- **Requests of different tenants do not meet in a pool.** In every state that the tenant pool
gets to, a request that has named its scope sees the rows of that scope, exactly, and whoever
holds a connection without having named one, or gets one that was given back, sees none. -/
theorem pool_isolates (timezone : String) (labels : List (Label ι)) :
    (∀ conn ∈ (run step (.start .tenant timezone) labels).idle, ShowsNothing conn) ∧
      ∀ i holder, (run step (.start .tenant timezone) labels).held i = some holder →
        match holder.use with
        | .unscoped => ShowsNothing holder.conn
        | .transaction tenant workspace => Shows holder.conn tenant workspace
        | .session tenant workspace => Shows holder.conn tenant workspace := by
  have hsound := run_sound timezone labels
  refine ⟨fun conn hconn => (hsound.idle conn hconn).showsNothing, fun i holder hholder => ?_⟩
  have hheld := hsound.held i holder hholder
  obtain ⟨conn, use⟩ := holder
  cases use with
  | unscoped =>
      have hconn : Unscoped timezone conn := hheld
      exact hconn.showsNothing
  | transaction t w =>
      have hconn : InTransaction timezone t w conn := hheld
      exact hconn.shows
  | session t w =>
      have hconn : InSession timezone t w conn := hheld
      exact hconn.shows

end Pools

end Yorishiro.Tenancy.RowSecurity
