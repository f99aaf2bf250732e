import Mathlib.Data.List.Sort
import Yorishiro.Tenancy.ApiKeys

/-!
# Authentication

A presented key is looked up by its digest, resolved to a workspace, and reduced to what its
user may do there. PostgreSQL looks it up through the function `authenticate_api_key`, SQLite
by reading the tables; both go on with the same resolution. `authenticated_iff` says that the
two agree on every database, key and requested workspace, and when they accept and with which
identity. `reachability_agrees` says that the workspaces a user is offered are those the user can
open, whichever query lists them.
-/

set_option autoImplicit false

namespace Yorishiro.Tenancy

open Yorishiro.Lib
open Yorishiro.Lib.Fence
open Yorishiro.Queue (Instant)

/-! ## Workspaces a user can log into -/

/-- A tenant a user can log into. -/
structure LoginMembership where
  tenantId : Uuid
  tenantName : String
  role : MembershipRole
deriving DecidableEq, Repr

/-- A workspace a user can log into. -/
structure LoginWorkspace where
  workspaceId : Uuid
  workspaceName : String
  tenantId : Uuid
  tenantName : String
deriving DecidableEq, Repr

/-- A user's memberships with the rows of their tenants. -/
def membershipTenants (user : Uuid) (db : Db) : List (Uuid × MembershipRole × Option Tenant) :=
  (db.memberships.entries.filter fun e => (ofLex e.1).2 = user).map fun e =>
    ((ofLex e.1).1, e.2, db.tenants.get? (ofLex e.1).1)

/-- The memberships in tenants that are not disabled. -/
def loginMemberships :
    List (Uuid × MembershipRole × Option Tenant) → Except YorishiroError (List LoginMembership)
  | [] => .ok []
  | (_, _, none) :: _ => .error (.internal (.custom "membership tenant missing"))
  | (tenant, role, some row) :: rows =>
      if row.disabledAt.isSome then loginMemberships rows
      else (loginMemberships rows).map fun ms => ⟨tenant, row.name, role⟩ :: ms

/-- The workspaces that a membership or a grant opens. -/
def loginCandidates (memberships : List LoginMembership) (grants : List Uuid) :
    List (Uuid × Workspace) → Except YorishiroError (List LoginWorkspace)
  | [] => .ok []
  | (id, ws) :: rows =>
      if memberships.any (fun m => m.role.administersTenant && decide (m.tenantId = ws.tenantId)) ||
          grants.contains id then
        match memberships.find? fun m => m.tenantId = ws.tenantId with
        | none => .error (.internal (.custom "workspace membership missing"))
        | some m => (loginCandidates memberships grants rows).map fun cs =>
            ⟨id, ws.name, ws.tenantId, m.tenantName⟩ :: cs
      else loginCandidates memberships grants rows

/-- The workspaces a user has direct grants in. -/
def grantedWorkspaces (user : Uuid) (db : Db) : List Uuid :=
  (db.grants.entries.filter fun e => (ofLex e.1).2 = user).map fun e => (ofLex e.1).1

/-- The workspaces of a user with the given open memberships. -/
def loginWorkspaces (user : Uuid) (memberships : List LoginMembership) : Tx (List LoginWorkspace) :=
  if memberships.isEmpty then pure []
  else do
    let workspaces ← Script.read fun db => db.workspaces.entries.filter fun e =>
      memberships.any fun m => m.tenantId = e.2.tenantId
    let grants ← Script.read (grantedWorkspaces user)
    let candidates ← Script.ofExcept (loginCandidates memberships grants workspaces)
    pure (candidates.insertionSort fun a b =>
      toLex (a.tenantId, a.workspaceId) ≤ toLex (b.tenantId, b.workspaceId))

/-- Discovers where a user can log in. -/
def loginOptions (user : Uuid) : Tx (List LoginMembership × List LoginWorkspace) := do
  let rows ← Script.read (membershipTenants user)
  let memberships ← Script.ofExcept (loginMemberships rows)
  let memberships := memberships.insertionSort fun a b => a.tenantId ≤ b.tenantId
  let workspaces ← loginWorkspaces user memberships
  pure (memberships, workspaces)

/-- Every workspace a user can log into. -/
def listWorkspacesForUser (user : Uuid) : Tx (List Uuid) := do
  let options ← loginOptions user
  pure (options.2.map (·.workspaceId))

/-- The workspaces a tenant-scoped key can act on. -/
def reachableWorkspaceIds (tenant : Uuid) (user : Option Uuid) : Tx (List Uuid) :=
  match user with
  | some user => do
      let options ← loginOptions user
      pure ((options.2.filter fun w => w.tenantId = tenant).map (·.workspaceId))
  | none => Script.read fun db =>
      (db.workspaces.entries.filter fun e => e.2.tenantId = tenant).map Prod.fst

/-- The workspaces in the tenant of a presented credential: those of its user, or the selected one
for a service. -/
def discoverWorkspaces (actor : AuthContext) : Tx (List LoginWorkspace) := do
  let current ← currentContext actor
  match current.userId with
  | some user => do
      let options ← loginOptions user
      pure (options.2.filter fun w => w.tenantId = current.tenantId)
  | none => do
      let row ← Script.read fun db =>
        ((db.workspaces.get? current.workspaceId).filter fun ws =>
          ws.tenantId = current.tenantId).map fun ws => (ws, db.tenants.get? ws.tenantId)
      let row ← Script.orFail .unauthenticated row
      let tenant ← Script.orFail .unauthenticated row.2
      pure [⟨current.workspaceId, row.1.name, row.1.tenantId, tenant.name⟩]

/-! ## Resolution -/

/-- The refusal of a workspace the key cannot act on. -/
def foreignWorkspace (hint : String) : YorishiroError :=
  .scopeInsufficient "x-workspace-id names a workspace this key cannot act on" hint

/-- The one workspace a key reaches, when the request names none. -/
def onlyWorkspace : List Uuid → Tx Uuid
  | [workspace] => pure workspace
  | [] => .fail (.scopeInsufficient "this key has no workspace it can act on"
      "create a workspace in this tenant, or send its UUID")
  | _ => .fail (.validationFailed
      "this tenant key can act on more than one workspace, so x-workspace-id is required" []
      "send the workspace's UUID to choose one")

/-- Chooses which workspace a verified credential acts on. -/
def resolveKeyWorkspace (keyWorkspace : Option Uuid) (tenant : Uuid) (user requested : Option Uuid) :
    Tx Uuid :=
  match keyWorkspace, requested with
  | some workspace, some requested =>
      if requested ≠ workspace then
        .fail (foreignWorkspace
          "this key is scoped to a single workspace; omit the header, or use a tenant-scoped key to choose a workspace per request")
      else pure workspace
  | some workspace, none => pure workspace
  | none, some requested => do
      let workspaceTenant ← getWorkspaceTenant requested
      if workspaceTenant ≠ tenant then
        .fail (foreignWorkspace
          "the named workspace belongs to another tenant; send a workspace this key can act on")
      else pure requested
  | none, none => do
      let reachable ← reachableWorkspaceIds tenant user
      onlyWorkspace reachable

/-- What `authenticate_api_key` returns. -/
structure Credential where
  id : Uuid
  workspaceId : Option Uuid
  tenantId : Uuid
  scope : ApiKeyScope
  userId : Option Uuid
  audit : Bool
deriving DecidableEq, Repr

/-- The columns of a key that authentication reads. -/
def ApiKey.credential (key : ApiKey) (id : Uuid) : Credential :=
  ⟨id, key.workspaceId, key.tenantId, key.scope, key.userId, key.audit⟩

/-- The SQL function `authenticate_api_key`: keys left-joined with their workspaces. -/
def authenticateApiKey (hash : Digest) (db : Db) : List Credential :=
  (db.keys.rows.entries.filter fun e =>
    let workspace := e.2.workspaceId.bind db.workspaces.get?
    decide (e.2.keyHash = hash) && e.2.revokedAt.isNone &&
      (e.2.expiresAt.isNone || e.2.expiresAt.any fun expires => decide (db.clock < expires)) &&
      (e.2.workspaceId.isNone || workspace.any fun w => decide (w.tenantId = e.2.tenantId))).map
    fun e => e.2.credential e.1

/-- SQLite's lookup of an active key by its digest. -/
def findSqliteAuthContext (hash : Digest) : Tx (Option Credential) := do
  let found ← Script.read fun db => db.keys.rows.entries.find? fun e => e.2.keyHash = hash
  match found with
  | none => pure none
  | some (id, key) => do
      let time ← now
      if !key.isActive time then pure none
      else match key.workspaceId with
        | none => pure (some (key.credential id))
        | some workspace => do
            let row ← Script.read fun db => db.workspaces.get? workspace
            pure ((row.filter fun w => w.tenantId = key.tenantId).map fun _ => key.credential id)

/-- From the credential to the identity of the request. -/
def admitCredential (credential : Option Credential) (requested : Option Uuid) : Tx AuthContext := do
  let row ← Script.orFail .unauthenticated credential
  let workspace ← resolveKeyWorkspace row.workspaceId row.tenantId row.userId requested
  AuthContext.withCurrentMembership
    { apiKeyId := row.id
      workspaceId := workspace
      tenantId := row.tenantId
      scope := row.scope
      userId := row.userId
      audit := row.audit }

section Authenticate

variable (h : Externals)

/-- Verifies a presented key on PostgreSQL. -/
def authenticate (presented : String) (requested : Option Uuid) : Tx AuthContext := do
  let rows ← Script.read (authenticateApiKey (h.hashKey presented))
  admitCredential rows.head? requested

/-- Verifies a presented key on SQLite. -/
def authenticateSqlite (presented : String) (requested : Option Uuid) : Tx AuthContext := do
  let row ← findSqliteAuthContext (h.hashKey presented)
  admitCredential row requested

end Authenticate

/-! ## What discovery finds -/

/-- The workspace is one the user, or a service of the tenant, can act on. -/
def Db.Reaches (db : Db) (tenant : Uuid) (user : Option Uuid) (workspace : Uuid) : Prop :=
  match user with
  | some user => (db.access tenant workspace user).isSome = true
  | none => ∃ ws, db.workspaces.get? workspace = some ws ∧ ws.tenantId = tenant

section Discovery

variable {db : Db}

theorem mem_membershipTenants {user tenant : Uuid} {role : MembershipRole} {row : Option Tenant} :
    (tenant, role, row) ∈ membershipTenants user db ↔
      db.role tenant user = some role ∧ row = db.tenants.get? tenant := by
  simp only [membershipTenants, List.mem_map, List.mem_filter, decide_eq_true_eq, Prod.mk.injEq]
  constructor
  · rintro ⟨⟨k, r⟩, ⟨hmem, huser⟩, htenant, hrole, hrow⟩
    obtain rfl : k = toLex (tenant, user) := by
      rw [← htenant, ← huser]
      rfl
    subst hrole
    exact ⟨(OrderedMap.mem_entries_iff db.memberships _ _).mp hmem, hrow.symm⟩
  · rintro ⟨hrole, rfl⟩
    exact ⟨(toLex (tenant, user), role),
      ⟨(OrderedMap.mem_entries_iff db.memberships _ _).mpr hrole, rfl⟩, rfl, rfl, rfl⟩

/-- With every tenant there, the open memberships are listed. -/
theorem loginMemberships_eq_ok {rows : List (Uuid × MembershipRole × Option Tenant)}
    (hrows : ∀ r ∈ rows, r.2.2.isSome = true) :
    ∃ ms, loginMemberships rows = .ok ms ∧ ∀ m, m ∈ ms ↔
      ∃ row, (m.tenantId, m.role, some row) ∈ rows ∧ row.disabledAt = none ∧
        m.tenantName = row.name := by
  induction rows with
  | nil => exact ⟨[], rfl, fun m => by simp⟩
  | cons r rows ih =>
      obtain ⟨ms, hms, hmem⟩ := ih fun r' hr' => hrows r' (List.mem_cons_of_mem _ hr')
      obtain ⟨tenant, role, row⟩ := r
      cases row with
      | none => simpa using hrows _ (List.mem_cons_self ..)
      | some row =>
          cases hdisabled : row.disabledAt with
          | some time =>
              refine ⟨ms, by simp [loginMemberships, hdisabled, hms], fun m => (hmem m).trans ?_⟩
              constructor
              · rintro ⟨row', hmem', hopen⟩
                exact ⟨row', List.mem_cons_of_mem _ hmem', hopen⟩
              · rintro ⟨row', hmem', hopen, hname⟩
                rcases List.mem_cons.mp hmem' with heq | hmem'
                · cases heq
                  simp [hdisabled] at hopen
                · exact ⟨row', hmem', hopen, hname⟩
          | none =>
              refine ⟨⟨tenant, row.name, role⟩ :: ms,
                by simp [loginMemberships, hdisabled, hms, Except.map], fun m => ?_⟩
              rw [List.mem_cons, hmem m]
              constructor
              · rintro (rfl | ⟨row', hmem', hopen⟩)
                · exact ⟨row, List.mem_cons_self .., hdisabled, rfl⟩
                · exact ⟨row', List.mem_cons_of_mem _ hmem', hopen⟩
              · rintro ⟨row', hmem', hopen, hname⟩
                rcases List.mem_cons.mp hmem' with heq | hmem'
                · cases heq
                  exact Or.inl (by cases m; cases hname; rfl)
                · exact Or.inr ⟨row', hmem', hopen, hname⟩

/-- With a membership for each of them, the opened workspaces are listed in order. -/
theorem loginCandidates_eq_ok {ms : List LoginMembership} {grants : List Uuid}
    {rows : List (Uuid × Workspace)} (hrows : ∀ e ∈ rows, ∃ m ∈ ms, m.tenantId = e.2.tenantId) :
    ∃ cs, loginCandidates ms grants rows = .ok cs ∧
      cs.map (fun c => (c.workspaceId, c.tenantId)) =
        (rows.filter fun e => ms.any (fun m => m.role.administersTenant &&
          decide (m.tenantId = e.2.tenantId)) || grants.contains e.1).map
            fun e => (e.1, e.2.tenantId) := by
  induction rows with
  | nil => exact ⟨[], rfl, rfl⟩
  | cons e rows ih =>
      obtain ⟨cs, hcs, hmap⟩ := ih fun e' he' => hrows e' (List.mem_cons_of_mem _ he')
      obtain ⟨id, ws⟩ := e
      simp only [loginCandidates, List.filter_cons]
      split_ifs with hopen
      · obtain ⟨m, hm, htenant⟩ := hrows _ (List.mem_cons_self ..)
        cases hfind : ms.find? fun m => decide (m.tenantId = ws.tenantId) with
        | none => exact absurd (by simpa using htenant) (List.find?_eq_none.mp hfind m hm)
        | some m' =>
            refine ⟨⟨id, ws.name, ws.tenantId, m'.tenantName⟩ :: cs, by simp [hcs, Except.map], ?_⟩
            rw [List.map_cons, List.map_cons, hmap]
      · exact ⟨cs, hcs, hmap⟩

theorem mem_grantedWorkspaces {user workspace : Uuid} :
    workspace ∈ grantedWorkspaces user db ↔ (db.grant workspace user).isSome = true := by
  simp only [grantedWorkspaces, List.mem_map, List.mem_filter, decide_eq_true_eq, Option.isSome_iff_exists, Db.grant]
  constructor
  · rintro ⟨⟨k, r⟩, ⟨hmem, huser⟩, hworkspace⟩
    obtain rfl : k = toLex (workspace, user) := by
      rw [← hworkspace, ← huser]
      rfl
    exact ⟨r, (OrderedMap.mem_entries_iff db.grants _ _).mp hmem⟩
  · rintro ⟨r, hr⟩
    exact ⟨(toLex (workspace, user), r),
      ⟨(OrderedMap.mem_entries_iff db.grants _ _).mpr hr, rfl⟩, rfl⟩

/-- Discovery lists the workspaces the user has access to, each once. -/
structure Lists (db : Db) (user : Uuid) (cs : List LoginWorkspace) : Prop where
  nodup : (cs.map (·.workspaceId)).Nodup
  mem_iff : ∀ workspace tenant,
    (workspace, tenant) ∈ cs.map (fun c => (c.workspaceId, c.tenantId)) ↔
      (db.access tenant workspace user).isSome = true

/-- The memberships are those of the user in active tenants. -/
def OpenMemberships (db : Db) (user : Uuid) (ms : List LoginMembership) : Prop :=
  ∀ tenant role, (∃ m ∈ ms, m.tenantId = tenant ∧ m.role = role) ↔
    db.role tenant user = some role ∧ db.active tenant = true

/-- A membership or a grant opens exactly the workspaces the user has access to. -/
theorem opened_iff {user workspace tenant : Uuid} {ms : List LoginMembership}
    (hopen : OpenMemberships db user ms) {ws : Workspace}
    (hws : db.workspaces.get? workspace = some ws) :
    ws.tenantId = tenant ∧ (∃ m ∈ ms, m.tenantId = ws.tenantId) ∧
        ((∃ m ∈ ms, m.role.administersTenant = true ∧ m.tenantId = ws.tenantId) ∨
          workspace ∈ grantedWorkspaces user db) ↔
      (db.access tenant workspace user).isSome = true := by
  simp only [Option.isSome_iff_exists, Db.access_eq_some, hws, Option.some.injEq, exists_eq_left',
    mem_grantedWorkspaces]
  constructor
  · rintro ⟨rfl, ⟨m, hm, htenant⟩, hgrant⟩
    obtain ⟨hrole, hactive⟩ := (hopen ws.tenantId m.role).mp ⟨m, hm, htenant, rfl⟩
    have hsome : (db.accessForRole workspace user m.role).isSome = true := by
      refine Db.accessForRole_isSome.mpr (hgrant.imp ?_ fun h => Option.isSome_iff_exists.mpr h)
      rintro ⟨m', hm', hadmin, htenant'⟩
      obtain ⟨hrole', -⟩ := (hopen ws.tenantId m'.role).mp ⟨m', hm', htenant', rfl⟩
      rw [Option.some.inj (hrole.symm.trans hrole')]
      exact hadmin
    obtain ⟨access, haccess⟩ := Option.isSome_iff_exists.mp hsome
    exact ⟨access, rfl, hactive, m.role, hrole, haccess⟩
  · rintro ⟨access, htenant, hactive, role, hrole, haccess⟩
    subst htenant
    obtain ⟨m, hm, htenant, rfl⟩ := (hopen ws.tenantId role).mpr ⟨hrole, hactive⟩
    refine ⟨rfl, ⟨m, hm, htenant⟩, ?_⟩
    have hsome := Db.accessForRole_isSome.mp (Option.isSome_iff_exists.mpr ⟨access, haccess⟩)
    exact hsome.imp (fun hadmin => ⟨m, hm, hadmin, htenant⟩) Option.isSome_iff_exists.mp

theorem loginWorkspaces_eq_ok {user : Uuid} {ms : List LoginMembership}
    (hopen : OpenMemberships db user ms) :
    ∃ cs, (loginWorkspaces user ms).alone db = .ok (cs, db) ∧ Lists db user cs := by
  unfold loginWorkspaces
  split_ifs with hempty
  · refine ⟨[], rfl, List.nodup_nil, fun workspace tenant => iff_of_false (by simp) fun h => ?_⟩
    obtain ⟨access, haccess⟩ := Option.isSome_iff_exists.mp h
    obtain ⟨-, hactive, role, hrole, -⟩ := Db.access_eq_some.mp haccess
    obtain ⟨m, hm, -⟩ := (hopen tenant role).mpr ⟨hrole, hactive⟩
    rw [List.isEmpty_iff.mp hempty] at hm
    cases hm
  · rw [Script.alone_read_bind, Script.alone_read_bind]
    have hcover : ∀ e ∈ db.workspaces.entries.filter fun e =>
        ms.any fun m => m.tenantId = e.2.tenantId, ∃ m ∈ ms, m.tenantId = e.2.tenantId := by
      intro e he
      simpa using (List.mem_filter.mp he).2
    obtain ⟨cs, hcs, hmap⟩ := loginCandidates_eq_ok hcover
    rw [hcs]
    refine ⟨_, rfl, ?_, fun workspace tenant => ?_⟩
    · -- the ids are those of stored rows, which are distinct
      have hperm := (List.perm_insertionSort (fun a b : LoginWorkspace =>
        toLex (a.tenantId, a.workspaceId) ≤ toLex (b.tenantId, b.workspaceId)) cs).map
          (·.workspaceId)
      refine hperm.nodup_iff.mpr ?_
      have hids := congrArg (List.map Prod.fst) hmap
      rw [List.map_map, List.map_map] at hids
      change (cs.map (Prod.fst ∘ fun c => (c.workspaceId, c.tenantId))).Nodup
      rw [hids]
      refine (OrderedMap.nodup_keys db.workspaces).sublist ?_
      exact (List.filter_sublist.trans List.filter_sublist).map _
    · have hperm := (List.perm_insertionSort (fun a b : LoginWorkspace =>
        toLex (a.tenantId, a.workspaceId) ≤ toLex (b.tenantId, b.workspaceId)) cs).map
          fun c => (c.workspaceId, c.tenantId)
      rw [hperm.mem_iff, hmap]
      simp only [List.mem_map, List.mem_filter, Prod.mk.injEq, Bool.or_eq_true, List.any_eq_true,
        decide_eq_true_eq, Bool.and_eq_true, List.contains_iff_mem]
      constructor
      · rintro ⟨⟨id, ws⟩, ⟨⟨hmem, hcovered⟩, hopened⟩, rfl, rfl⟩
        have hws := (OrderedMap.mem_entries_iff db.workspaces id ws).mp hmem
        exact (opened_iff hopen hws).mp ⟨rfl, hcovered, hopened⟩
      · intro hsome
        obtain ⟨access, haccess⟩ := Option.isSome_iff_exists.mp hsome
        obtain ⟨⟨ws, hws, -⟩, -⟩ := Db.access_eq_some.mp haccess
        obtain ⟨htenant, hcovered, hopened⟩ := (opened_iff hopen hws).mpr hsome
        exact ⟨(workspace, ws), ⟨⟨(OrderedMap.mem_entries_iff db.workspaces _ _).mpr hws, hcovered⟩,
          hopened⟩, rfl, htenant⟩

/-- **Discovery.** It finds what the user has access to. -/
theorem loginOptions_eq_ok (db : Db) (user : Uuid) :
    ∃ ms cs, (loginOptions user).alone db = .ok ((ms, cs), db) ∧ Lists db user cs := by
  -- every membership's tenant is stored
  have hrows : ∀ r ∈ membershipTenants user db, r.2.2.isSome = true := by
    rintro ⟨tenant, role, row⟩ hr
    obtain ⟨hrole, rfl⟩ := mem_membershipTenants.mp hr
    exact db.enrolled _ role hrole
  obtain ⟨ms, hms, hmem⟩ := loginMemberships_eq_ok hrows
  simp only [mem_membershipTenants] at hmem
  have hopen : OpenMemberships db user (ms.insertionSort fun a b => a.tenantId ≤ b.tenantId) := by
    intro tenant role
    simp only [List.mem_insertionSort, hmem, Db.active_iff]
    constructor
    · rintro ⟨m, ⟨row, ⟨hrole, hrow⟩, hdisabled, -⟩, rfl, rfl⟩
      exact ⟨hrole, row, hrow.symm, hdisabled⟩
    · rintro ⟨hrole, row, hrow, hdisabled⟩
      exact ⟨⟨tenant, row.name, role⟩, ⟨row, ⟨hrole, hrow.symm⟩, hdisabled, rfl⟩, rfl, rfl⟩
  obtain ⟨cs, hcs, hlists⟩ := loginWorkspaces_eq_ok hopen
  refine ⟨ms.insertionSort fun a b => a.tenantId ≤ b.tenantId, cs, ?_, hlists⟩
  unfold loginOptions
  rw [Script.alone_read_bind]
  refine Script.alone_ofExcept_bind_eq_ok.mpr ⟨ms, hms, ?_⟩
  exact Script.alone_bind_eq_ok.mpr ⟨cs, db, hcs, rfl⟩

/-- The offered workspaces of one tenant. -/
theorem mem_offered {offered : List LoginWorkspace} {tenant workspace : Uuid} :
    workspace ∈ (offered.filter fun w => w.tenantId = tenant).map (·.workspaceId) ↔
      ∃ c ∈ offered, c.workspaceId = workspace ∧ c.tenantId = tenant := by
  simp only [List.mem_map, List.mem_filter, decide_eq_true_eq]
  refine exists_congr fun c => ?_
  tauto

theorem reachableWorkspaceIds_eq_ok (db : Db) (tenant : Uuid) (user : Option Uuid) :
    ∃ ids, (reachableWorkspaceIds tenant user).alone db = .ok (ids, db) ∧ ids.Nodup ∧
      ∀ workspace, workspace ∈ ids ↔ db.Reaches tenant user workspace := by
  cases user with
  | none =>
      refine ⟨_, rfl, ?_, fun workspace => ?_⟩
      · exact (OrderedMap.nodup_keys db.workspaces).sublist (List.filter_sublist.map _)
      · simp only [List.mem_map, List.mem_filter, decide_eq_true_eq, Db.Reaches]
        constructor
        · rintro ⟨⟨id, ws⟩, ⟨hmem, htenant⟩, rfl⟩
          exact ⟨ws, (OrderedMap.mem_entries_iff db.workspaces _ _).mp hmem, htenant⟩
        · rintro ⟨ws, hws, htenant⟩
          exact ⟨(workspace, ws), ⟨(OrderedMap.mem_entries_iff db.workspaces _ _).mpr hws, htenant⟩,
            rfl⟩
  | some user =>
      obtain ⟨ms, cs, hrun, hlists⟩ := loginOptions_eq_ok db user
      refine ⟨(cs.filter fun w => w.tenantId = tenant).map (·.workspaceId),
        Script.alone_bind_eq_ok.mpr ⟨(ms, cs), db, hrun, rfl⟩, ?_, fun workspace => ?_⟩
      · exact hlists.nodup.sublist (List.filter_sublist.map _)
      · refine mem_offered.trans (Iff.trans ?_ (hlists.mem_iff workspace tenant))
        simp only [List.mem_map, Prod.mk.injEq]

theorem currentContext_identity {presented current : AuthContext} {key : ApiKey} {db' : Db}
    (hkey : db.keys.get? presented.apiKeyId = some key)
    (hok : (currentContext presented).alone db = .ok (current, db')) :
    current.tenantId = key.tenantId ∧ current.userId = key.userId ∧ db' = db := by
  obtain ⟨hcurrent, rfl⟩ := currentContext_eq_ok.mp hok
  obtain ⟨key', hkey', hworth⟩ := Option.bind_eq_some_iff.mp hcurrent
  obtain ⟨hstored, -⟩ := Option.filter_eq_some_iff.mp hkey'
  obtain rfl := Option.some.inj (hkey.symm.trans hstored)
  unfold Db.worth at hworth
  split_ifs at hworth
  -- memberships narrow the scope, and leave the identity alone
  cases huser : key.userId with
  | none =>
      simp only [ApiKey.identity, huser, Option.some.injEq] at hworth
      subst hworth
      exact ⟨rfl, rfl, rfl⟩
  | some user =>
      simp only [ApiKey.identity, huser] at hworth
      obtain ⟨access, -, rfl⟩ := Option.map_eq_some_iff.mp hworth
      exact ⟨rfl, rfl, rfl⟩

/-- **Reachability agrees everywhere.** In each tenant, what a user is offered at login, what a key
of the user reaches, what it discovers, and what the user has access to are the same workspaces,
each of them listed once. Discovery is refused only where the credential itself is. -/
theorem reachability_agrees (db : Db) (tenant user : Uuid) :
    ∃ memberships offered ids,
      (loginOptions user).alone db = .ok ((memberships, offered), db) ∧
      (reachableWorkspaceIds tenant (some user)).alone db = .ok (ids, db) ∧
      (offered.map (·.workspaceId)).Nodup ∧ ids.Nodup ∧
      (∀ workspace, workspace ∈ ids ↔
        ∃ c ∈ offered, c.workspaceId = workspace ∧ c.tenantId = tenant) ∧
      (∀ workspace, workspace ∈ ids ↔
        ∃ ws access, db.workspaces.get? workspace = some ws ∧ ws.tenantId = tenant ∧
          (workspaceAccess ws.tenantId workspace user).alone db = .ok (some access, db)) ∧
      ∀ actor key, db.keys.get? actor.apiKeyId = some key → key.tenantId = tenant →
        key.userId = some user →
        match (currentContext actor).alone db with
        | .error e => (discoverWorkspaces actor).alone db = .error e
        | .ok _ => ∃ found, (discoverWorkspaces actor).alone db = .ok (found, db) ∧
            found.map (·.workspaceId) = ids := by
  obtain ⟨memberships, offered, hrun, hlists⟩ := loginOptions_eq_ok db user
  have hids : (reachableWorkspaceIds tenant (some user)).alone db =
      .ok ((offered.filter fun w => w.tenantId = tenant).map (·.workspaceId), db) :=
    Script.alone_bind_eq_ok.mpr ⟨(memberships, offered), db, hrun, rfl⟩
  refine ⟨memberships, offered, _, hrun, hids, hlists.nodup,
    hlists.nodup.sublist (List.filter_sublist.map _), fun _ => mem_offered, fun workspace => ?_,
    fun actor key hkey htenant huser => ?_⟩
  · have haccess := hlists.mem_iff workspace tenant
    simp only [List.mem_map, Prod.mk.injEq, Option.isSome_iff_exists] at haccess
    rw [mem_offered, haccess]
    constructor
    · rintro ⟨access, h⟩
      obtain ⟨⟨ws, hws, rfl⟩, -⟩ := Db.access_eq_some.mp h
      exact ⟨ws, access, hws, rfl, workspaceAccess_eq_ok.mpr ⟨h, rfl⟩⟩
    · rintro ⟨ws, access, -, rfl, h⟩
      exact ⟨access, (workspaceAccess_eq_ok.mp h).1⟩
  · have hdiscover : (discoverWorkspaces actor).alone db =
        ((currentContext actor).alone db).bind fun r => _ := Script.alone_bind _ _ db
    cases hcurrent : (currentContext actor).alone db with
    | error e => rw [hdiscover, hcurrent]; rfl
    | ok r =>
        obtain ⟨current, db'⟩ := r
        obtain ⟨htenant', huser', rfl⟩ := currentContext_identity hkey hcurrent
        refine ⟨offered.filter fun w => w.tenantId = tenant, ?_, rfl⟩
        refine Script.alone_bind_eq_ok.mpr ⟨current, db', hcurrent, ?_⟩
        rw [huser', huser, htenant', htenant]
        exact Script.alone_bind_eq_ok.mpr ⟨(memberships, offered), db', hrun, rfl⟩

end Discovery

/-! ## Who is authenticated -/

/-- The workspace a credential acts on: its own one, which a request may name; or the named one
of its tenant; or the only one it reaches. -/
def Db.Resolves (db : Db) (bound : Option Uuid) (tenant : Uuid) (user requested : Option Uuid)
    (workspace : Uuid) : Prop :=
  match bound, requested with
  | some bound, requested => workspace = bound ∧ ∀ r, requested = some r → r = bound
  | none, some requested =>
      workspace = requested ∧ ∃ ws, db.workspaces.get? requested = some ws ∧ ws.tenantId = tenant
  | none, none => ∀ other, db.Reaches tenant user other ↔ other = workspace

theorem onlyWorkspace_eq_ok {db db' : Db} {ids : List Uuid} {workspace : Uuid} :
    (onlyWorkspace ids).alone db = .ok (workspace, db') ↔ ids = [workspace] ∧ db = db' := by
  cases ids with
  | nil => exact iff_of_false (fun h => by cases h) (by simp)
  | cons id rest =>
      cases rest with
      | nil =>
          change (Except.ok (id, db) : Except YorishiroError (Uuid × Db)) = .ok (workspace, db') ↔ _
          simp only [Except.ok.injEq, Prod.mk.injEq, List.cons.injEq, and_true]
      | cons id' rest => exact iff_of_false (fun h => by cases h) (by simp)

theorem resolveKeyWorkspace_eq_ok {db db' : Db} {bound : Option Uuid} {tenant : Uuid}
    {user requested : Option Uuid} {workspace : Uuid} :
    (resolveKeyWorkspace bound tenant user requested).alone db = .ok (workspace, db') ↔
      db.Resolves bound tenant user requested workspace ∧ db = db' := by
  cases bound with
  | some bound =>
      cases requested with
      | none => simp [resolveKeyWorkspace, Db.Resolves, eq_comm]
      | some requested =>
          by_cases hsame : requested = bound
          · simp [resolveKeyWorkspace, Db.Resolves, hsame, eq_comm]
          · simp [resolveKeyWorkspace, Db.Resolves, hsame]
  | none =>
      cases requested with
      | some requested =>
          simp only [resolveKeyWorkspace, Db.Resolves, Script.alone_bind_eq_ok,
            getWorkspaceTenant_eq_ok]
          constructor
          · rintro ⟨t, db₁, ⟨⟨ws, hws, rfl⟩, rfl⟩, h⟩
            split_ifs at h with htenant
            · cases h
            · cases h
              exact ⟨⟨rfl, ws, hws, not_not.mp htenant⟩, rfl⟩
          · rintro ⟨⟨rfl, ws, hws, rfl⟩, rfl⟩
            exact ⟨ws.tenantId, db, ⟨⟨ws, hws, rfl⟩, rfl⟩, by simp⟩
      | none =>
          obtain ⟨ids, hids, hnodup, hmem⟩ := reachableWorkspaceIds_eq_ok db tenant user
          have hrun : (resolveKeyWorkspace none tenant user none).alone db =
              (onlyWorkspace ids).alone db := by
            change ((reachableWorkspaceIds tenant user) >>= onlyWorkspace).alone db = _
            rw [Script.alone_bind, hids]
            rfl
          rw [hrun, onlyWorkspace_eq_ok]
          refine and_congr_left fun _ => ?_
          simp only [Db.Resolves, ← hmem]
          constructor
          · rintro rfl
            exact fun other => List.mem_singleton
          · intro h
            refine List.perm_singleton.mp ?_
            refine (List.perm_ext_iff_of_nodup hnodup (List.nodup_singleton workspace)).mpr ?_
            simpa using h

/-- A key that authentication accepts: it is active, and its workspace, if it is bound to one,
is its tenant's. -/
def ApiKey.usable (key : ApiKey) (db : Db) : Bool :=
  key.isActive db.clock && key.workspaceId.all fun workspace =>
    (db.workspaces.get? workspace).any fun ws => decide (ws.tenantId = key.tenantId)

/-- The usable key with a digest. -/
def Db.keyByHash (db : Db) (hash : Digest) : Option (Uuid × ApiKey) :=
  (db.keys.rows.entries.find? fun e => e.2.keyHash = hash).filter fun e => e.2.usable db

theorem keyByHash_eq_some {db : Db} {hash : Digest} {id : Uuid} {key : ApiKey} :
    db.keyByHash hash = some (id, key) ↔
      db.keys.get? id = some key ∧ key.keyHash = hash ∧ key.usable db = true := by
  unfold Db.keyByHash
  rw [Option.filter_eq_some_iff]
  constructor
  · rintro ⟨hfind, husable⟩
    have hhash := List.find?_some hfind
    exact ⟨(OrderedMap.mem_entries_iff db.keys.rows id key).mp (List.mem_of_find?_eq_some hfind),
      by simpa using hhash, husable⟩
  · rintro ⟨hget, hhash, husable⟩
    refine ⟨?_, husable⟩
    have hmem := (OrderedMap.mem_entries_iff db.keys.rows id key).mpr hget
    cases hfind : db.keys.rows.entries.find? fun e => e.2.keyHash = hash with
    | none => exact absurd (by simpa using hhash) (List.find?_eq_none.mp hfind (id, key) hmem)
    | some e =>
        obtain ⟨id', key'⟩ := e
        have hhash' : key'.keyHash = hash := by simpa using List.find?_some hfind
        have hget' : db.keys.get? id' = some key' :=
          (OrderedMap.mem_entries_iff db.keys.rows id' key').mp (List.mem_of_find?_eq_some hfind)
        -- digests are unique
        have hid : id' = id := by
          by_contra hne
          have hclash := Table.clash_eq_false (fun a b => by simp [ApiKey.clash, eq_comm]) hne
            hget' hget
          simp [ApiKey.clash, hhash, hhash'] at hclash
        subst hid
        rw [Option.some.inj (hget'.symm.trans hget)]

theorem authenticateApiKey_head? (hash : Digest) (db : Db) :
    (authenticateApiKey hash db).head? = (db.keyByHash hash).map fun e => e.2.credential e.1 := by
  unfold authenticateApiKey Db.keyByHash
  rw [List.head?_map, List.head?_filter, ← Table.find?_and (fun a b ha hb => by
    simp only [decide_eq_true_eq] at ha hb
    simp [ApiKey.clash, ha, hb])]
  congr 2
  funext e
  obtain ⟨id, key⟩ := e
  cases hexpires : key.expiresAt with
  | none =>
      cases hworkspace : key.workspaceId with
      | none => simp [ApiKey.usable, ApiKey.isActive, hexpires, hworkspace]
      | some w => simp [ApiKey.usable, ApiKey.isActive, hexpires, hworkspace, Bool.and_assoc]
  | some expires =>
      cases hworkspace : key.workspaceId with
      | none => simp [ApiKey.usable, ApiKey.isActive, hexpires, hworkspace, Bool.and_assoc]
      | some w => simp [ApiKey.usable, ApiKey.isActive, hexpires, hworkspace, Bool.and_assoc]

theorem alone_findSqliteAuthContext (hash : Digest) (db : Db) :
    (findSqliteAuthContext hash).alone db =
      .ok ((db.keyByHash hash).map fun e => e.2.credential e.1, db) := by
  unfold findSqliteAuthContext Db.keyByHash
  rw [Script.alone_read_bind]
  cases db.keys.rows.entries.find? fun e => e.2.keyHash = hash with
  | none => rfl
  | some e =>
      obtain ⟨id, key⟩ := e
      simp only [now, Script.alone_read_bind, ApiKey.usable, Option.filter]
      by_cases hactive : key.isActive db.clock = true
      · obtain hworkspace | ⟨w, hworkspace⟩ := Option.eq_none_or_eq_some key.workspaceId
        · simp [hactive, hworkspace]
        · obtain hrow | ⟨ws, hrow⟩ := Option.eq_none_or_eq_some (db.workspaces.get? w)
          · simp [hactive, hworkspace, hrow]
          · by_cases htenant : ws.tenantId = key.tenantId
            · simp [hactive, hworkspace, hrow, htenant]
            · simp [hactive, hworkspace, hrow, htenant]
      · simp [hactive]

/-! ## Main result -/

/-- **Who is authenticated as what.** The key with the digest is neither revoked nor expired,
its workspace is its tenant's, the request's workspace resolves, the tenant is active, and an
attributed user has a membership and access to the workspace; the scope is the stored one, or
what of it the user may use. -/
structure Db.Authenticates (db : Db) (hash : Digest) (requested : Option Uuid) (key : ApiKey)
    (ctx : AuthContext) : Prop where
  stored : db.keys.get? ctx.apiKeyId = some key
  hash : key.keyHash = hash
  unrevoked : key.revokedAt = none
  unexpired : ∀ expires, key.expiresAt = some expires → db.clock < expires
  bound : ∀ workspace, key.workspaceId = some workspace →
    ∃ ws, db.workspaces.get? workspace = some ws ∧ ws.tenantId = key.tenantId
  workspace : db.Resolves key.workspaceId key.tenantId key.userId requested ctx.workspaceId
  active : db.active key.tenantId = true
  tenant : ctx.tenantId = key.tenantId
  user : ctx.userId = key.userId
  audit : ctx.audit = key.audit
  service : key.userId = none → ctx.scope = key.scope
  attributed : ∀ user, key.userId = some user →
    ∃ role access, db.role key.tenantId user = some role ∧
      db.access key.tenantId ctx.workspaceId user = some access ∧
      ctx.scope = min key.scope access.maxScope

theorem usable_iff {db : Db} {key : ApiKey} :
    key.usable db = true ↔ key.revokedAt = none ∧
      (∀ expires, key.expiresAt = some expires → db.clock < expires) ∧
      ∀ workspace, key.workspaceId = some workspace →
        ∃ ws, db.workspaces.get? workspace = some ws ∧ ws.tenantId = key.tenantId := by
  simp only [ApiKey.usable, ApiKey.isActive, Bool.and_eq_true, Option.all_eq_true,
    Option.isNone_iff_eq_none, Option.any_eq_true, decide_eq_true_eq, and_assoc]

/-- The identity of a credential, by what it is worth in the workspace it resolves to. -/
theorem admitCredential_eq_ok {db db' : Db} {found : Option (Uuid × ApiKey)}
    {requested : Option Uuid} {ctx : AuthContext} :
    (admitCredential (found.map fun e => e.2.credential e.1) requested).alone db = .ok (ctx, db') ↔
      (∃ id key, found = some (id, key) ∧ ∃ workspace,
        db.Resolves key.workspaceId key.tenantId key.userId requested workspace ∧
          db.worth (key.identity id workspace) = some ctx) ∧ db = db' := by
  unfold admitCredential
  rw [Script.alone_orFail_bind_eq_ok]
  constructor
  · rintro ⟨credential, hfound, h⟩
    obtain ⟨⟨id, key⟩, rfl, rfl⟩ := Option.map_eq_some_iff.mp hfound
    obtain ⟨workspace, db₁, hresolve, h⟩ := Script.alone_bind_eq_ok.mp h
    obtain ⟨hresolves, rfl⟩ := resolveKeyWorkspace_eq_ok.mp hresolve
    obtain ⟨hworth, rfl⟩ := withCurrentMembership_eq_ok.mp h
    exact ⟨⟨id, key, rfl, workspace, hresolves, hworth⟩, rfl⟩
  · rintro ⟨⟨id, key, rfl, workspace, hresolves, hworth⟩, rfl⟩
    refine ⟨key.credential id, rfl, Script.alone_bind_eq_ok.mpr ⟨workspace, db, ?_, ?_⟩⟩
    · exact resolveKeyWorkspace_eq_ok.mpr ⟨hresolves, rfl⟩
    · exact withCurrentMembership_eq_ok.mpr ⟨hworth, rfl⟩

theorem worth_identity_eq_some {db : Db} {key : ApiKey} {id workspace : Uuid} {ctx : AuthContext} :
    db.worth (key.identity id workspace) = some ctx ↔
      db.active key.tenantId = true ∧ ctx.apiKeyId = id ∧ ctx.workspaceId = workspace ∧
        ctx.tenantId = key.tenantId ∧ ctx.userId = key.userId ∧ ctx.audit = key.audit ∧
        (key.userId = none → ctx.scope = key.scope) ∧
        ∀ user, key.userId = some user → ∃ role access, db.role key.tenantId user = some role ∧
          db.access key.tenantId workspace user = some access ∧
          ctx.scope = min key.scope access.maxScope := by
  unfold Db.worth
  by_cases hactive : db.active key.tenantId = true
  · simp only [ApiKey.identity, hactive, if_true, true_and]
    cases huser : key.userId with
    | none =>
        obtain ⟨id', workspace', tenant', scope', user', audit'⟩ := ctx
        simp only [Option.some.injEq, AuthContext.mk.injEq, true_implies, reduceCtorEq,
          false_implies, implies_true, and_true]
        constructor
        · rintro ⟨rfl, rfl, rfl, rfl, rfl, rfl⟩
          exact ⟨rfl, rfl, rfl, rfl, rfl, rfl⟩
        · rintro ⟨rfl, rfl, rfl, rfl, rfl, rfl⟩
          exact ⟨rfl, rfl, rfl, rfl, rfl, rfl⟩
    | some user =>
        obtain ⟨id', workspace', tenant', scope', user', audit'⟩ := ctx
        simp only [Option.map_eq_some_iff, AuthContext.mk.injEq, reduceCtorEq, false_implies,
          true_and]
        constructor
        · rintro ⟨access, haccess, rfl, rfl, rfl, rfl, rfl, rfl⟩
          obtain ⟨-, -, role, hrole, -⟩ := Db.access_eq_some.mp haccess
          refine ⟨rfl, rfl, rfl, rfl, rfl, fun u hu => ?_⟩
          cases hu
          exact ⟨role, access, hrole, haccess, rfl⟩
        · rintro ⟨rfl, rfl, rfl, rfl, rfl, h⟩
          obtain ⟨role, access, -, haccess, rfl⟩ := h user rfl
          exact ⟨access, haccess, rfl, rfl, rfl, rfl, rfl, rfl⟩
  · simp [ApiKey.identity, hactive]

/-- **Authentication is characterised, and the backends agree**, on every database, presented
key and requested workspace. -/
theorem authenticated_iff (h : Externals) (db : Db) (presented : String) (requested : Option Uuid) :
    (authenticateSqlite h presented requested).alone db =
        (authenticate h presented requested).alone db ∧
      ∀ ctx db', (authenticate h presented requested).alone db = .ok (ctx, db') ↔
        (∃ key, db.Authenticates (h.hashKey presented) requested key ctx) ∧ db = db' := by
  have hpostgres : (authenticate h presented requested).alone db =
      (admitCredential ((db.keyByHash (h.hashKey presented)).map fun e => e.2.credential e.1)
        requested).alone db := by
    unfold authenticate
    rw [Script.alone_read_bind, authenticateApiKey_head?]
  have hsqlite : (authenticateSqlite h presented requested).alone db =
      (admitCredential ((db.keyByHash (h.hashKey presented)).map fun e => e.2.credential e.1)
        requested).alone db := by
    unfold authenticateSqlite
    rw [Script.alone_bind, alone_findSqliteAuthContext]
    rfl
  refine ⟨hsqlite.trans hpostgres.symm, fun ctx db' => ?_⟩
  rw [hpostgres, admitCredential_eq_ok]
  refine and_congr_left fun _ => ?_
  constructor
  · rintro ⟨id, key, hfound, workspace, hresolves, hworth⟩
    obtain ⟨hget, hhash, husable⟩ := keyByHash_eq_some.mp hfound
    obtain ⟨hunrevoked, hunexpired, hbound⟩ := usable_iff.mp husable
    obtain ⟨hactive, rfl, rfl, htenant, huser, haudit, hservice, hattributed⟩ :=
      worth_identity_eq_some.mp hworth
    exact ⟨key, hget, hhash, hunrevoked, hunexpired, hbound, hresolves, hactive, htenant, huser,
      haudit, hservice, hattributed⟩
  · rintro ⟨key, hauth⟩
    refine ⟨ctx.apiKeyId, key, ?_, ctx.workspaceId, hauth.workspace, ?_⟩
    · exact keyByHash_eq_some.mpr ⟨hauth.stored, hauth.hash,
        usable_iff.mpr ⟨hauth.unrevoked, hauth.unexpired, hauth.bound⟩⟩
    · exact worth_identity_eq_some.mpr ⟨hauth.active, rfl, rfl, hauth.tenant, hauth.user,
        hauth.audit, hauth.service, hauth.attributed⟩

end Yorishiro.Tenancy
