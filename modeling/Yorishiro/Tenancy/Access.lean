import Yorishiro.Tenancy.Database

/-!
# Authorization decisions

What a user may do in a workspace (`workspaceAccess`), what a presented credential is worth now
(`currentContext`), and the guards built on them. All of them only read; the guards of
operations take the tenant's membership lock first.
-/

set_option autoImplicit false

namespace Yorishiro.Tenancy

open Yorishiro.Lib
open Yorishiro.Lib.Fence
open Yorishiro.Queue (Instant)

/-! ## Lookups -/

/-- Rejects a disabled or missing tenant. -/
def requireActive (tenant : Uuid) : Tx Unit := do
  let row ← Script.read fun db => db.tenants.get? tenant
  let _ ← Script.orFail .unauthenticated (row.filter fun t => t.disabledAt.isNone)
  pure ()

/-- A user's role within a tenant, if they are a member. -/
def getMembershipRole (tenant user : Uuid) : Tx (Option MembershipRole) :=
  Script.read fun db => db.role tenant user

/-- A workspace's tenant. -/
def getWorkspaceTenant (workspace : Uuid) : Tx Uuid := do
  let row ← Script.read fun db => db.workspaces.get? workspace
  Script.orFail (.notFound "workspace not found") (row.map (·.tenantId))

/-! ## Workspace authority -/

/-- A role can restrict a stored grant, never widen it. -/
def effectiveScope (stored : ApiKeyScope) (role : MembershipRole) : ApiKeyScope :=
  min stored role.maxScope

/-- Where workspace authority comes from. -/
inductive AccessSource where
  | tenantRole
  | workspaceMembership
  | serviceKey
deriving DecidableEq, Repr

/-- Workspace authority, independently of any credential. -/
structure WorkspaceAccess where
  maxScope : ApiKeyScope
  source : AccessSource
  workspaceAdmin : Bool
deriving DecidableEq, Repr

/-- The authority of a tenant role in a workspace. -/
def workspaceAccessForRole (workspace user : Uuid) (role : MembershipRole) :
    Tx (Option WorkspaceAccess) :=
  if role.administersTenant then pure (some ⟨role.maxScope, .tenantRole, true⟩)
  else do
    let grant ← Script.read fun db => db.grant workspace user
    pure (grant.map fun g =>
      ⟨min role.maxScope g.maxScope, .workspaceMembership, decide (g = .admin)⟩)

/-- Resolves inherited tenant authority or an explicit workspace grant. -/
def workspaceAccess (tenant workspace user : Uuid) : Tx (Option WorkspaceAccess) := do
  let workspaceTenant ← getWorkspaceTenant workspace
  if workspaceTenant ≠ tenant then pure none
  else do
    requireActive tenant
    match ← getMembershipRole tenant user with
    | none => pure none
    | some role => workspaceAccessForRole workspace user role

/-! ## Credentials -/

/-- The identity an authenticated request acts with. -/
structure AuthContext where
  apiKeyId : Uuid
  workspaceId : Uuid
  tenantId : Uuid
  scope : ApiKeyScope
  userId : Option Uuid
  audit : Bool
deriving DecidableEq, Repr

/-- Applies current membership without widening the key's stored grant. -/
def AuthContext.withCurrentMembership (ctx : AuthContext) : Tx AuthContext := do
  requireActive ctx.tenantId
  match ctx.userId with
  | none => pure ctx
  | some user => do
      let role ← getMembershipRole ctx.tenantId user
      let _ ← Script.orFail .unauthenticated role
      let access ← workspaceAccess ctx.tenantId ctx.workspaceId user
      let access ← Script.orFail (.scopeInsufficient
        "this account has no access to the selected workspace"
        "ask a tenant administrator for a workspace grant") access
      pure { ctx with scope := min ctx.scope access.maxScope }

/-- The presented key is the stored one, and active. -/
def ApiKey.backs (key : ApiKey) (presented : AuthContext) (now : Instant) : Bool :=
  key.isActive now && decide (key.tenantId = presented.tenantId) &&
    decide (key.userId = presented.userId) &&
    key.workspaceId.all fun id => decide (id = presented.workspaceId)

/-- Reads again what a presented identity is worth now. -/
def currentContext (presented : AuthContext) : Tx AuthContext := do
  let key ← Script.read fun db => db.keys.get? presented.apiKeyId
  let time ← now
  let key ← Script.orFail .unauthenticated (key.filter fun k => k.backs presented time)
  AuthContext.withCurrentMembership
    { apiKeyId := presented.apiKeyId
      workspaceId := presented.workspaceId
      tenantId := key.tenantId
      userId := key.userId
      scope := key.scope
      audit := key.audit }

/-! ## Guards -/

/-- Enforces the effective content grant. -/
def requireScope (ctx : AuthContext) (required : ApiKeyScope) : Except YorishiroError Unit :=
  if ctx.scope.satisfies required then .ok ()
  else .error (.scopeInsufficient
    ("this operation requires " ++ required.debug ++ " scope but the API key has " ++
      ctx.scope.debug ++ " scope")
    "Reissue an API key with sufficient scope")

/-- The audit grant is independent of the scope. -/
def requireAudit (ctx : AuthContext) : Except YorishiroError Unit :=
  if ctx.audit then .ok ()
  else .error (.scopeInsufficient
    "this operation requires the audit grant, which this API key does not hold"
    "reissue an API key with audit:true")

/-- Requires current tenant administration authority. -/
def requireTenantAdmin (tenant : Uuid) (user : Option Uuid) : Tx Unit := do
  let user ← Script.orFail .unauthenticated user
  let role ← getMembershipRole tenant user
  let _ ← Script.orFail (.scopeInsufficient "this operation is restricted to tenant owners/admins"
    "ask a tenant owner to grant you the admin role") (role.filter (·.administersTenant))
  pure ()

/-- Revalidates the actor after acquiring the membership lock. -/
def requireCurrentWorkspaceAdmin (actor : AuthContext) (workspace : Uuid) : Tx Unit := do
  lockMembership actor.tenantId
  let current ← currentContext actor
  let access ← match current.userId with
    | none => pure none
    | some user => workspaceAccess current.tenantId workspace user
  if access.any (·.workspaceAdmin) then pure ()
  else .fail (.scopeInsufficient "workspace administration required"
    "request an administrator grant for this workspace")

/-- Revalidates the actor after acquiring the membership lock. -/
def requireCurrentTenantAdmin (actor : AuthContext) : Tx Unit := do
  lockMembership actor.tenantId
  let current ← currentContext actor
  requireTenantAdmin current.tenantId current.userId

/-- Requires current owner authority under the membership lock. -/
def requireCurrentTenantOwner (actor : AuthContext) : Tx Uuid := do
  requireCurrentTenantAdmin actor
  let user ← Script.orFail .unauthenticated actor.userId
  let role ← getMembershipRole actor.tenantId user
  if role ≠ some .owner then
    .fail (.scopeInsufficient "this operation requires a tenant owner"
      "ask a current tenant owner to perform this operation")
  else pure user

/-- Requires owner authority for an operation that touches ownership. -/
def requireOwnerIf (ownership : Prop) [Decidable ownership] (actor : AuthContext) : Tx Unit :=
  if ownership then do
    let _ ← requireCurrentTenantOwner actor
    pure ()
  else pure ()

/-- Checks the attribution of a new key under the membership lock. -/
def requireAttributedKeyGrant (tenant : Uuid) (user : Option Uuid) (scope : ApiKeyScope) :
    Tx Unit := do
  lockMembership tenant
  requireActive tenant
  match user with
  | none => pure ()
  | some user => do
      let role ← getMembershipRole tenant user
      let role ← Script.orFail .unauthenticated role
      if effectiveScope scope role ≠ scope then
        .fail (.scopeInsufficient
          ("this user's tenant role permits at most " ++ role.maxScope.debug ++ " scope keys")
          "issue a lower-scoped key, or raise the user's tenant role")
      else pure ()

/-- A delegated key exceeds neither the issuer's grant nor the issuer's role. -/
def requireKeyGrant (issuer : AuthContext) (scope : ApiKeyScope) (audit : Bool) : Tx Unit := do
  requireTenantAdmin issuer.tenantId issuer.userId
  Script.ofExcept (requireScope issuer scope)
  if audit then Script.ofExcept (requireAudit issuer) else pure ()

/-! ## The decisions only read -/

section Quiet

open Script

theorem quiet_lockMembership (tenant : Uuid) : Quiet (lockMembership tenant) := within_acquire _

theorem quiet_requireActive (tenant : Uuid) : Quiet (requireActive tenant) :=
  (within_read _).bind fun _ => (within_orFail _ _).bind fun _ => within_pure _

theorem quiet_getMembershipRole (tenant user : Uuid) : Quiet (getMembershipRole tenant user) :=
  within_read _

theorem quiet_getWorkspaceTenant (workspace : Uuid) : Quiet (getWorkspaceTenant workspace) :=
  (within_read _).bind fun _ => within_orFail _ _

theorem quiet_workspaceAccessForRole (workspace user : Uuid) (role : MembershipRole) :
    Quiet (workspaceAccessForRole workspace user role) := by
  unfold workspaceAccessForRole
  split_ifs
  · exact within_pure _
  · exact (within_read _).bind fun _ => within_pure _

theorem quiet_workspaceAccess (tenant workspace user : Uuid) :
    Quiet (workspaceAccess tenant workspace user) := by
  refine Within.bind (quiet_getWorkspaceTenant workspace) fun workspaceTenant => ?_
  split_ifs
  · exact within_pure _
  · refine Within.bind (quiet_requireActive tenant) fun _ =>
      Within.bind (quiet_getMembershipRole tenant user) fun role => ?_
    cases role with
    | none => exact within_pure _
    | some role => exact quiet_workspaceAccessForRole workspace user role

theorem quiet_withCurrentMembership (ctx : AuthContext) : Quiet ctx.withCurrentMembership := by
  refine Within.bind (quiet_requireActive ctx.tenantId) fun _ => ?_
  cases ctx.userId with
  | none => exact within_pure _
  | some user =>
      refine Within.bind (quiet_getMembershipRole _ _) fun _ => (within_orFail _ _).bind fun _ => ?_
      refine Within.bind (quiet_workspaceAccess _ _ _) fun _ => (within_orFail _ _).bind fun _ => ?_
      exact within_pure _

theorem quiet_currentContext (presented : AuthContext) : Quiet (currentContext presented) :=
  (within_read _).bind fun _ => (within_read _).bind fun _ => (within_orFail _ _).bind fun _ =>
    quiet_withCurrentMembership _

theorem quiet_requireTenantAdmin (tenant : Uuid) (user : Option Uuid) :
    Quiet (requireTenantAdmin tenant user) :=
  (within_orFail _ _).bind fun _ => (within_read _).bind fun _ => (within_orFail _ _).bind fun _ =>
    within_pure _

theorem quiet_requireCurrentWorkspaceAdmin (actor : AuthContext) (workspace : Uuid) :
    Quiet (requireCurrentWorkspaceAdmin actor workspace) := by
  refine Within.bind (quiet_lockMembership _) fun _ =>
    Within.bind (quiet_currentContext actor) fun current => ?_
  have hend : ∀ access : Option WorkspaceAccess, Quiet
      (if access.any (·.workspaceAdmin) then pure () else
        .fail (.scopeInsufficient "workspace administration required"
          "request an administrator grant for this workspace") : Tx Unit) := by
    intro access
    split_ifs
    · exact within_pure _
    · exact within_fail _
  cases current.userId with
  | none => exact Within.bind (within_pure _) hend
  | some user => exact Within.bind (quiet_workspaceAccess _ _ _) hend

theorem quiet_requireCurrentTenantAdmin (actor : AuthContext) :
    Quiet (requireCurrentTenantAdmin actor) :=
  Within.bind (quiet_lockMembership _) fun _ => Within.bind (quiet_currentContext actor) fun _ =>
    quiet_requireTenantAdmin _ _

theorem quiet_requireCurrentTenantOwner (actor : AuthContext) :
    Quiet (requireCurrentTenantOwner actor) := by
  refine Within.bind (quiet_requireCurrentTenantAdmin actor) fun _ =>
    (within_orFail _ _).bind fun _ => Within.bind (quiet_getMembershipRole _ _) fun _ => ?_
  split_ifs
  · exact within_fail _
  · exact within_pure _

theorem quiet_requireOwnerIf (ownership : Prop) [Decidable ownership] (actor : AuthContext) :
    Quiet (requireOwnerIf ownership actor) := by
  unfold requireOwnerIf
  split_ifs
  · exact Within.bind (quiet_requireCurrentTenantOwner actor) fun _ => within_pure _
  · exact within_pure _

theorem quiet_requireAttributedKeyGrant (tenant : Uuid) (user : Option Uuid)
    (scope : ApiKeyScope) : Quiet (requireAttributedKeyGrant tenant user scope) := by
  refine Within.bind (quiet_lockMembership _) fun _ =>
    Within.bind (quiet_requireActive tenant) fun _ => ?_
  cases user with
  | none => exact within_pure _
  | some user =>
      refine Within.bind (quiet_getMembershipRole _ _) fun _ => (within_orFail _ _).bind fun _ => ?_
      split_ifs
      · exact within_fail _
      · exact within_pure _

theorem quiet_requireKeyGrant (issuer : AuthContext) (scope : ApiKeyScope) (audit : Bool) :
    Quiet (requireKeyGrant issuer scope audit) := by
  refine Within.bind (quiet_requireTenantAdmin _ _) fun _ => (within_ofExcept _).bind fun _ => ?_
  split_ifs
  · exact within_ofExcept _
  · exact within_pure _

end Quiet

/-! ## What the decisions answer -/

/-- The tenant is there and not disabled. -/
def Db.active (db : Db) (tenant : Uuid) : Bool :=
  (db.tenants.get? tenant).any fun t => t.disabledAt.isNone

/-- The authority of a tenant role in a workspace. -/
def Db.accessForRole (db : Db) (workspace user : Uuid) (role : MembershipRole) :
    Option WorkspaceAccess :=
  if role.administersTenant then some ⟨role.maxScope, .tenantRole, true⟩
  else (db.grant workspace user).map fun g =>
    ⟨min role.maxScope g.maxScope, .workspaceMembership, decide (g = .admin)⟩

/-- The authority of a user in a workspace of an active tenant. -/
def Db.access (db : Db) (tenant workspace user : Uuid) : Option WorkspaceAccess :=
  if (db.workspaces.get? workspace).any (fun ws => decide (ws.tenantId = tenant)) &&
      db.active tenant then
    (db.role tenant user).bind (db.accessForRole workspace user)
  else none

/-- What an identity is worth under the current memberships. -/
def Db.worth (db : Db) (ctx : AuthContext) : Option AuthContext :=
  if db.active ctx.tenantId then
    match ctx.userId with
    | none => some ctx
    | some user => (db.access ctx.tenantId ctx.workspaceId user).map fun access =>
        { ctx with scope := min ctx.scope access.maxScope }
  else none

/-- The identity a key gives in a workspace, before memberships are applied. -/
def ApiKey.identity (key : ApiKey) (id workspace : Uuid) : AuthContext where
  apiKeyId := id
  workspaceId := workspace
  tenantId := key.tenantId
  userId := key.userId
  scope := key.scope
  audit := key.audit

/-- What a presented identity is worth now. -/
def Db.current (db : Db) (presented : AuthContext) : Option AuthContext :=
  ((db.keys.get? presented.apiKeyId).filter fun k => k.backs presented db.clock).bind fun key =>
    db.worth (key.identity presented.apiKeyId presented.workspaceId)

section Answers

variable {db db' : Db}

theorem Db.active_iff {tenant : Uuid} :
    db.active tenant = true ↔ ∃ row, db.tenants.get? tenant = some row ∧ row.disabledAt = none := by
  unfold Db.active
  cases db.tenants.get? tenant with
  | none => simp
  | some row => simp

theorem Db.accessForRole_isSome {workspace user : Uuid} {role : MembershipRole} :
    (db.accessForRole workspace user role).isSome = true ↔
      role.administersTenant = true ∨ (db.grant workspace user).isSome = true := by
  unfold Db.accessForRole
  split_ifs with hadmin
  · simp [hadmin]
  · simp [hadmin]

theorem Db.access_eq_some {tenant workspace user : Uuid} {access : WorkspaceAccess} :
    db.access tenant workspace user = some access ↔
      (∃ ws, db.workspaces.get? workspace = some ws ∧ ws.tenantId = tenant) ∧
        db.active tenant = true ∧ ∃ role, db.role tenant user = some role ∧
          db.accessForRole workspace user role = some access := by
  unfold Db.access
  cases hws : db.workspaces.get? workspace with
  | none => simp
  | some ws =>
      by_cases htenant : ws.tenantId = tenant
      · by_cases hactive : db.active tenant = true
        · simp [htenant, hactive, Option.bind_eq_some_iff]
        · simp [htenant, hactive]
      · simp [htenant]

@[simp] theorem alone_getMembershipRole (tenant user : Uuid) :
    (getMembershipRole tenant user).alone db = .ok (db.role tenant user, db) := rfl

@[simp] theorem alone_workspaceAccessForRole (workspace user : Uuid) (role : MembershipRole) :
    (workspaceAccessForRole workspace user role).alone db =
      .ok (db.accessForRole workspace user role, db) := by
  unfold workspaceAccessForRole Db.accessForRole
  split_ifs with h
  · rfl
  · rfl

theorem requireActive_eq_ok {tenant : Uuid} {r : Unit} :
    (requireActive tenant).alone db = .ok (r, db') ↔ db.active tenant = true ∧ db = db' := by
  simp only [requireActive, Script.alone_read_bind, Script.alone_orFail_bind_eq_ok,
    Option.filter_eq_some_iff, Script.alone_pure, Except.ok.injEq, Prod.mk.injEq, Db.active_iff,
    Option.isNone_iff_eq_none, true_and, exists_and_right]

theorem getWorkspaceTenant_eq_ok {workspace tenant : Uuid} :
    (getWorkspaceTenant workspace).alone db = .ok (tenant, db') ↔
      (∃ ws, db.workspaces.get? workspace = some ws ∧ ws.tenantId = tenant) ∧ db = db' := by
  unfold getWorkspaceTenant
  cases hws : db.workspaces.get? workspace with
  | none => simp [hws]
  | some ws => simp [hws]

theorem workspaceAccess_eq_ok {tenant workspace user : Uuid} {access : WorkspaceAccess} :
    (workspaceAccess tenant workspace user).alone db = .ok (some access, db') ↔
      db.access tenant workspace user = some access ∧ db = db' := by
  unfold workspaceAccess Db.access
  cases hws : db.workspaces.get? workspace with
  | none => simp [Script.alone_bind_eq_ok, getWorkspaceTenant_eq_ok, hws]
  | some ws =>
      by_cases htenant : ws.tenantId = tenant
      · by_cases hactive : db.active tenant = true
        · cases hrole : db.role tenant user with
          | none =>
              simp [Script.alone_bind_eq_ok, getWorkspaceTenant_eq_ok, requireActive_eq_ok, hws,
                htenant, hrole]
          | some role =>
              simp [Script.alone_bind_eq_ok, getWorkspaceTenant_eq_ok, requireActive_eq_ok, hws,
                htenant, hactive, hrole]
        · simp [Script.alone_bind_eq_ok, getWorkspaceTenant_eq_ok, requireActive_eq_ok, hws,
            htenant, hactive]
      · simp [Script.alone_bind_eq_ok, getWorkspaceTenant_eq_ok, hws, htenant]

theorem withCurrentMembership_eq_ok {ctx c : AuthContext} :
    ctx.withCurrentMembership.alone db = .ok (c, db') ↔ db.worth ctx = some c ∧ db = db' := by
  unfold AuthContext.withCurrentMembership Db.worth
  simp only [Script.alone_bind_eq_ok, requireActive_eq_ok]
  by_cases hactive : db.active ctx.tenantId = true
  · simp only [hactive, if_true, true_and, exists_eq_left', exists_const]
    cases ctx.userId with
    | none => simp
    | some user =>
        simp only [getMembershipRole, Script.alone_read_bind, Script.alone_orFail_bind_eq_ok,
          Option.map_eq_some_iff]
        constructor
        · rintro ⟨role, -, h⟩
          obtain ⟨found, db₁, hfound, h⟩ := Script.alone_bind_eq_ok.mp h
          obtain ⟨access, rfl, h⟩ := Script.alone_orFail_bind_eq_ok.mp h
          obtain ⟨haccess, rfl⟩ := workspaceAccess_eq_ok.mp hfound
          cases h
          exact ⟨⟨access, haccess, rfl⟩, rfl⟩
        · rintro ⟨⟨access, haccess, rfl⟩, rfl⟩
          obtain ⟨-, -, role, hrole, -⟩ := Db.access_eq_some.mp haccess
          exact ⟨role, hrole, Script.alone_bind_eq_ok.mpr ⟨some access, db,
            workspaceAccess_eq_ok.mpr ⟨haccess, rfl⟩, rfl⟩⟩
  · simp [hactive]

theorem currentContext_eq_ok {presented c : AuthContext} :
    (currentContext presented).alone db = .ok (c, db') ↔
      db.current presented = some c ∧ db = db' := by
  simp only [currentContext, now, Script.alone_read_bind, Script.alone_orFail_bind_eq_ok,
    withCurrentMembership_eq_ok, Db.current, Option.bind_eq_some_iff, ← and_assoc,
    exists_and_right]
  rfl

/-- The user administers the tenant. -/
def Db.Administers (db : Db) (tenant user : Uuid) : Prop :=
  ∃ role, db.role tenant user = some role ∧ role.administersTenant = true

theorem requireTenantAdmin_eq_ok {tenant : Uuid} {user : Option Uuid} {r : Unit} :
    (requireTenantAdmin tenant user).alone db = .ok (r, db') ↔
      (∃ u, user = some u ∧ db.Administers tenant u) ∧ db = db' := by
  simp only [requireTenantAdmin, getMembershipRole, Script.alone_read_bind,
    Script.alone_orFail_bind_eq_ok, Script.alone_pure, Except.ok.injEq, Prod.mk.injEq,
    Option.filter_eq_some_iff, Db.Administers, true_and, ← and_assoc, exists_and_right]

/-- The actor's credential is still good, and its user administers the tenant. -/
def Db.AdminActor (db : Db) (actor : AuthContext) : Prop :=
  ∃ c u, db.current actor = some c ∧ c.userId = some u ∧ db.Administers c.tenantId u

theorem requireCurrentTenantAdmin_eq_ok {actor : AuthContext} {r : Unit} :
    (requireCurrentTenantAdmin actor).alone db = .ok (r, db') ↔ db.AdminActor actor ∧ db = db' := by
  unfold requireCurrentTenantAdmin lockMembership Db.AdminActor
  simp only [Script.alone_acquire_bind, Script.alone_bind_eq_ok, currentContext_eq_ok,
    requireTenantAdmin_eq_ok]
  constructor
  · rintro ⟨c, _, ⟨hc, rfl⟩, ⟨u, hu, hadmin⟩, rfl⟩
    exact ⟨⟨c, u, hc, hu, hadmin⟩, rfl⟩
  · rintro ⟨⟨c, u, hc, hu, hadmin⟩, rfl⟩
    exact ⟨c, _, ⟨hc, rfl⟩, ⟨u, hu, hadmin⟩, rfl⟩

/-- The actor administers the tenant as one of its owners. -/
def Db.OwnerActor (db : Db) (actor : AuthContext) : Prop :=
  db.AdminActor actor ∧ ∃ u, actor.userId = some u ∧ db.role actor.tenantId u = some .owner

theorem requireCurrentTenantOwner_eq_ok {actor : AuthContext} {u : Uuid} :
    (requireCurrentTenantOwner actor).alone db = .ok (u, db') ↔
      (db.AdminActor actor ∧ actor.userId = some u ∧ db.role actor.tenantId u = some .owner) ∧
        db = db' := by
  unfold requireCurrentTenantOwner getMembershipRole
  constructor
  · intro h
    obtain ⟨_, db₁, hguard, h⟩ := Script.alone_bind_eq_ok.mp h
    obtain ⟨hadmin, rfl⟩ := requireCurrentTenantAdmin_eq_ok.mp hguard
    obtain ⟨user, huser, h⟩ := Script.alone_orFail_bind_eq_ok.mp h
    rw [Script.alone_read_bind] at h
    split_ifs at h with hrole
    · cases h
    · cases h
      exact ⟨⟨hadmin, huser, not_not.mp hrole⟩, rfl⟩
  · rintro ⟨⟨hadmin, huser, hrole⟩, rfl⟩
    refine Script.alone_bind_eq_ok.mpr
      ⟨(), db, requireCurrentTenantAdmin_eq_ok.mpr ⟨hadmin, rfl⟩, ?_⟩
    refine Script.alone_orFail_bind_eq_ok.mpr ⟨u, huser, ?_⟩
    rw [Script.alone_read_bind, if_neg (not_not.mpr hrole)]
    rfl

theorem requireScope_eq_ok {ctx : AuthContext} {required : ApiKeyScope} {r : Unit} :
    requireScope ctx required = .ok r ↔ required ≤ ctx.scope := by
  unfold requireScope ApiKeyScope.satisfies
  by_cases h : required ≤ ctx.scope
  · simp [h]
  · simp [h]

theorem requireAudit_eq_ok {ctx : AuthContext} {r : Unit} :
    requireAudit ctx = .ok r ↔ ctx.audit = true := by
  unfold requireAudit
  cases ctx.audit with
  | false => simp
  | true => simp

theorem requireKeyGrant_eq_ok {issuer : AuthContext} {scope : ApiKeyScope} {audit : Bool}
    {r : Unit} :
    (requireKeyGrant issuer scope audit).alone db = .ok (r, db') ↔
      ((∃ u, issuer.userId = some u ∧ db.Administers issuer.tenantId u) ∧
        scope ≤ issuer.scope ∧ (audit = true → issuer.audit = true)) ∧ db = db' := by
  unfold requireKeyGrant
  simp only [Script.alone_bind_eq_ok, requireTenantAdmin_eq_ok]
  constructor
  · rintro ⟨_, db₁, ⟨hadmin, rfl⟩, h⟩
    obtain ⟨_, hscope, h⟩ := Script.alone_ofExcept_bind_eq_ok.mp (Script.alone_bind_eq_ok.mpr h)
    refine ⟨⟨hadmin, requireScope_eq_ok.mp hscope, ?_⟩, ?_⟩
    · intro haudit
      rw [if_pos haudit, Script.alone_ofExcept] at h
      obtain ⟨_, hok, -⟩ := Except.map_eq_ok h
      exact requireAudit_eq_ok.mp hok
    · cases audit with
      | false =>
          cases h
          rfl
      | true =>
          rw [if_pos rfl, Script.alone_ofExcept] at h
          obtain ⟨_, -, heq⟩ := Except.map_eq_ok h
          exact (Prod.mk.inj heq).2
  · rintro ⟨⟨hadmin, hscope, haudit⟩, rfl⟩
    refine ⟨(), db, ⟨hadmin, rfl⟩, Script.alone_bind_eq_ok.mp
      (Script.alone_ofExcept_bind_eq_ok.mpr ⟨(), requireScope_eq_ok.mpr hscope, ?_⟩)⟩
    cases audit with
    | false => rfl
    | true =>
        rw [if_pos rfl, Script.alone_ofExcept, requireAudit_eq_ok.mpr (haudit rfl)]
        rfl

end Answers

end Yorishiro.Tenancy
