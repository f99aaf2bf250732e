import Yorishiro.Tenancy.Authentication

/-!
# Memberships and grants

Changes of tenant memberships and workspace grants, and the previews of their effects. Every
change takes the tenant's membership lock and refuses to leave the tenant without an owner; a
removal revokes the member's keys in the same transaction.
-/

set_option autoImplicit false

namespace Yorishiro.Tenancy

open Yorishiro.Lib
open Yorishiro.Lib.Fence
open Yorishiro.Queue (Instant)

/-! ## The last owner -/

/-- Under the lock: whether the change would lose the last owner. -/
def losesLastOwner (tenant user : Uuid) (nextRole : Option MembershipRole) : Tx Bool := do
  lockMembership tenant
  if nextRole = some .owner then pure false
  else do
    let role ← getMembershipRole tenant user
    if role ≠ some .owner then pure false
    else do
      let owners ← Script.read fun db => db.owners tenant
      pure (decide (owners ≤ 1))

/-- The refusal to lose the last owner. -/
def lastOwnerConflict : YorishiroError :=
  .conflict "cannot remove or demote the tenant's last owner"

/-- Serializes membership changes and refuses losing the last owner. -/
def protectOwner (tenant user : Uuid) (nextRole : Option MembershipRole) : Tx Unit := do
  let blocked ← losesLastOwner tenant user nextRole
  Script.failIf blocked lastOwnerConflict

/-! ## Adding and changing members -/

/-- Adds a membership, or changes its role. -/
def addMemberInTransaction (tenant user : Uuid) (role : MembershipRole) : Tx Unit := do
  protectOwner tenant user (some role)
  upsertMembership tenant user role

/-- The operator's command: adds a member. -/
def addMember (tenant user : Uuid) (role : MembershipRole) : Tx Unit :=
  addMemberInTransaction tenant user role

/-- Makes another member an owner and the actor an administrator. -/
def transferOwnership (actor : AuthContext) (successor : Uuid) : Tx Unit := do
  requireCurrentTenantAdmin actor
  let user ← Script.orFail .unauthenticated actor.userId
  let role ← getMembershipRole actor.tenantId user
  Script.failIf (role ≠ some .owner)
    (.scopeInsufficient "only a tenant owner can transfer ownership"
      "ask a current tenant owner to perform the transfer")
  Script.failIf (user = successor) (.conflict "ownership must be transferred to another member")
  let successorRole ← getMembershipRole actor.tenantId successor
  let _ ← Script.orFail (.notFound "successor tenant membership not found") successorRole
  addMemberInTransaction actor.tenantId successor .owner
  addMemberInTransaction actor.tenantId user .admin

/-- What a key gives its user, in a report. -/
structure MembershipKeyAccess where
  apiKeyId : Uuid
  storedScope : ApiKeyScope
  effectiveScope : Option ApiKeyScope
  audit : Bool
deriving DecidableEq, Repr

/-- What a key gives its user with the given role. -/
def ApiKey.effectiveWith (user : Uuid) (role : MembershipRole) (key : ApiKey) :
    Tx (Option ApiKeyScope) :=
  match key.workspaceId with
  | none => pure none
  | some workspace => do
      let access ← workspaceAccessForRole workspace user role
      pure (access.map fun a => min key.scope a.maxScope)

/-- What the keys give a member with the given role, one key at a time. -/
def keyAccessOf (user : Uuid) (role : MembershipRole) :
    List (Uuid × ApiKey) → Tx (List MembershipKeyAccess)
  | [] => pure []
  | (id, key) :: keys => do
      let effective ← key.effectiveWith user role
      let rest ← keyAccessOf user role keys
      pure (⟨id, key.scope, effective, key.audit⟩ :: rest)

/-- What the member's keys give with the given role, those that are neither revoked nor, as the
database compares, expired. -/
def keyAccess (h : Externals) (tenant user : Uuid) (role : MembershipRole) :
    Tx (List MembershipKeyAccess) := do
  let time ← now
  let keys ← Script.read fun db => db.keys.rows.entries.filter fun e =>
    decide (e.2.tenantId = tenant) && decide (e.2.userId = some user) &&
      e.2.listed (h.expiryZone e.1) time
  keyAccessOf user role keys

/-- Whether a new role gives or takes ownership. -/
def touchesOwnership (tenant user : Uuid) (role : MembershipRole) : Tx Bool :=
  if role = .owner then pure true
  else do
    let current ← getMembershipRole tenant user
    pure (decide (current = some .owner))

/-- Changes a member's role, or adds one, and reports the member's keys. -/
def updateMemberAccess (h : Externals) (actor : AuthContext) (user : Uuid) (role : MembershipRole) :
    Tx (List MembershipKeyAccess) := do
  requireCurrentTenantAdmin actor
  let ownership ← touchesOwnership actor.tenantId user role
  requireOwnerIf ownership actor
  addMemberInTransaction actor.tenantId user role
  keyAccess h actor.tenantId user role

/-- A user with an email. -/
def Db.userByEmail (db : Db) (email : String) : Option (Uuid × User) :=
  db.users.rows.entries.find? fun e => e.2.email = email

/-- A member, in an answer. -/
structure MembershipRecord where
  userId : Uuid
  email : String
  displayName : Option String
  role : MembershipRole
deriving DecidableEq, Repr

/-- `POST /api/members`: adds an existing account by email. -/
def addMemberByEmail (h : Externals) (actor : AuthContext) (email : String)
    (role : MembershipRole) : Tx (MembershipRecord × List MembershipKeyAccess) := do
  requireTenantAdmin actor.tenantId actor.userId
  let user ← Script.read fun db => db.userByEmail email
  let user ← Script.orFail (.notFound ("no user with email '" ++ email ++ "' has an account")) user
  let keys ← updateMemberAccess h actor user.1 role
  pure (⟨user.1, user.2.email, user.2.displayName, role⟩, keys)

/-! ## Removing members -/

section Remove

variable (h : Externals)

/-- Removes a membership with the user's grants in the tenant, and revokes the user's keys. -/
def removeMemberInTransaction (shred : Uuid → KeyMaterial) (tenant user : Uuid) : Tx Unit := do
  protectOwner tenant user none
  deleteGrants user fun db workspace =>
    (db.workspaces.get? workspace).any fun ws => decide (ws.tenantId = tenant)
  deleteMembership tenant user
  revokeMatching h shred fun key =>
    decide (key.tenantId = tenant) && decide (key.userId = some user)

/-- The operator's command: removes a member. -/
def removeMember (shred : Uuid → KeyMaterial) (tenant user : Uuid) : Tx Unit :=
  removeMemberInTransaction h shred tenant user

/-- Removes a member for an administrator. -/
def removeMemberAs (shred : Uuid → KeyMaterial) (actor : AuthContext) (user : Uuid) : Tx Unit := do
  requireCurrentTenantAdmin actor
  let role ← getMembershipRole actor.tenantId user
  requireOwnerIf (role = some .owner) actor
  removeMemberInTransaction h shred actor.tenantId user

/-! ## Workspace grants -/

/-- Records a direct grant. -/
def grantWorkspace (workspace user : Uuid) (role : WorkspaceRole) : Tx Unit := do
  let tenant ← getWorkspaceTenant workspace
  lockMembership tenant
  let membership ← getMembershipRole tenant user
  let _ ← Script.orFail (.notFound "tenant membership not found") membership
  upsertGrant workspace user role

/-- Revokes a direct grant, and the keys it bound unless the user inherits access. -/
def revokeGrant (shred : Uuid → KeyMaterial) (workspace user : Uuid) : Tx Unit := do
  let tenant ← getWorkspaceTenant workspace
  lockMembership tenant
  deleteGrants user fun _ w => decide (w = workspace)
  let role ← getMembershipRole tenant user
  if role.any (·.administersTenant) then pure ()
  else revokeMatching h shred fun key =>
    decide (key.tenantId = tenant) && decide (key.workspaceId = some workspace) &&
      decide (key.userId = some user)

/-- Records a direct grant for a workspace administrator. -/
def grantAs (actor : AuthContext) (workspace user : Uuid) (role : WorkspaceRole) : Tx Unit := do
  requireCurrentWorkspaceAdmin actor workspace
  grantWorkspace workspace user role

/-- Revokes a direct grant for a workspace administrator. -/
def revokeAs (shred : Uuid → KeyMaterial) (actor : AuthContext) (workspace user : Uuid) :
    Tx Unit := do
  requireCurrentWorkspaceAdmin actor workspace
  revokeGrant h shred workspace user

end Remove

/-! ## Previews -/

/-- What a removal would do. -/
structure MembershipRemovalPreview where
  userId : Uuid
  role : Option MembershipRole
  blockedByLastOwner : Bool
  revokedApiKeyIds : List Uuid
  lostWorkspaceIds : List Uuid
deriving DecidableEq, Repr

/-- The workspaces of the tenant among the given ones. -/
def tenantWorkspaces (tenant : Uuid) (ids : List Uuid) (db : Db) : List Uuid :=
  (db.workspaces.entries.filter fun e =>
    decide (e.2.tenantId = tenant) && ids.contains e.1).map Prod.fst

/-- Reports what a removal would do. -/
def previewRemoval (actor : AuthContext) (user : Uuid) : Tx MembershipRemovalPreview := do
  requireCurrentTenantAdmin actor
  let role ← getMembershipRole actor.tenantId user
  let blocked ← if role = some .owner then do
      let owners ← Script.read fun db => db.owners actor.tenantId
      pure (decide (owners ≤ 1))
    else pure false
  let revoked ← Script.read fun db => (db.keys.rows.entries.filter fun e =>
    decide (e.2.tenantId = actor.tenantId) && decide (e.2.userId = some user) &&
      e.2.revokedAt.isNone).map Prod.fst
  let lost ← if role.isSome then do
      let candidates ← listWorkspacesForUser user
      Script.read (tenantWorkspaces actor.tenantId candidates)
    else pure []
  pure ⟨user, role, blocked, revoked, lost⟩

/-- What a role change would do. -/
structure MembershipRolePreview where
  userId : Uuid
  currentRole : MembershipRole
  requestedRole : MembershipRole
  blockedByLastOwner : Bool
  lostWorkspaceIds : List Uuid
  keys : List MembershipKeyAccess
deriving DecidableEq, Repr

/-- The workspaces the user cannot reach with the given role. -/
def lostWithRole (user : Uuid) (role : MembershipRole) : List Uuid → Tx (List Uuid)
  | [] => pure []
  | workspace :: workspaces => do
      let access ← workspaceAccessForRole workspace user role
      let rest ← lostWithRole user role workspaces
      pure (if access.isNone then workspace :: rest else rest)

/-- Reports what a role change would do. The source asks `protect_owner` and takes its conflict
for an answer, the only refusal it has. -/
def previewRoleChange (h : Externals) (actor : AuthContext) (user : Uuid) (role : MembershipRole) :
    Tx MembershipRolePreview := do
  requireCurrentTenantAdmin actor
  let current ← getMembershipRole actor.tenantId user
  let current ← Script.orFail (.notFound "tenant membership not found") current
  let blocked ← if role ≠ .owner then losesLastOwner actor.tenantId user (some role)
    else pure false
  let keys ← keyAccess h actor.tenantId user role
  let candidates ← listWorkspacesForUser user
  let workspaces ← Script.read (tenantWorkspaces actor.tenantId candidates)
  let lost ← lostWithRole user role workspaces
  pure ⟨user, current, role, blocked, lost.insertionSort (· ≤ ·), keys⟩

end Yorishiro.Tenancy
