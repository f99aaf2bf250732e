import Yorishiro.Metaschema.Validate
import Yorishiro.Tenancy.Access

/-!
# API keys

Issue, rotation and revocation of API keys. A new key is a row with the digest of a fresh
plaintext, which only the result carries. A revocation keeps the row, stamps `revoked_at` and
replaces the digest by that of a key nobody has seen.
-/

set_option autoImplicit false

namespace Yorishiro.Tenancy

open Yorishiro.Lib
open Yorishiro.Lib.Fence
open Yorishiro.Metaschema (isWhitespace)
open Yorishiro.Queue (Instant)

/-- `str::trim`. -/
def trim (s : String) : String :=
  String.ofList ((s.toList.dropWhile isWhitespace).reverse.dropWhile isWhitespace).reverse

/-- Trims a key name and enforces its 1 to 100 character bound. -/
def validateKeyName (name : String) : Except YorishiroError String :=
  let name := trim name
  if name.isEmpty || decide (100 < name.length) then
    .error (.validationFailed "name must be between 1 and 100 characters"
      [{ field := "name"
         problem := "name must not be empty and must be at most 100 characters"
         code := .emptyRequired
         expected := some "1-100 characters"
         actual := some (toString name.length) }]
      "provide a non-empty API key name")
  else .ok name

/-! ## Grant metadata -/

/-- Whether a key can be used. -/
inductive KeyState where
  | active
  | revoked
  | expired
deriving DecidableEq, Repr

/-- Grant metadata of a key, without its secret. -/
structure KeyGrant where
  state : KeyState
  expiresAt : Option Instant
  revokedAt : Option Instant
  replacedById : Option Uuid
  scope : ApiKeyScope
  effectiveScope : Option ApiKeyScope
  audit : Bool
  workspaceId : Option Uuid
  tenantId : Uuid
  userId : Option Uuid
  identityKind : String
deriving DecidableEq, Repr

/-- What an active key can be used for. -/
def ApiKey.effective (key : ApiKey) : Tx (Option ApiKeyScope) :=
  match key.userId, key.workspaceId with
  | none, _ => pure (some key.scope)
  | some user, some workspace => do
      let access ← workspaceAccess key.tenantId workspace user
      pure (access.map fun a => min key.scope a.maxScope)
  | some user, none => do
      let role ← getMembershipRole key.tenantId user
      pure (role.map (effectiveScope key.scope))

/-- The description of a key at the given time. -/
def ApiKey.describe (key : ApiKey) (effective : Option ApiKeyScope) (time : Instant) :
    KeyGrant where
  state :=
    if key.revokedAt.isSome then .revoked else if !key.isActive time then .expired else .active
  expiresAt := key.expiresAt
  revokedAt := key.revokedAt
  replacedById := key.replacedById
  scope := key.scope
  effectiveScope := effective
  audit := key.audit
  workspaceId := key.workspaceId
  tenantId := key.tenantId
  userId := key.userId
  identityKind := if key.userId.isSome then "user" else "service"

/-- Describes a key. -/
def ApiKey.grantMetadata (key : ApiKey) : Tx KeyGrant := do
  let time ← now
  let effective ← if key.isActive time then key.effective else pure none
  let later ← now
  pure (key.describe effective later)

/-! ## Issue -/

/-- A key that has just been issued. -/
structure CreatedApiKey where
  id : Uuid
  workspaceId : Option Uuid
  scope : ApiKeyScope
  grant : KeyGrant
  keyPrefix : String
  name : String
  createdAt : Instant
  plaintext : String
deriving DecidableEq, Repr

/-- What a call that issues a key draws: its id and its material. -/
structure NewKey where
  id : Uuid
  material : KeyMaterial
deriving DecidableEq, Repr

/-- The refusal of an expiry that has passed. -/
def expiryInPast : YorishiroError :=
  .validationFailed "key expiry must be in the future" []
    "choose a future expires_at or omit it"

/-- The refusal of a lifetime beyond the issuer's. -/
def expiryExceedsIssuer : YorishiroError :=
  .scopeInsufficient "requested expiry exceeds the issuing key's lifetime"
    "set expires_at no later than the issuing key's expiry"

/-- There is a limit, and no expiry or one after it. -/
def exceedsLifetime (limit expiresAt : Option Instant) : Bool :=
  limit.any fun limit => expiresAt.all fun expiry => decide (limit < expiry)

section Issue

variable (h : Externals)

/-- The row of a new key. -/
def newKeyRow (material : KeyMaterial) (tenant : Uuid) (workspace user : Option Uuid)
    (name : String) (scope : ApiKeyScope) (audit : Bool) (expiresAt : Option Instant)
    (createdAt : Instant) : ApiKey where
  tenantId := tenant
  workspaceId := workspace
  userId := user
  keyHash := h.hashKey (generateKey material).2
  keyPrefix := (generateKey material).1
  name := name
  scope := scope
  audit := audit
  expiresAt := expiresAt
  revokedAt := none
  replacedById := none
  createdAt := createdAt

/-- Inserts a key; `created_at` is the time of the statement. -/
def storeKey (fresh : NewKey) (row : Instant → ApiKey) : Tx ApiKey := do
  let time ← now
  insertKey fresh.id (row time)
  pure (row time)

/-- The answer to whoever issued the key. -/
def createdKey (fresh : NewKey) (key : ApiKey) (grant : KeyGrant) : CreatedApiKey where
  id := fresh.id
  workspaceId := key.workspaceId
  scope := key.scope
  grant := grant
  keyPrefix := key.keyPrefix
  name := key.name
  createdAt := key.createdAt
  plaintext := (generateKey fresh.material).2

/-- Rejects an expiry that has passed. -/
def requireFutureExpiry (expiresAt : Option Instant) : Tx Unit :=
  match expiresAt with
  | none => pure ()
  | some expires => do
      let time ← now
      Script.failIf (expires ≤ time) expiryInPast

/-- A key bound to a workspace and attributed to a user is within what the user may do there.
The callers word their refusals differently. -/
def requireBoundGrant (missing exceeded : YorishiroError) (tenant : Uuid)
    (workspace user : Option Uuid) (scope : ApiKeyScope) : Tx Unit :=
  match workspace, user with
  | some workspace, some user => do
      let access ← workspaceAccess tenant workspace user
      let access ← Script.orFail missing access
      Script.failIf (access.maxScope < scope) exceeded
  | _, _ => pure ()

/-- A key that is issued with another one stays within what that one is worth now. -/
def requireIssuerGrant (issuer : Option AuthContext) (scope : ApiKeyScope) (audit : Bool)
    (expiresAt : Option Instant) : Tx Unit :=
  match issuer with
  | none => pure ()
  | some issuer => do
      let current ← currentContext issuer
      requireKeyGrant current scope audit
      let issuerKey ← Script.read fun db => db.keys.get? issuer.apiKeyId
      let issuerKey ← Script.orFail .unauthenticated issuerKey
      Script.failIf (exceedsLifetime issuerKey.expiresAt expiresAt) expiryExceedsIssuer

/-- Issues a key bound to a workspace, checking its attribution under the membership lock. -/
def createNamedApiKey (fresh : NewKey) (workspace : Uuid) (scope : ApiKeyScope)
    (user : Option Uuid) (audit : Bool) (name : String) (issuer : Option AuthContext)
    (expiresAt : Option Instant) : Tx CreatedApiKey := do
  let name ← Script.ofExcept (validateKeyName name)
  requireFutureExpiry expiresAt
  let row ← Script.read fun db => db.workspaces.get? workspace
  let row ← Script.orFail (.notFound "workspace not found") row
  requireAttributedKeyGrant row.tenantId user scope
  requireBoundGrant
    (.scopeInsufficient "this account has no access to the selected workspace"
      "grant workspace access before issuing a credential")
    (.scopeInsufficient "requested scope exceeds this user's workspace authority"
      "issue a lower-scoped key or change the workspace grant")
    row.tenantId (some workspace) user scope
  requireIssuerGrant issuer scope audit expiresAt
  let key ← storeKey fresh (newKeyRow h fresh.material row.tenantId (some workspace) user name
    scope audit expiresAt)
  let grant ← key.grantMetadata
  pure (createdKey fresh key grant)

/-- The operator's command: a key for a workspace. -/
def createApiKey (fresh : NewKey) (workspace : Uuid) (scope : ApiKeyScope) (user : Option Uuid)
    (audit : Bool) : Tx CreatedApiKey :=
  createNamedApiKey h fresh workspace scope user audit "unnamed" none none

/-- The operator's command: a key for a whole tenant. -/
def createTenantApiKey (fresh : NewKey) (tenant : Uuid) (scope : ApiKeyScope)
    (user : Option Uuid) (audit : Bool) (name : String) : Tx (Uuid × String) := do
  let name ← Script.ofExcept (validateKeyName name)
  let row ← Script.read fun db => db.tenants.get? tenant
  let _ ← Script.orFail (.notFound ("tenant '" ++ tenant.toString ++ "' does not exist")) row
  requireAttributedKeyGrant tenant user scope
  let _ ← storeKey fresh (newKeyRow h fresh.material tenant none user name scope audit none)
  pure (fresh.id, (generateKey fresh.material).2)

/-- Issues a key for the issuer's workspace on the issuer's behalf. -/
def createDelegatedApiKey (fresh : NewKey) (issuer : AuthContext) (scope : ApiKeyScope)
    (audit : Bool) (name : String) (expiresAt : Option Instant) : Tx CreatedApiKey :=
  createNamedApiKey h fresh issuer.workspaceId scope issuer.userId audit name (some issuer)
    expiresAt

/-- Issues a key for the whole tenant on the issuer's behalf. -/
def createDelegatedTenantApiKey (fresh : NewKey) (issuer : AuthContext) (scope : ApiKeyScope)
    (audit : Bool) (name : String) (expiresAt : Option Instant) : Tx CreatedApiKey := do
  let name ← Script.ofExcept (validateKeyName name)
  requireFutureExpiry expiresAt
  requireCurrentTenantAdmin issuer
  let current ← currentContext issuer
  requireKeyGrant current scope audit
  let issuerKey ← Script.read fun db => db.keys.get? issuer.apiKeyId
  let issuerKey ← Script.orFail .unauthenticated issuerKey
  Script.failIf issuerKey.workspaceId.isSome
    (.scopeInsufficient "a tenant-scoped key can only be issued with a tenant-scoped credential"
      "issue it from a key without a workspace binding")
  Script.failIf (exceedsLifetime issuerKey.expiresAt expiresAt) expiryExceedsIssuer
  requireAttributedKeyGrant issuer.tenantId issuer.userId scope
  let key ← storeKey fresh (newKeyRow h fresh.material issuer.tenantId none issuer.userId name
    scope audit expiresAt)
  let grant ← key.grantMetadata
  pure (createdKey fresh key grant)

/-! ## Revocation -/

/-- Revokes one of a tenant's keys. -/
def deleteForTenant (tenant id : Uuid) (shred : KeyMaterial) : Tx Unit := do
  let time ← now
  let changed ← updateKey id
    (fun key => decide (key.tenantId = tenant) && key.revokedAt.isNone)
    fun key => { key with revokedAt := some time, keyHash := h.hashKey (generateKey shred).2 }
  Script.failIf (changed = 0) (.notFound ("api key '" ++ id.toString ++ "' was not found"))

/-- Revokes the keys in turn. -/
def revokeAll (shred : Uuid → KeyMaterial) : List (Uuid × ApiKey) → Tx Unit
  | [] => pure ()
  | (id, key) :: keys => do
      deleteForTenant h key.tenantId id (shred id)
      revokeAll shred keys

/-- Revokes every key the condition selects. -/
def revokeMatching (shred : Uuid → KeyMaterial) (condition : ApiKey → Bool) : Tx Unit := do
  let keys ← Script.read fun db =>
    db.keys.rows.entries.filter fun e => condition e.2 && e.2.revokedAt.isNone
  revokeAll h shred keys

/-- The operator's command: revokes a key. -/
def revoke (id : Uuid) (shred : KeyMaterial) : Tx Unit := do
  let key ← Script.read fun db => db.keys.get? id
  let key ← Script.orFail (.notFound ("api key '" ++ id.toString ++ "' was not found")) key
  lockMembership key.tenantId
  deleteForTenant h key.tenantId id shred

/-- Revokes a key of the actor's tenant. -/
def revokeForTenant (actor : AuthContext) (id : Uuid) (shred : KeyMaterial) : Tx Unit := do
  requireCurrentTenantAdmin actor
  deleteForTenant h actor.tenantId id shred

/-! ## Rotation -/

/-- Replaces an active key by a new one with the same grant. -/
def rotate (fresh : NewKey) (shred : KeyMaterial) (actor : AuthContext) (id : Uuid) :
    Tx CreatedApiKey := do
  requireCurrentTenantAdmin actor
  let old ← Script.read fun db => db.keys.get? id
  let old ← Script.orFail (.notFound "api key not found")
    (old.filter fun key => decide (key.tenantId = actor.tenantId))
  let time ← now
  Script.failIf (!old.isActive time)
    (.conflict "only an active key can be rotated; issue a new key instead")
  let issuer ← Script.read fun db => db.keys.get? actor.apiKeyId
  let issuer ← Script.orFail .unauthenticated issuer
  Script.failIf (issuer.workspaceId.isSome && decide (old.workspaceId ≠ issuer.workspaceId))
    (.scopeInsufficient "replacement target exceeds the issuing key's binding"
      "use a credential bound to the same workspace or an authorized tenant key")
  let current ← currentContext actor
  requireKeyGrant current old.scope old.audit
  Script.failIf (exceedsLifetime issuer.expiresAt old.expiresAt)
    (.scopeInsufficient "replacement expiry exceeds the issuing key's lifetime"
      "rotate using a credential with sufficient lifetime")
  requireAttributedKeyGrant old.tenantId old.userId old.scope
  requireBoundGrant .unauthenticated
    (.scopeInsufficient "key grant exceeds current workspace authority"
      "issue a lower-scoped key instead")
    old.tenantId old.workspaceId old.userId old.scope
  let key ← storeKey fresh (newKeyRow h fresh.material old.tenantId old.workspaceId old.userId
    old.name old.scope old.audit old.expiresAt)
  deleteForTenant h actor.tenantId id shred
  let _ ← updateKey id (fun _ => true) fun key => { key with replacedById := some fresh.id }
  let grant ← key.grantMetadata
  pure (createdKey fresh key grant)

end Issue

end Yorishiro.Tenancy
