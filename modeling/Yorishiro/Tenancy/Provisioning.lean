import Yorishiro.Base.Quotas
import Yorishiro.Schema.Store
import Yorishiro.Tenancy.Operations

/-!
# Provisioning of accounts

How a deployment gets its tenants: the setup of the first account, signups, and first logins
of OAuth identities. They write more columns than the operations on tenancy do, so their
database is a `Deployment`: the tables of tenancy with the identities of users, the limits of
tenants, the settings of workspaces and the schemas stored in them. The operations run on it
through `onBase`.

`Job` has all of this as one system: provisioning of every kind among any operations on
tenancy. The database is PostgreSQL, where a lock is an advisory lock of the transaction.
-/

set_option autoImplicit false

namespace Yorishiro.Tenancy

open Yorishiro.Lib
open Yorishiro.Lib.Fence
open Yorishiro.Lib.JsonSchema (Dialect)
open Yorishiro.Metaschema (MetaSchemaDefinition validateDefinition)
open Yorishiro.Queue (Instant)
open Yorishiro.Schema (versionLockKey)

/-! ## The database -/

/-- `oauth_provider` and `oauth_subject_id` of a row of `user_users`. -/
structure Identity where
  provider : String
  subjectId : String
deriving DecidableEq, Repr

/-- `user_users_oauth_identity_idx`: identities are unique. -/
def Identity.clash (a b : Identity) : Bool := decide (a = b)

/-- The tables of tenancy with the columns that provisioning writes besides: the identity of a
user who signs in by OAuth, the workspace limit of a tenant that has one, and the settings and
schemas of a workspace. -/
structure Deployment where
  base : Db
  identities : Table Uuid Identity Identity.clash
  maxWorkspaces : OrderedMap Uuid Int
  settings : OrderedMap Uuid Schema.Workspace
  schemas : OrderedMap Uuid Schema.Schemas

/-- No rows. -/
def Deployment.empty (clock : Instant) : Deployment where
  base := .empty clock
  identities := .empty
  maxWorkspaces := .empty
  settings := .empty
  schemas := .empty

/-- A transaction on a deployment. -/
abbrev Work := Script String Deployment YorishiroError

/-- A transaction on the tables of tenancy. -/
def onBase {α : Type} (p : Tx α) : Work α :=
  p.zoom Deployment.base fun base d => { d with base := base }

/-! ## Tenants -/

/-- `sea_orm::DatabaseBackend`, as far as the deployment uses it. -/
inductive DatabaseBackend where
  | postgres
  | sqlite
deriving DecidableEq, Repr

/-- A configured deployment quota, or a backend isolation constraint that cannot be relaxed. -/
inductive TenantLimit where
  | unlimited
  | configured (max : Int)
  | singleTenant
deriving DecidableEq, Repr

namespace TenantLimit

/-- The limit of a deployment with a configured quota. -/
def resolve (backend : DatabaseBackend) (configured : Option Int) : TenantLimit :=
  match backend with
  | .sqlite => .singleTenant
  | .postgres => configured.elim .unlimited .configured

/-- How many tenants there may be. -/
def maximum : TenantLimit → Option Nat
  | .unlimited => none
  | .configured max => some max.toNat
  | .singleTenant => some 1

/-- What a deployment at its limit can do about it. -/
def remedy : TenantLimit → String
  | .singleTenant =>
      "this backend has no database-enforced tenant isolation; use PostgreSQL for more than one tenant"
  | _ => "raise YORISHIRO_MAX_TENANTS or delete an existing tenant"

/-- The refusal of a tenant beyond the limit. -/
def exhausted (limit : TenantLimit) : YorishiroError :=
  .conflict ("this deployment has reached its tenant limit (" ++
    toString (limit.maximum.getD 0) ++ "); " ++ limit.remedy)

end TenantLimit

/-- The number of tenants, without that of the infrastructure. -/
def countTenants (d : Deployment) : Nat :=
  d.base.tenants.count fun id _ => decide (id ≠ infrastructureTenantId)

/-- Under the lock: whether there may be another tenant. -/
def requireTenantRoom (limit : TenantLimit) : Work Unit :=
  match limit.maximum with
  | none => pure ()
  | some max => do
      Script.acquire "create_tenant"
      let count ← Script.read countTenants
      Script.failIf (max ≤ count) limit.exhausted

theorem requireTenantRoom_none {limit : TenantLimit} (h : limit.maximum = none) :
    requireTenantRoom limit = pure () := by
  rw [requireTenantRoom, h]

theorem requireTenantRoom_some {limit : TenantLimit} {max : Nat} (h : limit.maximum = some max) :
    requireTenantRoom limit = (do
      Script.acquire "create_tenant"
      let count ← Script.read countTenants
      Script.failIf (max ≤ count) limit.exhausted) := by
  rw [requireTenantRoom, h]

/-- The deployment with a new tenant, which has no workspace limit. -/
def Deployment.addTenant (d : Deployment) (id : Uuid) (name : String) : Deployment :=
  { d with base := d.base.addTenant id name, maxWorkspaces := d.maxWorkspaces.erase id }

/-- `INSERT` of a tenant. -/
def insertTenant (id : Uuid) (name : String) : Work Unit :=
  .update fun d =>
    if (d.base.tenants.get? id).isSome then .error (.internal .uniqueViolation)
    else .ok ((), d.addTenant id name)

/-- Creates a tenant, within the limit. -/
def createTenant (id : Uuid) (name : String) (effectiveMax : Option Int) : Work Uuid := do
  requireTenantRoom (.resolve .postgres effectiveMax)
  insertTenant id name
  pure id

/-! ## Workspaces -/

/-- Under the lock: whether the tenant may have another workspace. -/
def requireWorkspaceRoom (tenant : Uuid) : Option Int → Work Unit
  | none => pure ()
  | some max => do
      Script.acquire (workspaceCountLockKey tenant)
      let count ← Script.read fun d =>
        d.base.workspaces.count fun _ row => decide (row.tenantId = tenant)
      Script.failIf (max.toNat ≤ count) (.conflict ("tenant '" ++ tenant.toString ++
        "' has reached its workspace limit (" ++ toString max ++
        "); raise max_workspaces or delete an existing workspace"))

/-- `INSERT` of a workspace, which waits for a schema unless it names one. -/
def insertWorkspace (id tenant : Uuid) (name : String) (maxEntities : Option Int)
    (schemaId : Option Uuid) : Work Unit :=
  .update fun d =>
    if (d.base.workspaces.get? id).isSome then .error (.internal .uniqueViolation)
    else do
      requireReferences (d.base.tenants.get? tenant).isSome
      pure ((), { d with
        base := { d.base with workspaces := d.base.workspaces.insert id ⟨tenant, name⟩ }
        settings := d.settings.insert id ⟨schemaId.isNone, schemaId, maxEntities⟩ })

/-- Creates a workspace, within the tenant's limit. -/
def createWorkspaceWithQuota (id tenant : Uuid) (name : String) (maxEntities : Option Int)
    (schemaId : Option Uuid) (quota : Option Int) : Work Uuid := do
  onBase (lockMembership tenant)
  onBase (requireActive tenant)
  let row ← Script.read fun d => (d.base.tenants.get? tenant).map fun _ => d.maxWorkspaces.get? tenant
  let manual ← Script.orFail (.notFound ("tenant '" ++ tenant.toString ++ "' was not found")) row
  requireWorkspaceRoom tenant (effectiveLimit manual quota)
  insertWorkspace id tenant name maxEntities schemaId
  pure id

/-- Creates a workspace, within the tenant's own limit only. -/
def createWorkspace (id tenant : Uuid) (name : String) (maxEntities : Option Int)
    (schemaId : Option Uuid) : Work Uuid :=
  createWorkspaceWithQuota id tenant name maxEntities schemaId none

/-- `UPDATE` of a workspace's `schema_id` and `status`. -/
def activateWorkspace (workspace schema : Uuid) : Work Uuid :=
  .update fun d =>
    match d.settings.get? workspace with
    | none => .error (.internal (.custom "None of the records are updated"))
    | some row => .ok (workspace, { d with
        settings := d.settings.insert workspace
          { row with schemaPending := false, schemaId := some schema } })

/-! ## Schemas -/

/-- The schemas stored in a workspace. -/
def Deployment.schemasOf (d : Deployment) (workspace : Uuid) : Schema.Schemas :=
  (d.schemas.get? workspace).getD .empty

/-- The statements of `create_schema`, on a workspace that is there. The lock makes them one. -/
def storeSchema (env : Dialect) (display : ℚ → String) (id tenant workspace : Uuid)
    (definition : MetaSchemaDefinition) : Work Uuid :=
  .update fun d =>
    match d.settings.get? workspace with
    | none => .error (.internal .foreignKeyViolation)
    | some row => do
        let (schemas, row, _, _) ← Schema.createSchema env display (d.schemasOf workspace) row tenant
          definition none none id d.base.clock
        pure (id, { d with
          schemas := d.schemas.insert workspace schemas
          settings := d.settings.insert workspace row })

/-- Stores the first version of a schema of no template's, or the next. -/
def createSchema (env : Dialect) (display : ℚ → String) (id tenant workspace : Uuid)
    (definition : MetaSchemaDefinition) : Work Uuid := do
  Script.ofExcept (validateDefinition env display definition)
  Script.acquire (versionLockKey workspace definition.name)
  storeSchema env display id tenant workspace definition

/-! ## Accounts -/

/-- The ids that the rows of a new account get, and the salt of its password. The tenant's is
drawn by `uuidv7`, which is never nil. -/
structure NewAccount where
  user : Uuid
  salt : String
  tenant : Uuid
  workspace : Uuid
  schema : Uuid
  tenant_ne : tenant ≠ infrastructureTenantId

/-- Who asks for an account with a password. -/
structure Signup where
  email : String
  password : String
  displayName : Option String
deriving DecidableEq, Repr

/-- What the setup returns. -/
structure SetupAccount where
  userId : Uuid
  email : String
  tenantId : Uuid
  workspaceId : Uuid
deriving DecidableEq, Repr

/-- Creates the account's user and its ownership of the tenant. -/
def registerOwner (h : Externals) (fresh : NewAccount) (tenant : Uuid) (account : Signup) :
    Work (Uuid × User) :=
  onBase (registerMember h ⟨fresh.user, fresh.salt⟩ tenant account.email account.password
    account.displayName .owner)

/-- Creates an account in a tenant of its own. -/
def signupAccount (h : Externals) (fresh : NewAccount) (maxTenants : Option Int)
    (account : Signup) : Work ((Uuid × User) × Uuid) := do
  let tenant ← createTenant fresh.tenant (account.displayName.getD account.email) maxTenants
  let user ← registerOwner h fresh tenant account
  pure (user, tenant)

/-- The setup of a deployment that has no tenants yet. -/
def openDeployment (h : Externals) (fresh : NewAccount) (maxTenants : Option Int)
    (account : Signup) : Work SetupAccount := do
  Script.acquire "setup"
  let count ← Script.read countTenants
  Script.failIf (0 < count) (.conflict "this deployment has already been set up")
  let tenant ← createTenant fresh.tenant "default" maxTenants
  let workspace ← createWorkspace fresh.workspace tenant "default" none none
  let user ← registerOwner h fresh tenant account
  pure ⟨user.1, user.2.email, tenant, workspace⟩

/-- Creates the first account, on a deployment with a tenant limit. -/
def setupFirstAccount (h : Externals) (fresh : NewAccount) (maxTenants : Option Int)
    (account : Signup) : Work SetupAccount :=
  if maxTenants.isNone then .fail (.notFound "the setup wizard is not enabled on this deployment")
  else openDeployment h fresh maxTenants account

/-! ## OAuth identities -/

/-- The user of an identity. -/
def findByOauthIdentity (identity : Identity) (d : Deployment) : Option Uuid :=
  (d.identities.rows.entries.find? fun e => decide (e.2 = identity)).map Prod.fst

/-- `INSERT` of a user without a password; `taken` is the answer to a unique violation. -/
def createOauthUser (id : Uuid) (email : String) (displayName : Option String)
    (identity : Identity) (taken : YorishiroError) : Work Uuid :=
  .update fun d => do
    let users ← (d.base.users.insert id ⟨email, none, displayName⟩).mapError fun _ => taken
    let identities ← (d.identities.insert id identity).mapError fun _ => taken
    pure (id, { d with base := { d.base with users := users }, identities := identities })

/-- The name of the lock of an identity. -/
def identityLockKey (identity : Identity) : String :=
  "oauth:" ++ identity.provider ++ ":" ++ identity.subjectId

/-- The part of an email before the `@`. -/
def tenantNameFromEmail (email : String) : String :=
  String.ofList (email.toList.takeWhile fun c => c ≠ '@')

/-- What an OAuth login issues its key for. -/
structure ProvisionedLogin where
  userId : Uuid
  workspaceId : Uuid
  scope : ApiKeyScope
deriving DecidableEq, Repr

/-- The one workspace of an account that signs in by OAuth. -/
def soleWorkspace : List Uuid → Tx Uuid
  | [] => .fail (.scopeInsufficient "this account is not a member of any tenant"
      "ask a tenant admin to add you as a member first")
  | [workspace] => pure workspace
  | _ => .fail (.validationFailed "this account has access to more than one workspace" []
      "sign in with password and specify workspace_id explicitly")

/-- Where a user that was provisioned before signs in. -/
def resolveExistingLogin (user : Uuid) : Tx ProvisionedLogin := do
  let workspaces ← listWorkspacesForUser user
  let workspace ← soleWorkspace workspaces
  let tenant ← getWorkspaceTenant workspace
  let access ← workspaceAccess tenant workspace user
  let access ← Script.orFail (.scopeInsufficient "this account has no access to its workspace"
    "ask a tenant admin for a workspace grant") access
  pure ⟨user, workspace, access.maxScope⟩

/-- The refusal of a first login without an email. -/
def missingEmail : YorishiroError :=
  .validationFailed "the identity provider did not return an email claim" []
    "this OAuth provider/app registration must be configured to release the 'email' claim"

/-- The refusal of a first login with the email of another account. -/
def emailTaken (email : String) : YorishiroError :=
  .conflict ("a user with email '" ++ email ++
    "' already exists (sign in with password, or ask a tenant admin to link this SSO identity)")

/-- What a provider says about who signs in. -/
structure CallbackIdentity where
  subjectId : String
  email : Option String
  displayName : Option String
deriving DecidableEq, Repr

/-- What provisioning takes from the rest of the program: the digests, and the checks and the
definition of the built-in schema. -/
structure Provisioner where
  externals : Externals
  dialect : Dialect
  display : ℚ → String
  generalNotes : MetaSchemaDefinition

/-- Provisions a user with a tenant, a workspace and a schema of its own. -/
def provision (env : Provisioner) (fresh : NewAccount) (identity : Identity) (email : String)
    (displayName : Option String) (maxTenants : Option Int) : Work ProvisionedLogin := do
  let user ← createOauthUser fresh.user email displayName identity (emailTaken email)
  let tenant ← createTenant fresh.tenant (tenantNameFromEmail email) maxTenants
  let workspace ← createWorkspace fresh.workspace tenant "default" none none
  let schema ← createSchema env.dialect env.display fresh.schema tenant workspace env.generalNotes
  let workspace ← activateWorkspace workspace schema
  onBase (addMemberInTransaction tenant user .owner)
  pure ⟨user, workspace, MembershipRole.owner.maxScope⟩

/-- Finds the user of an identity, or provisions one at its first login. -/
def findOrCreate (env : Provisioner) (fresh : NewAccount) (provider : String)
    (who : CallbackIdentity) (maxTenants : Option Int) : Work ProvisionedLogin := do
  let identity : Identity := ⟨provider, who.subjectId⟩
  Script.acquire (identityLockKey identity)
  let existing ← Script.read (findByOauthIdentity identity)
  match existing with
  | some user => onBase (resolveExistingLogin user)
  | none => do
      let email ← Script.orFail missingEmail who.email
      provision env fresh identity email who.displayName maxTenants

/-! ## Callbacks -/

/-- Why a user cannot be signed in to a workspace yet. -/
inductive LoginRecoveryReason where
  | tenantMembershipRequired
  | workspaceProvisioningRequired
  | workspaceAccessRequired
  | workspaceSelectionRequired
deriving DecidableEq, Repr

/-- The workspace of a login, or what is left to do. -/
inductive LoginWorkspaceState where
  | selected (workspace : Uuid)
  | recovery (reason : LoginRecoveryReason) (memberships : List LoginMembership)
      (workspaces : List LoginWorkspace)
deriving DecidableEq, Repr

/-- What keeps a user with these memberships and workspaces from one workspace. -/
def recoveryReason (memberships : List LoginMembership) (workspaces : List LoginWorkspace) :
    LoginRecoveryReason :=
  if memberships.isEmpty then .tenantMembershipRequired
  else if workspaces.isEmpty then
    if memberships.any fun m => m.role.administersTenant then .workspaceProvisioningRequired
    else .workspaceAccessRequired
  else .workspaceSelectionRequired

/-- The workspace the user asks for, or the only one there is. -/
def resolveLoginWorkspace (user : Uuid) : Option Uuid → Tx LoginWorkspaceState
  | some workspace => do
      let _ ← getWorkspaceTenant workspace
      pure (.selected workspace)
  | none => do
      let options ← loginOptions user
      match options.2 with
      | [workspace] => pure (.selected workspace.workspaceId)
      | workspaces => pure (.recovery (recoveryReason options.1 workspaces) options.1 workspaces)

/-- Issues the key of a login. -/
def loginKey (h : Externals) (fresh : NewKey) (user workspace : Uuid) : Tx CreatedApiKey := do
  let tenant ← getWorkspaceTenant workspace
  let access ← workspaceAccess tenant workspace user
  let access ← Script.orFail (.scopeInsufficient
    "this account has no access to the selected workspace"
    "ask a tenant admin for a workspace grant") access
  createApiKey h fresh workspace access.maxScope (some user) false

/-- What a callback comes to, with the user it resolved the identity to. -/
inductive CallbackOutcome where
  | recovery (user : Uuid) (reason : LoginRecoveryReason) (memberships : List LoginMembership)
      (workspaces : List LoginWorkspace)
  | login (user : Uuid) (key : CreatedApiKey)
  | provisioned (account : ProvisionedLogin)
deriving DecidableEq, Repr

/-- The user that the identity was resolved to. -/
def CallbackOutcome.user : CallbackOutcome → Uuid
  | .recovery user _ _ _ => user
  | .login user _ => user
  | .provisioned account => account.userId

/-- Signs a known user in. -/
def signIn (h : Externals) (fresh : NewKey) (user : Uuid) (requested : Option Uuid) :
    Tx CallbackOutcome := do
  let state ← resolveLoginWorkspace user requested
  match state with
  | .recovery reason memberships workspaces => pure (.recovery user reason memberships workspaces)
  | .selected workspace => do
      let created ← loginKey h fresh user workspace
      pure (.login user created)

/-- The callback of a provider, up to the commit of its transaction: a known identity signs in,
an unknown one is provisioned. The key of a first login is issued afterwards, by an operation
of its own. -/
def callback (env : Provisioner) (fresh : NewAccount) (key : NewKey) (who : CallbackIdentity)
    (requested : Option Uuid) (maxTenants : Option Int) : Work CallbackOutcome := do
  -- outside the transaction: a read of its own, which holds no lock
  let existing ← Script.read (findByOauthIdentity ⟨"oidc", who.subjectId⟩)
  match existing with
  | some user => onBase (signIn env.externals key user requested)
  | none => do
      let login ← findOrCreate env fresh "oidc" who maxTenants
      pure (.provisioned login)

/-! ## The system -/

/-- A transaction of the deployment, with what it draws. -/
inductive Job where
  | op (call : Op)
  | setup (fresh : NewAccount) (account : Signup)
  | signup (fresh : NewAccount) (account : Signup)
  | findOrCreate (fresh : NewAccount) (provider : String) (who : CallbackIdentity)
  | callback (fresh : NewAccount) (key : NewKey) (who : CallbackIdentity) (requested : Option Uuid)

/-- Whether a job is a setup. -/
def Job.isSetup : Job → Bool
  | .setup _ _ => true
  | _ => false

/-- The identity that a job signs in. -/
def Job.identity : Job → Option Identity
  | .findOrCreate _ provider who => some ⟨provider, who.subjectId⟩
  | .callback _ _ who _ => some ⟨"oidc", who.subjectId⟩
  | _ => none

/-- What a job returns. -/
inductive Outcome where
  | op (result : Result)
  | setup (account : SetupAccount)
  | signup (user : Uuid × User) (tenant : Uuid)
  | found (login : ProvisionedLogin)
  | callback (outcome : CallbackOutcome)

/-- The user that a job resolved an identity to. -/
def Outcome.resolved : Outcome → Option Uuid
  | .found login => some login.userId
  | .callback outcome => some outcome.user
  | _ => none

/-- The transaction of a job, on a deployment with a tenant limit or none. -/
def Job.code (env : Provisioner) (maxTenants : Option Int) : Job → Work Outcome
  | .op call => do pure (.op (← onBase (call.code env.externals)))
  | .setup fresh account => do
      pure (.setup (← setupFirstAccount env.externals fresh maxTenants account))
  | .signup fresh account => do
      let created ← signupAccount env.externals fresh maxTenants account
      pure (.signup created.1 created.2)
  | .findOrCreate fresh provider who => do
      pure (.found (← Tenancy.findOrCreate env fresh provider who maxTenants))
  | .callback fresh key who requested => do
      pure (.callback (← Tenancy.callback env fresh key who requested maxTenants))

/-- Time passes. -/
def elapse (n : Nat) (d : Deployment) : Deployment :=
  { d with base := { d.base with clock := d.base.clock + n } }

/-- The deployment between its statements. -/
abbrev DeploymentServer := Server Job String Deployment YorishiroError Outcome

/-- One step of the deployment. -/
def deploymentStep (env : Provisioner) (maxTenants : Option Int) :
    DeploymentServer → Event Job Nat → DeploymentServer :=
  Server.step (Job.code env maxTenants) elapse

/-! ## Sign-ins write no account rows -/

section Quiet

open Script

theorem quiet_loginOptions (user : Uuid) : Quiet (loginOptions user) := by
  refine (within_read _).bind fun _ => (within_ofExcept _).bind fun memberships =>
    Within.bind ?_ fun _ => within_pure _
  unfold loginWorkspaces
  split_ifs
  · exact within_pure _
  · exact (within_read _).bind fun _ => (within_read _).bind fun _ =>
      (within_ofExcept _).bind fun _ => within_pure _

theorem quiet_soleWorkspace (workspaces : List Uuid) : Quiet (soleWorkspace workspaces) := by
  unfold soleWorkspace
  split
  · exact within_fail _
  · exact within_pure _
  · exact within_fail _

theorem quiet_resolveExistingLogin (user : Uuid) : Quiet (resolveExistingLogin user) :=
  Within.bind (Within.bind (quiet_loginOptions user) fun _ => within_pure _) fun _ =>
    Within.bind (quiet_soleWorkspace _) fun _ => Within.bind (quiet_getWorkspaceTenant _) fun _ =>
    Within.bind (quiet_workspaceAccess _ _ _) fun _ => (within_orFail _ _).bind fun _ =>
    within_pure _

theorem quiet_resolveLoginWorkspace (user : Uuid) (requested : Option Uuid) :
    Quiet (resolveLoginWorkspace user requested) := by
  cases requested with
  | some workspace => exact Within.bind (quiet_getWorkspaceTenant _) fun _ => within_pure _
  | none =>
      refine Within.bind (quiet_loginOptions user) fun options => ?_
      split
      · exact within_pure _
      · exact within_pure _

/-- The only row that a sign-in of a known user writes is that of a key. -/
theorem within_signIn {h : Externals} {fresh : NewKey} (user : Uuid) (requested : Option Uuid) :
    Within (Statement h [.newKey fresh.id]) (signIn h fresh user requested) := by
  refine Within.bind (quiet_resolveLoginWorkspace user requested).within fun state => ?_
  cases state with
  | recovery reason memberships workspaces => exact within_pure _
  | selected workspace =>
      refine Within.bind ?_ fun _ => within_pure _
      exact Within.bind (quiet_getWorkspaceTenant _).within fun _ =>
        Within.bind (quiet_workspaceAccess _ _ _).within fun _ => (within_orFail _ _).bind fun _ =>
        within_createNamedApiKey List.mem_cons_self _ _ _ _ _ _ _

theorem quiet_requireWorkspaceRoom (tenant : Uuid) (limit : Option Int) :
    Quiet (requireWorkspaceRoom tenant limit) := by
  cases limit with
  | none => exact within_pure _
  | some max =>
      exact (within_acquire _).bind fun _ => (within_read _).bind fun _ => within_failIf _ _

theorem effects_insertWorkspace (id tenant : Uuid) (name : String) (maxEntities : Option Int)
    (schemaId : Option Uuid) :
    (insertWorkspace id tenant name maxEntities schemaId).Effects fun d a d' => a = () ∧
      d.base.workspaces.get? id = none ∧ d' = { d with
        base := { d.base with workspaces := d.base.workspaces.insert id ⟨tenant, name⟩ }
        settings := d.settings.insert id ⟨schemaId.isNone, schemaId, maxEntities⟩ } := by
  refine effects_update fun d b d' hok => ?_
  split_ifs at hok with htaken
  obtain ⟨_, -, hok⟩ := Except.bind_eq_ok.mp hok
  cases hok
  exact ⟨rfl, Option.not_isSome_iff_eq_none.mp htaken, rfl⟩

end Quiet

/-! ## What statements leave alone -/

/-- The number of tenants and the identities stay. -/
structure SameAccounts (d d' : Deployment) : Prop where
  tenants : countTenants d' = countTenants d
  identities : d'.identities = d.identities

section SameAccounts

open Script

variable {h : Externals} {parts : List Part}

/-- Statements on the tables of tenancy disable tenants, and neither add nor remove any. -/
theorem Statement.sameAccounts {db db' : Db} (hs : Statement h parts db db') (d : Deployment)
    (hd : d.base = db) : SameAccounts d { d with base := db' } := by
  subst hd
  cases hs with
  | disable _ tenant time =>
      refine ⟨?_, rfl⟩
      change (OrderedMap.updateWhere _ _ d.base.tenants).count _ = d.base.tenants.count _
      rw [OrderedMap.count_updateWhere]
      exact (OrderedMap.count_eq_add _ _ _).symm
  | _ => exact ⟨rfl, rfl⟩

theorem sameAccounts_onBase {α : Type} {p : Tx α} (hp : Within (Statement h parts) p) :
    Within SameAccounts (onBase p) :=
  Within.zoom _ _ (fun d _ hs => hs.sameAccounts d rfl) hp

theorem sameAccounts_quiet {α : Type} {p : Tx α} (hp : Quiet p) : Within SameAccounts (onBase p) :=
  Quiet.within (hp.zoom _ _)

theorem sameAccounts_registerOwner (fresh : NewAccount) (tenant : Uuid) (account : Signup) :
    Within SameAccounts (registerOwner h fresh tenant account) := by
  have hwithin : Within (Statement h [.users, .members]) (registerMember h
      ⟨fresh.user, fresh.salt⟩ tenant account.email account.password account.displayName .owner) := by
    refine Within.bind ?_ fun user => ?_
    · exact (within_insertUser (by simp) _ _ _).bind fun _ => within_pure _
    · exact (within_addMemberInTransaction (by simp) _ _ _).bind fun _ => within_pure _
  exact sameAccounts_onBase hwithin

theorem sameAccounts_addOwner (h : Externals) (tenant user : Uuid) :
    Within SameAccounts (onBase (addMemberInTransaction tenant user .owner)) := by
  have hwithin : Within (Statement h [.members]) (addMemberInTransaction tenant user .owner) :=
    within_addMemberInTransaction List.mem_cons_self _ _ _
  exact sameAccounts_onBase hwithin

theorem sameAccounts_insertWorkspace (id tenant : Uuid) (name : String) (maxEntities : Option Int)
    (schemaId : Option Uuid) :
    Within SameAccounts (insertWorkspace id tenant name maxEntities schemaId) := by
  refine within_update fun d _ d' hok => ?_
  split_ifs at hok
  obtain ⟨_, -, hok⟩ := Except.bind_eq_ok.mp hok
  cases hok
  exact ⟨rfl, rfl⟩

theorem sameAccounts_createWorkspace (id tenant : Uuid) (name : String) (maxEntities : Option Int)
    (schemaId : Option Uuid) :
    Within SameAccounts (createWorkspace id tenant name maxEntities schemaId) := by
  exact (sameAccounts_quiet (quiet_lockMembership tenant)).bind fun _ =>
    (sameAccounts_quiet (quiet_requireActive tenant)).bind fun _ => (within_read _).bind fun _ =>
    (within_orFail _ _).bind fun _ => Within.bind (quiet_requireWorkspaceRoom _ _).within fun _ =>
    (sameAccounts_insertWorkspace _ _ _ _ _).bind fun _ => within_pure _

theorem sameAccounts_createSchema (env : Dialect) (display : ℚ → String)
    (id tenant workspace : Uuid) (definition : MetaSchemaDefinition) :
    Within SameAccounts (createSchema env display id tenant workspace definition) := by
  refine (within_ofExcept _).bind fun _ => (within_acquire _).bind fun _ =>
    within_update fun d _ d' hok => ?_
  split at hok
  · cases hok
  · obtain ⟨_, -, hok⟩ := Except.bind_eq_ok.mp hok
    cases hok
    exact ⟨rfl, rfl⟩

theorem sameAccounts_activateWorkspace (workspace schema : Uuid) :
    Within SameAccounts (activateWorkspace workspace schema) := by
  refine within_update fun d _ d' hok => ?_
  split at hok
  · cases hok
  · cases hok
    exact ⟨rfl, rfl⟩

end SameAccounts

end Yorishiro.Tenancy
