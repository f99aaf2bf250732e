import Yorishiro.Tenancy.Invites

/-!
# Operations on the tables of tenancy

All operations as one type `Op`, with the script of each, and what a statement of one can
change: `Statement` says it once, table by table, and `op_within` that every operation is made
of such statements on the tables it writes (`Op.writes`). Invariants of the tables are proved
about statements and hold of operations, runs and interleavings from there.

`Setup` has what goes on besides: time passes, and tenants, users and workspaces are created.
The quotas of the source's own commands for that are left out, so more states are reached.
-/

set_option autoImplicit false

namespace Yorishiro.Tenancy

open Yorishiro.Lib
open Yorishiro.Lib.Fence
open Yorishiro.Queue (Instant)

/-! ## Retirement -/

/-- `UPDATE` of a tenant's `disabled_at`. -/
def Db.disable (db : Db) (tenant : Uuid) (time : Instant) : Db :=
  { db with
    tenants := db.tenants.updateWhere (fun k _ => decide (k = tenant)) fun row =>
      { row with disabledAt := some time }
    enrolled := fun k role hk => by
      rw [OrderedMap.get?_updateWhere, Option.isSome_map]
      exact db.enrolled k role hk }

/-- Stores that a tenant is disabled. -/
def setDisabled (tenant : Uuid) (time : Instant) : Tx Unit :=
  .update fun db => .ok ((), db.disable tenant time)

/-- Disables a tenant that is not yet disabled, as of now. -/
def markDisabled (tenant : Uuid) (row : Tenant) : Tx Unit :=
  if row.disabledAt.isNone then do
    let time ← now
    setDisabled tenant time
  else pure ()

/-- The refusal of a confirmation for another tenant. -/
def unconfirmedRetirement : YorishiroError :=
  .validationFailed "tenant retirement confirmation does not match the target" []
    "confirm the non-infrastructure tenant UUID explicitly"

/-- The nil id, of the tenant that owns the infrastructure. -/
def infrastructureTenantId : Uuid := 0

section Retire

variable (h : Externals)

/-- Disables a tenant and revokes its keys. -/
def disableInTransaction (shred : Uuid → KeyMaterial) (tenant : Uuid) : Tx Unit := do
  let row ← Script.read fun db => db.tenants.get? tenant
  let row ← Script.orFail (.notFound "tenant not found") row
  markDisabled tenant row
  revokeMatching h shred fun key => decide (key.tenantId = tenant)

/-- Disables the owner's tenant. -/
def disableAs (shred : Uuid → KeyMaterial) (actor : AuthContext) (confirmed : Uuid) : Tx Unit :=
  if confirmed ≠ actor.tenantId ∨ confirmed = infrastructureTenantId then
    .fail unconfirmedRetirement
  else do
    let _ ← requireCurrentTenantOwner actor
    disableInTransaction h shred actor.tenantId

/-- The operator's command: disables a tenant. -/
def disableByOperator (shred : Uuid → KeyMaterial) (tenant confirmed : Uuid) : Tx Unit :=
  if tenant ≠ confirmed ∨ tenant = infrastructureTenantId then .fail unconfirmedRetirement
  else do
    lockMembership tenant
    disableInTransaction h shred tenant

end Retire

/-! ## Operations -/

/-- A call, with what it draws. -/
inductive Op where
  | createDelegatedApiKey (fresh : NewKey) (issuer : AuthContext) (scope : ApiKeyScope)
      (audit : Bool) (name : String) (expiresAt : Option Instant)
  | createDelegatedTenantApiKey (fresh : NewKey) (issuer : AuthContext) (scope : ApiKeyScope)
      (audit : Bool) (name : String) (expiresAt : Option Instant)
  | rotate (fresh : NewKey) (shred : KeyMaterial) (actor : AuthContext) (id : Uuid)
  | revokeForTenant (actor : AuthContext) (id : Uuid) (shred : KeyMaterial)
  | createApiKey (fresh : NewKey) (workspace : Uuid) (scope : ApiKeyScope) (user : Option Uuid)
      (audit : Bool)
  | createTenantApiKey (fresh : NewKey) (tenant : Uuid) (scope : ApiKeyScope)
      (user : Option Uuid) (audit : Bool) (name : String)
  | revoke (id : Uuid) (shred : KeyMaterial)
  | addMember (tenant user : Uuid) (role : MembershipRole)
  | addMemberByEmail (actor : AuthContext) (email : String) (role : MembershipRole)
  | updateMemberAccess (actor : AuthContext) (user : Uuid) (role : MembershipRole)
  | transferOwnership (actor : AuthContext) (successor : Uuid)
  | removeMember (shred : Uuid → KeyMaterial) (tenant user : Uuid)
  | removeMemberAs (shred : Uuid → KeyMaterial) (actor : AuthContext) (user : Uuid)
  | grantWorkspace (workspace user : Uuid) (role : WorkspaceRole)
  | grantAs (actor : AuthContext) (workspace user : Uuid) (role : WorkspaceRole)
  | revokeGrant (shred : Uuid → KeyMaterial) (workspace user : Uuid)
  | revokeAs (shred : Uuid → KeyMaterial) (actor : AuthContext) (workspace user : Uuid)
  | createInvite (fresh : NewInvite) (tenant : Uuid) (email : String) (role : MembershipRole)
      (ttl : Int)
  | createInviteAs (fresh : NewInvite) (actor : AuthContext) (email : String)
      (role : MembershipRole) (expiresAt : Instant)
  | reissueInviteAs (token : String) (actor : AuthContext) (id : Uuid) (expiresAt : Instant)
  | revokeInviteAs (actor : AuthContext) (id : Uuid)
  | acceptExistingUser (token email password : String)
  | acceptAuthenticatedUser (actor : AuthContext) (token : String)
  | registerUser (fresh : NewUser) (token password : String) (displayName : Option String)
  | disableAs (shred : Uuid → KeyMaterial) (actor : AuthContext) (confirmed : Uuid)
  | disableByOperator (shred : Uuid → KeyMaterial) (tenant confirmed : Uuid)

/-- What a call returns. -/
inductive Result where
  | done
  | key (created : CreatedApiKey)
  | tenantKey (id : Uuid) (plaintext : String)
  | access (keys : List MembershipKeyAccess)
  | member (record : MembershipRecord) (keys : List MembershipKeyAccess)
  | issued (invite : IssuedInvite)
  | accepted (user : Uuid × User) (invite : RedeemedInvite)

/-- The transaction of a call. -/
def Op.code (h : Externals) : Op → Tx Result
  | .createDelegatedApiKey fresh issuer scope audit name expiresAt => do
      pure (.key (← Tenancy.createDelegatedApiKey h fresh issuer scope audit name expiresAt))
  | .createDelegatedTenantApiKey fresh issuer scope audit name expiresAt => do
      pure (.key (← Tenancy.createDelegatedTenantApiKey h fresh issuer scope audit name expiresAt))
  | .rotate fresh shred actor id => do pure (.key (← Tenancy.rotate h fresh shred actor id))
  | .revokeForTenant actor id shred => do
      Tenancy.revokeForTenant h actor id shred
      pure .done
  | .createApiKey fresh workspace scope user audit => do
      pure (.key (← Tenancy.createApiKey h fresh workspace scope user audit))
  | .createTenantApiKey fresh tenant scope user audit name => do
      let created ← Tenancy.createTenantApiKey h fresh tenant scope user audit name
      pure (.tenantKey created.1 created.2)
  | .revoke id shred => do
      Tenancy.revoke h id shred
      pure .done
  | .addMember tenant user role => do
      Tenancy.addMember tenant user role
      pure .done
  | .addMemberByEmail actor email role => do
      let answer ← Tenancy.addMemberByEmail h actor email role
      pure (.member answer.1 answer.2)
  | .updateMemberAccess actor user role => do
      pure (.access (← Tenancy.updateMemberAccess h actor user role))
  | .transferOwnership actor successor => do
      Tenancy.transferOwnership actor successor
      pure .done
  | .removeMember shred tenant user => do
      Tenancy.removeMember h shred tenant user
      pure .done
  | .removeMemberAs shred actor user => do
      Tenancy.removeMemberAs h shred actor user
      pure .done
  | .grantWorkspace workspace user role => do
      Tenancy.grantWorkspace workspace user role
      pure .done
  | .grantAs actor workspace user role => do
      Tenancy.grantAs actor workspace user role
      pure .done
  | .revokeGrant shred workspace user => do
      Tenancy.revokeGrant h shred workspace user
      pure .done
  | .revokeAs shred actor workspace user => do
      Tenancy.revokeAs h shred actor workspace user
      pure .done
  | .createInvite fresh tenant email role ttl => do
      pure (.issued (← Tenancy.createInvite h fresh tenant email role ttl))
  | .createInviteAs fresh actor email role expiresAt => do
      pure (.issued (← Tenancy.createInviteAs h fresh actor email role expiresAt))
  | .reissueInviteAs token actor id expiresAt => do
      pure (.issued (← Tenancy.reissueInviteAs h token actor id expiresAt))
  | .revokeInviteAs actor id => do
      Tenancy.revokeInviteAs actor id
      pure .done
  | .acceptExistingUser token email password => do
      let accepted ← Tenancy.acceptExistingUser h token email password
      pure (.accepted accepted.1 accepted.2)
  | .acceptAuthenticatedUser actor token => do
      let accepted ← Tenancy.acceptAuthenticatedUser h actor token
      pure (.accepted accepted.1 accepted.2)
  | .registerUser fresh token password displayName => do
      let accepted ← Tenancy.registerUser h fresh token password displayName
      pure (.accepted accepted.1 accepted.2)
  | .disableAs shred actor confirmed => do
      Tenancy.disableAs h shred actor confirmed
      pure .done
  | .disableByOperator shred tenant confirmed => do
      Tenancy.disableByOperator h shred tenant confirmed
      pure .done

/-- Where the transaction of a call stands. -/
abbrev TxPoint := Point Op String Db YorishiroError Result

/-! ## Setup -/

/-- What goes on besides the operations. -/
inductive Setup where
  | tick (n : Nat)
  | tenant (id : Uuid) (name : String)
  | user (id : Uuid) (user : User)
  | workspace (id : Uuid) (workspace : Workspace)

/-- The database with a new tenant. -/
def Db.addTenant (db : Db) (id : Uuid) (name : String) : Db :=
  { db with
    tenants := db.tenants.insert id ⟨name, none⟩
    enrolled := fun k role hk => by
      rw [OrderedMap.get?_insert]
      split_ifs
      · rfl
      · exact db.enrolled k role hk }

/-- The effect; ids and emails that are taken have none. -/
def Setup.apply : Setup → Db → Db
  | .tick n, db => { db with clock := db.clock + n }
  | .tenant id name, db => if (db.tenants.get? id).isSome then db else db.addTenant id name
  | .user id row, db =>
      match db.users.insert id row with
      | .ok users => { db with users := users }
      | .error _ => db
  | .workspace id row, db =>
      if (db.workspaces.get? id).isSome || (db.tenants.get? row.tenantId).isNone then db
      else { db with workspaces := db.workspaces.insert id row }

/-- Rows are added, and time passes. -/
structure Adds (db db' : Db) : Prop where
  clock : db.clock ≤ db'.clock
  tenants : ∀ id row, db.tenants.get? id = some row → db'.tenants.get? id = some row
  users : ∀ id row, db.users.get? id = some row → db'.users.get? id = some row
  workspaces : ∀ id row, db.workspaces.get? id = some row → db'.workspaces.get? id = some row
  memberships : db'.memberships = db.memberships
  grants : db'.grants = db.grants
  keys : db'.keys = db.keys
  invites : db'.invites = db.invites

theorem Adds.refl (db : Db) : Adds db db :=
  ⟨le_rfl, fun _ _ h => h, fun _ _ h => h, fun _ _ h => h, rfl, rfl, rfl, rfl⟩

/-- **Setups add rows.** -/
theorem Setup.apply_adds (s : Setup) (db : Db) : Adds db (s.apply db) := by
  cases s with
  | tick n =>
      refine { Adds.refl db with clock := ?_ }
      exact Int.le_add_of_nonneg_right (Int.natCast_nonneg n)
  | tenant id name =>
      simp only [Setup.apply]
      split_ifs with hid
      · exact .refl db
      · refine { Adds.refl db with tenants := fun id' row hrow => ?_ }
        exact OrderedMap.get?_insert_of_absent (Option.not_isSome_iff_eq_none.mp hid) _ hrow
  | user id row =>
      simp only [Setup.apply]
      split
      · rename_i users hok
        exact { Adds.refl db with users := fun id' row' hrow => Table.get?_insert_of_some hok hrow }
      · exact .refl db
  | workspace id row =>
      simp only [Setup.apply]
      split_ifs with hid
      · exact .refl db
      · refine { Adds.refl db with workspaces := fun id' row' hrow => ?_ }
        simp only [Bool.or_eq_true, not_or] at hid
        exact OrderedMap.get?_insert_of_absent (Option.not_isSome_iff_eq_none.mp hid.1) _ hrow

/-! ## What a statement changes -/

/-- What operations write: stored rows of a table, or the key they issue. -/
inductive Part where
  | members
  | grants
  | keys
  | newKey (id : Uuid)
  | users
  | invites
  | tenants
deriving DecidableEq, Repr

/-- **What a statement of an operation can do**, to one of the given tables. Keys are born
unrevoked; of a stored key only the revocation, the digest and the replacement change. Invites
are born unused; a statement reissues or revokes one, or redeems those that can be redeemed. -/
inductive Statement (h : Externals) (parts : List Part) : Db → Db → Prop where
  | setRole {db : Db} (hpart : .members ∈ parts) (tenant user : Uuid) (role : MembershipRole)
      (htenant : (db.tenants.get? tenant).isSome = true)
      (huser : (db.users.get? user).isSome = true) :
      Statement h parts db (db.setRole tenant user role htenant)
  | dropRole {db : Db} (hpart : .members ∈ parts) (tenant user : Uuid) :
      Statement h parts db (db.dropRole tenant user)
  | grants {db : Db} (hpart : .grants ∈ parts) (grants : OrderedMap (Uuid ×ₗ Uuid) WorkspaceRole) :
      Statement h parts db { db with grants := grants }
  | insertKey {db : Db} {id : Uuid} (hpart : .newKey id ∈ parts) (key : ApiKey)
      {keys : Table Uuid ApiKey ApiKey.clash} (hrevoked : key.revokedAt = none)
      (hok : db.keys.insert id key = .ok keys) : Statement h parts db { db with keys := keys }
  | revokeKey {db : Db} (hpart : .keys ∈ parts) (id tenant : Uuid) (time : Instant) (hash : Digest)
      {keys : Table Uuid ApiKey ApiKey.clash} {n : Nat}
      (hok : db.keys.updateRow id
        (fun key => decide (key.tenantId = tenant) && key.revokedAt.isNone)
        (fun key => { key with revokedAt := some time, keyHash := hash }) = .ok (keys, n)) :
      Statement h parts db { db with keys := keys }
  | replaceKey {db : Db} (hpart : .keys ∈ parts) (id by_ : Uuid)
      {keys : Table Uuid ApiKey ApiKey.clash} {n : Nat}
      (hok : db.keys.updateRow id (fun _ => true)
        (fun key => { key with replacedById := some by_ }) = .ok (keys, n)) :
      Statement h parts db { db with keys := keys }
  | insertUser {db : Db} (hpart : .users ∈ parts) (id : Uuid) (user : User)
      {users : Table Uuid User User.clash} (hok : db.users.insert id user = .ok users) :
      Statement h parts db { db with users := users }
  | insertInvite {db : Db} (hpart : .invites ∈ parts) (id : Uuid) (invite : Invite)
      {invites : Table Uuid Invite Invite.clash} (hused : invite.usedAt = none)
      (hok : db.invites.insert id invite = .ok invites) :
      Statement h parts db { db with invites := invites }
  | updateInvite {db : Db} (hpart : .invites ∈ parts) (id : Uuid) (hash : Digest → Digest)
      (expires : Instant) {invites : Table Uuid Invite Invite.clash} {n : Nat}
      (hok : db.invites.updateRow id (fun _ => true) (fun invite =>
        { invite with tokenHash := hash invite.tokenHash, expiresAt := expires }) =
          .ok (invites, n)) :
      Statement h parts db { db with invites := invites }
  | redeem {db : Db} (hpart : .invites ∈ parts) (token : String) (time : Instant)
      {invites : Table Uuid Invite Invite.clash} {n : Nat}
      (hok : db.invites.updateWhere
        (fun _ invite => invite.redeemable db (h.hashKey token) time)
        (fun invite => { invite with usedAt := some time }) = .ok (invites, n)) :
      Statement h parts db { db with invites := invites }
  | disable {db : Db} (hpart : .tenants ∈ parts) (tenant : Uuid) (time : Instant) :
      Statement h parts db (db.disable tenant time)

section Statements

open Script

variable {h : Externals} {parts : List Part}

/-! ### Single statements -/

theorem within_upsertMembership (hpart : .members ∈ parts) (tenant user : Uuid)
    (role : MembershipRole) : Within (Statement h parts) (upsertMembership tenant user role) := by
  refine within_update fun db _ db' hok => ?_
  split_ifs at hok with hrefs
  cases hok
  exact .setRole hpart tenant user role hrefs.1 hrefs.2

theorem within_upsertGrant (hpart : .grants ∈ parts) (workspace user : Uuid)
    (role : WorkspaceRole) : Within (Statement h parts) (upsertGrant workspace user role) := by
  refine within_update fun db _ db' hok => ?_
  obtain ⟨_, -, hok⟩ := Except.bind_eq_ok.mp hok
  cases hok
  exact .grants hpart _

theorem within_deleteMembership (hpart : .members ∈ parts) (tenant user : Uuid) :
    Within (Statement h parts) (deleteMembership tenant user) := by
  refine within_update fun db _ db' hok => ?_
  cases hok
  exact .dropRole hpart tenant user

theorem within_deleteGrants (hpart : .grants ∈ parts) (user : Uuid) (selected : Db → Uuid → Bool) :
    Within (Statement h parts) (deleteGrants user selected) := by
  refine within_update fun db _ db' hok => ?_
  cases hok
  exact .grants hpart _

theorem within_insertKey {id : Uuid} (hpart : .newKey id ∈ parts) (key : ApiKey)
    (hrevoked : key.revokedAt = none) : Within (Statement h parts) (insertKey id key) := by
  refine within_update fun db _ db' hok => ?_
  obtain ⟨_, -, hok⟩ := Except.bind_eq_ok.mp hok
  obtain ⟨keys, hkeys, hok⟩ := Except.bind_eq_ok.mp hok
  cases hok
  exact .insertKey hpart key hrevoked (Except.mapError_eq_ok hkeys)

theorem updateKey_eq_ok {db db' : Db} {id : Uuid} {p : ApiKey → Bool} {f : ApiKey → ApiKey}
    {n : Nat} (hok : (updateKey id p f).alone db = .ok (n, db')) :
    ∃ keys, db.keys.updateRow id p f = .ok (keys, n) ∧ db' = { db with keys := keys } := by
  rw [updateKey, alone_update] at hok
  obtain ⟨⟨keys, m⟩, hkeys, hok⟩ := Except.bind_eq_ok.mp hok
  cases hok
  exact ⟨keys, Except.mapError_eq_ok hkeys, rfl⟩

theorem within_insertUser (hpart : .users ∈ parts) (id : Uuid) (user : User)
    (taken : YorishiroError) : Within (Statement h parts) (insertUser id user taken) := by
  refine within_update fun db _ db' hok => ?_
  obtain ⟨users, husers, hok⟩ := Except.bind_eq_ok.mp hok
  cases hok
  exact .insertUser hpart id user (Except.mapError_eq_ok husers)

theorem within_insertInvite (hpart : .invites ∈ parts) (id : Uuid) (invite : Invite)
    (hused : invite.usedAt = none) : Within (Statement h parts) (insertInvite id invite) := by
  refine within_update fun db _ db' hok => ?_
  obtain ⟨_, -, hok⟩ := Except.bind_eq_ok.mp hok
  obtain ⟨invites, hinvites, hok⟩ := Except.bind_eq_ok.mp hok
  cases hok
  exact .insertInvite hpart id invite hused (Except.mapError_eq_ok hinvites)

theorem within_updateInvite (hpart : .invites ∈ parts) (id : Uuid) (hash : Digest → Digest)
    (expires : Instant) : Within (Statement h parts) (updateInvite id fun invite =>
      { invite with tokenHash := hash invite.tokenHash, expiresAt := expires }) := by
  refine within_update fun db _ db' hok => ?_
  obtain ⟨⟨invites, n⟩, hinvites, hok⟩ := Except.bind_eq_ok.mp hok
  simp only at hok
  split_ifs at hok
  · cases hok
  · cases hok
    exact .updateInvite hpart id hash expires (Except.mapError_eq_ok hinvites)

theorem within_redeemInviteAt (hpart : .invites ∈ parts) (token : String) (time : Instant) :
    Within (Statement h parts) (redeemInviteAt h token time) := by
  refine within_update fun db _ db' hok => ?_
  obtain ⟨⟨invites, n⟩, hinvites, hok⟩ := Except.bind_eq_ok.mp hok
  cases hok
  exact .redeem hpart token time (Except.mapError_eq_ok hinvites)

theorem within_markDisabled (hpart : .tenants ∈ parts) (tenant : Uuid) (row : Tenant) :
    Within (Statement h parts) (markDisabled tenant row) := by
  unfold markDisabled
  split_ifs
  · refine (within_read _).bind fun time => within_update fun db _ db' hok => ?_
    cases hok
    exact .disable hpart tenant time
  · exact within_pure _

/-! ### Keys -/

theorem within_deleteForTenant (hpart : .keys ∈ parts) (tenant id : Uuid) (shred : KeyMaterial) :
    Within (Statement h parts) (deleteForTenant h tenant id shred) := by
  refine (within_read _).bind fun time => Within.bind (within_update fun db _ db' hok => ?_)
    fun changed => ?_
  · obtain ⟨⟨keys, n⟩, hkeys, hok⟩ := Except.bind_eq_ok.mp hok
    cases hok
    exact .revokeKey hpart id tenant time _ (Except.mapError_eq_ok hkeys)
  · exact within_failIf _ _

theorem within_replaceKey (hpart : .keys ∈ parts) (id by_ : Uuid) :
    Within (Statement h parts)
      (updateKey id (fun _ => true) fun key => { key with replacedById := some by_ }) := by
  refine within_update fun db n db' hok => ?_
  obtain ⟨⟨keys, n⟩, hkeys, hok⟩ := Except.bind_eq_ok.mp hok
  cases hok
  exact .replaceKey hpart id by_ (Except.mapError_eq_ok hkeys)

theorem within_revokeAll (hpart : .keys ∈ parts) (shred : Uuid → KeyMaterial)
    (keys : List (Uuid × ApiKey)) : Within (Statement h parts) (revokeAll h shred keys) := by
  induction keys with
  | nil => exact within_pure _
  | cons e keys ih => exact Within.bind (within_deleteForTenant hpart _ _ _) fun _ => ih

theorem within_revokeMatching (hpart : .keys ∈ parts) (shred : Uuid → KeyMaterial)
    (condition : ApiKey → Bool) : Within (Statement h parts) (revokeMatching h shred condition) :=
  (within_read _).bind fun keys => within_revokeAll hpart shred keys

theorem quiet_effective (key : ApiKey) : Quiet key.effective := by
  unfold ApiKey.effective
  split
  · exact within_pure _
  · exact Within.bind (quiet_workspaceAccess _ _ _) fun _ => within_pure _
  · exact Within.bind (quiet_getMembershipRole _ _) fun _ => within_pure _

theorem quiet_grantMetadata (key : ApiKey) : Quiet key.grantMetadata := by
  refine (within_read _).bind fun time => ?_
  have hend : ∀ effective : Option ApiKeyScope,
      Quiet (now >>= fun later => pure (key.describe effective later)) :=
    fun effective => (within_read _).bind fun later => within_pure _
  split_ifs
  · exact Within.bind (quiet_effective key) hend
  · exact Within.bind (within_pure _) hend

theorem within_storeKey {fresh : NewKey} (hpart : .newKey fresh.id ∈ parts) {row : Instant → ApiKey}
    (hrow : ∀ time, (row time).revokedAt = none) :
    Within (Statement h parts) (storeKey fresh row) :=
  (within_read _).bind fun time =>
    Within.bind (within_insertKey hpart (row time) (hrow time)) fun _ => within_pure _

theorem quiet_requireFutureExpiry (expiresAt : Option Instant) :
    Quiet (requireFutureExpiry expiresAt) := by
  cases expiresAt with
  | none => exact within_pure _
  | some expires => exact (within_read _).bind fun time => within_failIf _ _

theorem quiet_requireBoundGrant (missing exceeded : YorishiroError) (tenant : Uuid)
    (workspace user : Option Uuid) (scope : ApiKeyScope) :
    Quiet (requireBoundGrant missing exceeded tenant workspace user scope) := by
  unfold requireBoundGrant
  split
  · exact Within.bind (quiet_workspaceAccess _ _ _) fun _ => (within_orFail _ _).bind fun _ =>
      within_failIf _ _
  · exact within_pure _

theorem quiet_requireIssuerGrant (issuer : Option AuthContext) (scope : ApiKeyScope) (audit : Bool)
    (expiresAt : Option Instant) : Quiet (requireIssuerGrant issuer scope audit expiresAt) := by
  cases issuer with
  | none => exact within_pure _
  | some issuer =>
      exact Within.bind (quiet_currentContext issuer) fun _ =>
        Within.bind (quiet_requireKeyGrant _ _ _) fun _ => (within_read _).bind fun _ =>
          (within_orFail _ _).bind fun _ => within_failIf _ _

theorem within_createNamedApiKey {fresh : NewKey} (hpart : .newKey fresh.id ∈ parts)
    (workspace : Uuid) (scope : ApiKeyScope) (user : Option Uuid) (audit : Bool) (name : String)
    (issuer : Option AuthContext) (expiresAt : Option Instant) :
    Within (Statement h parts)
      (createNamedApiKey h fresh workspace scope user audit name issuer expiresAt) := by
  refine (within_ofExcept _).bind fun name =>
    Within.bind (quiet_requireFutureExpiry expiresAt).within fun _ =>
    (within_read _).bind fun row => (within_orFail _ _).bind fun row =>
    Within.bind (quiet_requireAttributedKeyGrant _ _ _).within fun _ =>
    Within.bind (quiet_requireBoundGrant _ _ _ _ _ _).within fun _ =>
    Within.bind (quiet_requireIssuerGrant _ _ _ _).within fun _ => ?_
  exact Within.bind (within_storeKey hpart fun _ => rfl) fun key =>
    Within.bind (quiet_grantMetadata key).within fun _ => within_pure _

theorem within_createTenantApiKey {fresh : NewKey} (hpart : .newKey fresh.id ∈ parts)
    (tenant : Uuid) (scope : ApiKeyScope) (user : Option Uuid) (audit : Bool) (name : String) :
    Within (Statement h parts) (createTenantApiKey h fresh tenant scope user audit name) := by
  refine (within_ofExcept _).bind fun name => (within_read _).bind fun row =>
    (within_orFail _ _).bind fun row =>
    Within.bind (quiet_requireAttributedKeyGrant _ _ _).within fun _ => ?_
  exact Within.bind (within_storeKey hpart fun _ => rfl) fun _ => within_pure _

theorem within_createDelegatedTenantApiKey {fresh : NewKey} (hpart : .newKey fresh.id ∈ parts)
    (issuer : AuthContext) (scope : ApiKeyScope) (audit : Bool) (name : String)
    (expiresAt : Option Instant) :
    Within (Statement h parts)
      (createDelegatedTenantApiKey h fresh issuer scope audit name expiresAt) := by
  refine (within_ofExcept _).bind fun name =>
    Within.bind (quiet_requireFutureExpiry expiresAt).within fun _ =>
    Within.bind (quiet_requireCurrentTenantAdmin issuer).within fun _ =>
    Within.bind (quiet_currentContext issuer).within fun _ =>
    Within.bind (quiet_requireKeyGrant _ _ _).within fun _ =>
    (within_read _).bind fun _ => (within_orFail _ _).bind fun _ =>
    (within_failIf _ _).bind fun _ => (within_failIf _ _).bind fun _ =>
    Within.bind (quiet_requireAttributedKeyGrant _ _ _).within fun _ => ?_
  exact Within.bind (within_storeKey hpart fun _ => rfl) fun key =>
    Within.bind (quiet_grantMetadata key).within fun _ => within_pure _

theorem within_rotate {fresh : NewKey} (hnew : .newKey fresh.id ∈ parts) (hpart : .keys ∈ parts)
    (shred : KeyMaterial) (actor : AuthContext) (id : Uuid) :
    Within (Statement h parts) (rotate h fresh shred actor id) := by
  refine Within.bind (quiet_requireCurrentTenantAdmin actor).within fun _ =>
    (within_read _).bind fun _ => (within_orFail _ _).bind fun old =>
    (within_read _).bind fun time => (within_failIf _ _).bind fun _ =>
    (within_read _).bind fun _ => (within_orFail _ _).bind fun issuer =>
    (within_failIf _ _).bind fun _ => Within.bind (quiet_currentContext actor).within fun _ =>
    Within.bind (quiet_requireKeyGrant _ _ _).within fun _ => (within_failIf _ _).bind fun _ =>
    Within.bind (quiet_requireAttributedKeyGrant _ _ _).within fun _ =>
    Within.bind (quiet_requireBoundGrant _ _ _ _ _ _).within fun _ => ?_
  exact Within.bind (within_storeKey hnew fun _ => rfl) fun key =>
    Within.bind (within_deleteForTenant hpart _ _ _) fun _ =>
    Within.bind (within_replaceKey hpart id fresh.id) fun _ =>
    Within.bind (quiet_grantMetadata key).within fun _ => within_pure _

theorem within_revoke (hpart : .keys ∈ parts) (id : Uuid) (shred : KeyMaterial) :
    Within (Statement h parts) (revoke h id shred) :=
  (within_read _).bind fun _ => (within_orFail _ _).bind fun _ =>
    Within.bind (quiet_lockMembership _).within fun _ => within_deleteForTenant hpart _ _ _

theorem within_revokeForTenant (hpart : .keys ∈ parts) (actor : AuthContext) (id : Uuid)
    (shred : KeyMaterial) : Within (Statement h parts) (revokeForTenant h actor id shred) :=
  Within.bind (quiet_requireCurrentTenantAdmin actor).within fun _ =>
    within_deleteForTenant hpart _ _ _

/-! ### Memberships and grants -/

theorem quiet_losesLastOwner (tenant user : Uuid) (next : Option MembershipRole) :
    Quiet (losesLastOwner tenant user next) := by
  refine Within.bind (quiet_lockMembership tenant) fun _ => ?_
  split_ifs
  · exact within_pure _
  · refine Within.bind (quiet_getMembershipRole tenant user) fun role => ?_
    split_ifs
    · exact within_pure _
    · exact (within_read _).bind fun _ => within_pure _

theorem quiet_protectOwner (tenant user : Uuid) (next : Option MembershipRole) :
    Quiet (protectOwner tenant user next) :=
  Within.bind (quiet_losesLastOwner tenant user next) fun _ => within_failIf _ _

theorem within_addMemberInTransaction (hpart : .members ∈ parts) (tenant user : Uuid)
    (role : MembershipRole) :
    Within (Statement h parts) (addMemberInTransaction tenant user role) :=
  Within.bind (quiet_protectOwner _ _ _).within fun _ => within_upsertMembership hpart _ _ _

theorem within_transferOwnership (hpart : .members ∈ parts) (actor : AuthContext)
    (successor : Uuid) : Within (Statement h parts) (transferOwnership actor successor) := by
  refine Within.bind (quiet_requireCurrentTenantAdmin actor).within fun _ =>
    (within_orFail _ _).bind fun user => (within_read _).bind fun _ =>
    (within_failIf _ _).bind fun _ => (within_failIf _ _).bind fun _ =>
    (within_read _).bind fun _ => (within_orFail _ _).bind fun _ => ?_
  exact Within.bind (within_addMemberInTransaction hpart _ _ _) fun _ =>
    within_addMemberInTransaction hpart _ _ _

theorem quiet_effectiveWith (user : Uuid) (role : MembershipRole) (key : ApiKey) :
    Quiet (key.effectiveWith user role) := by
  unfold ApiKey.effectiveWith
  split
  · exact within_pure _
  · exact Within.bind (quiet_workspaceAccessForRole _ _ _) fun _ => within_pure _

theorem quiet_keyAccessOf (user : Uuid) (role : MembershipRole) (keys : List (Uuid × ApiKey)) :
    Quiet (keyAccessOf user role keys) := by
  induction keys with
  | nil => exact within_pure _
  | cons e keys ih =>
      exact Within.bind (quiet_effectiveWith user role e.2) fun _ => Within.bind ih fun _ =>
        within_pure _

theorem quiet_keyAccess (tenant user : Uuid) (role : MembershipRole) :
    Quiet (keyAccess h tenant user role) :=
  (within_read _).bind fun _ => (within_read _).bind fun keys => quiet_keyAccessOf user role keys

theorem quiet_touchesOwnership (tenant user : Uuid) (role : MembershipRole) :
    Quiet (touchesOwnership tenant user role) := by
  unfold touchesOwnership
  split_ifs
  · exact within_pure _
  · exact Within.bind (quiet_getMembershipRole _ _) fun _ => within_pure _

theorem within_updateMemberAccess (hpart : .members ∈ parts) (actor : AuthContext) (user : Uuid)
    (role : MembershipRole) : Within (Statement h parts) (updateMemberAccess h actor user role) :=
  Within.bind (quiet_requireCurrentTenantAdmin actor).within fun _ =>
    Within.bind (quiet_touchesOwnership _ _ _).within fun _ =>
    Within.bind (quiet_requireOwnerIf _ _).within fun _ =>
    Within.bind (within_addMemberInTransaction hpart _ _ _) fun _ =>
    (quiet_keyAccess _ _ _).within

theorem within_addMemberByEmail (hpart : .members ∈ parts) (actor : AuthContext) (email : String)
    (role : MembershipRole) : Within (Statement h parts) (addMemberByEmail h actor email role) :=
  Within.bind (quiet_requireTenantAdmin _ _).within fun _ =>
    (within_read _).bind fun _ => (within_orFail _ _).bind fun _ =>
    Within.bind (within_updateMemberAccess hpart _ _ _) fun _ => within_pure _

theorem within_removeMemberInTransaction (hmembers : .members ∈ parts) (hgrants : .grants ∈ parts)
    (hkeys : .keys ∈ parts) (shred : Uuid → KeyMaterial) (tenant user : Uuid) :
    Within (Statement h parts) (removeMemberInTransaction h shred tenant user) :=
  Within.bind (quiet_protectOwner _ _ _).within fun _ =>
    Within.bind (within_deleteGrants hgrants _ _) fun _ =>
    Within.bind (within_deleteMembership hmembers _ _) fun _ =>
    within_revokeMatching hkeys _ _

theorem within_removeMemberAs (hmembers : .members ∈ parts) (hgrants : .grants ∈ parts)
    (hkeys : .keys ∈ parts) (shred : Uuid → KeyMaterial) (actor : AuthContext) (user : Uuid) :
    Within (Statement h parts) (removeMemberAs h shred actor user) :=
  Within.bind (quiet_requireCurrentTenantAdmin actor).within fun _ =>
    Within.bind (quiet_getMembershipRole _ _).within fun _ =>
    Within.bind (quiet_requireOwnerIf _ _).within fun _ =>
    within_removeMemberInTransaction hmembers hgrants hkeys _ _ _

theorem within_grantWorkspace (hpart : .grants ∈ parts) (workspace user : Uuid)
    (role : WorkspaceRole) : Within (Statement h parts) (grantWorkspace workspace user role) :=
  Within.bind (quiet_getWorkspaceTenant _).within fun _ =>
    Within.bind (quiet_lockMembership _).within fun _ =>
    Within.bind (quiet_getMembershipRole _ _).within fun _ => (within_orFail _ _).bind fun _ =>
    within_upsertGrant hpart _ _ _

theorem within_revokeGrant (hgrants : .grants ∈ parts) (hkeys : .keys ∈ parts)
    (shred : Uuid → KeyMaterial) (workspace user : Uuid) :
    Within (Statement h parts) (revokeGrant h shred workspace user) := by
  refine Within.bind (quiet_getWorkspaceTenant _).within fun _ =>
    Within.bind (quiet_lockMembership _).within fun _ =>
    Within.bind (within_deleteGrants hgrants _ _) fun _ =>
    Within.bind (quiet_getMembershipRole _ _).within fun _ => ?_
  split_ifs
  · exact within_pure _
  · exact within_revokeMatching hkeys _ _

theorem within_grantAs (hgrants : .grants ∈ parts) (actor : AuthContext) (workspace user : Uuid)
    (role : WorkspaceRole) : Within (Statement h parts) (grantAs actor workspace user role) :=
  Within.bind (quiet_requireCurrentWorkspaceAdmin _ _).within fun _ =>
    within_grantWorkspace hgrants _ _ _

theorem within_revokeAs (hgrants : .grants ∈ parts) (hkeys : .keys ∈ parts)
    (shred : Uuid → KeyMaterial) (actor : AuthContext) (workspace user : Uuid) :
    Within (Statement h parts) (revokeAs h shred actor workspace user) :=
  Within.bind (quiet_requireCurrentWorkspaceAdmin _ _).within fun _ =>
    within_revokeGrant hgrants hkeys _ _ _

/-! ### Invites -/

theorem quiet_managedInvite (tenant id : Uuid) : Quiet (managedInvite tenant id) :=
  (within_read _).bind fun _ => within_orFail _ _

theorem quiet_inviteTenant (token : String) : Quiet (inviteTenant h token) :=
  (within_read _).bind fun _ => within_orFail _ _

theorem within_createInviteAt (hpart : .invites ∈ parts) (fresh : NewInvite) (tenant : Uuid)
    (email : String) (role : MembershipRole) (ttl : Int) (time : Instant) :
    Within (Statement h parts) (createInviteAt h fresh tenant email role ttl time) :=
  Within.bind (quiet_lockMembership _).within fun _ =>
    Within.bind (quiet_requireActive _).within fun _ =>
    Within.bind (within_insertInvite hpart _ _ rfl) fun _ => within_pure _

theorem within_createInviteAs (hpart : .invites ∈ parts) (fresh : NewInvite) (actor : AuthContext)
    (email : String) (role : MembershipRole) (expiresAt : Instant) :
    Within (Statement h parts) (createInviteAs h fresh actor email role expiresAt) :=
  Within.bind (quiet_requireCurrentTenantAdmin actor).within fun _ =>
    Within.bind (quiet_requireOwnerIf _ _).within fun _ => (within_read _).bind fun _ =>
    (within_failIf _ _).bind fun _ => within_createInviteAt hpart _ _ _ _ _ _

theorem within_reissueInviteAs (hpart : .invites ∈ parts) (token : String) (actor : AuthContext)
    (id : Uuid) (expiresAt : Instant) :
    Within (Statement h parts) (reissueInviteAs h token actor id expiresAt) :=
  Within.bind (quiet_requireCurrentTenantAdmin actor).within fun _ =>
    Within.bind (quiet_managedInvite _ _).within fun _ =>
    Within.bind (quiet_requireOwnerIf _ _).within fun _ => (within_failIf _ _).bind fun _ =>
    (within_read _).bind fun _ => (within_failIf _ _).bind fun _ =>
    Within.bind (within_updateInvite hpart id (fun _ => h.hashKey token) expiresAt) fun _ =>
    within_pure _

theorem within_revokeInviteAs (hpart : .invites ∈ parts) (actor : AuthContext) (id : Uuid) :
    Within (Statement h parts) (revokeInviteAs actor id) := by
  refine Within.bind (quiet_requireCurrentTenantAdmin actor).within fun _ =>
    Within.bind (quiet_managedInvite _ _).within fun _ => (within_failIf _ _).bind fun _ =>
    (within_read _).bind fun time => ?_
  split_ifs
  · exact within_updateInvite hpart id (fun hash => hash) time
  · exact within_pure _

theorem within_acceptInTransaction (hinvites : .invites ∈ parts) (hmembers : .members ∈ parts)
    (token : String) (user : Uuid × User) :
    Within (Statement h parts) (acceptInTransaction h token user) :=
  Within.bind (quiet_inviteTenant token).within fun _ =>
    Within.bind (quiet_lockMembership _).within fun _ => (within_read _).bind fun _ =>
    Within.bind (within_redeemInviteAt hinvites _ _) fun _ => (within_orFail _ _).bind fun _ =>
    (within_failIf _ _).bind fun _ => Within.bind (quiet_getMembershipRole _ _).within fun _ =>
    (within_failIf _ _).bind fun _ =>
    Within.bind (within_addMemberInTransaction hmembers _ _ _) fun _ => within_pure _

theorem within_acceptExistingUser (hinvites : .invites ∈ parts) (hmembers : .members ∈ parts)
    (token email password : String) :
    Within (Statement h parts) (acceptExistingUser h token email password) :=
  (within_read _).bind fun _ => (within_orFail _ _).bind fun _ =>
    Within.bind (within_acceptInTransaction hinvites hmembers _ _) fun _ => within_pure _

theorem within_acceptAuthenticatedUser (hinvites : .invites ∈ parts) (hmembers : .members ∈ parts)
    (actor : AuthContext) (token : String) :
    Within (Statement h parts) (acceptAuthenticatedUser h actor token) :=
  Within.bind (quiet_inviteTenant token).within fun _ =>
    Within.bind (quiet_lockMembership _).within fun _ =>
    Within.bind (quiet_lockMembership _).within fun _ =>
    Within.bind (quiet_currentContext actor).within fun _ => (within_orFail _ _).bind fun _ =>
    (within_read _).bind fun _ => (within_orFail _ _).bind fun _ =>
    Within.bind (within_acceptInTransaction hinvites hmembers _ _) fun _ => within_pure _

theorem within_registerUser (hinvites : .invites ∈ parts) (husers : .users ∈ parts)
    (hmembers : .members ∈ parts) (fresh : NewUser) (token password : String)
    (displayName : Option String) :
    Within (Statement h parts) (registerUser h fresh token password displayName) := by
  have hregister : ∀ invite : RedeemedInvite, Within (Statement h parts)
      (registerMember h fresh invite.tenantId invite.email password displayName invite.role) :=
    fun invite => Within.bind (Within.bind (within_insertUser husers _ _ _) fun _ =>
      within_pure _) fun _ => Within.bind (within_addMemberInTransaction hmembers _ _ _) fun _ =>
        within_pure _
  exact Within.bind (quiet_inviteTenant token).within fun _ =>
    Within.bind (quiet_lockMembership _).within fun _ => (within_read _).bind fun _ =>
    Within.bind (within_redeemInviteAt hinvites _ _) fun _ => (within_orFail _ _).bind fun invite =>
    Within.bind (hregister invite) fun _ => within_pure _

/-! ### Retirement -/

theorem within_disableInTransaction (htenants : .tenants ∈ parts) (hkeys : .keys ∈ parts)
    (shred : Uuid → KeyMaterial) (tenant : Uuid) :
    Within (Statement h parts) (disableInTransaction h shred tenant) :=
  (within_read _).bind fun _ => (within_orFail _ _).bind fun row =>
    Within.bind (within_markDisabled htenants tenant row) fun _ => within_revokeMatching hkeys _ _

theorem within_disableAs (htenants : .tenants ∈ parts) (hkeys : .keys ∈ parts)
    (shred : Uuid → KeyMaterial) (actor : AuthContext) (confirmed : Uuid) :
    Within (Statement h parts) (disableAs h shred actor confirmed) := by
  unfold disableAs
  split_ifs
  · exact within_fail _
  · exact Within.bind (quiet_requireCurrentTenantOwner _).within fun _ =>
      within_disableInTransaction htenants hkeys _ _

theorem within_disableByOperator (htenants : .tenants ∈ parts) (hkeys : .keys ∈ parts)
    (shred : Uuid → KeyMaterial) (tenant confirmed : Uuid) :
    Within (Statement h parts) (disableByOperator h shred tenant confirmed) := by
  unfold disableByOperator
  split_ifs
  · exact within_fail _
  · exact Within.bind (quiet_lockMembership _).within fun _ =>
      within_disableInTransaction htenants hkeys _ _

/-! ### Operations -/

/-- What an operation writes. -/
def Op.writes : Op → List Part
  | .createDelegatedApiKey fresh .. => [.newKey fresh.id]
  | .createDelegatedTenantApiKey fresh .. => [.newKey fresh.id]
  | .rotate fresh .. => [.newKey fresh.id, .keys]
  | .revokeForTenant .. => [.keys]
  | .createApiKey fresh .. => [.newKey fresh.id]
  | .createTenantApiKey fresh .. => [.newKey fresh.id]
  | .revoke .. => [.keys]
  | .addMember .. => [.members]
  | .addMemberByEmail .. => [.members]
  | .updateMemberAccess .. => [.members]
  | .transferOwnership .. => [.members]
  | .removeMember .. => [.members, .grants, .keys]
  | .removeMemberAs .. => [.members, .grants, .keys]
  | .grantWorkspace .. => [.grants]
  | .grantAs .. => [.grants]
  | .revokeGrant .. => [.grants, .keys]
  | .revokeAs .. => [.grants, .keys]
  | .createInvite .. => [.invites]
  | .createInviteAs .. => [.invites]
  | .reissueInviteAs .. => [.invites]
  | .revokeInviteAs .. => [.invites]
  | .acceptExistingUser .. => [.invites, .members]
  | .acceptAuthenticatedUser .. => [.invites, .members]
  | .registerUser .. => [.invites, .users, .members]
  | .disableAs .. => [.tenants, .keys]
  | .disableByOperator .. => [.tenants, .keys]

/-- **Every operation is made of statements on the tables it writes.** -/
theorem op_within (op : Op) : Within (Statement h op.writes) (op.code h) := by
  have hhead : ∀ (p : Part) (ps : List Part), p ∈ p :: ps := fun p ps => List.mem_cons_self
  have hnext : ∀ (p q : Part) (ps : List Part), q ∈ p :: q :: ps :=
    fun p q ps => List.mem_cons_of_mem p List.mem_cons_self
  cases op with
  | createDelegatedApiKey fresh issuer scope audit name expiresAt =>
      exact Within.bind (within_createNamedApiKey (hhead _ _) _ _ _ _ _ _ _) fun _ =>
        within_pure _
  | createDelegatedTenantApiKey fresh issuer scope audit name expiresAt =>
      exact Within.bind (within_createDelegatedTenantApiKey (hhead _ _) _ _ _ _ _) fun _ =>
        within_pure _
  | rotate fresh shred actor id =>
      exact Within.bind (within_rotate (hhead _ _) (hnext _ _ _) _ _ _) fun _ => within_pure _
  | revokeForTenant actor id shred =>
      exact Within.bind (within_revokeForTenant (hhead _ _) _ _ _) fun _ => within_pure _
  | createApiKey fresh workspace scope user audit =>
      exact Within.bind (within_createNamedApiKey (hhead _ _) _ _ _ _ _ _ _) fun _ =>
        within_pure _
  | createTenantApiKey fresh tenant scope user audit name =>
      exact Within.bind (within_createTenantApiKey (hhead _ _) _ _ _ _ _) fun _ =>
        within_pure _
  | revoke id shred => exact Within.bind (within_revoke (hhead _ _) _ _) fun _ => within_pure _
  | addMember tenant user role =>
      exact Within.bind (within_addMemberInTransaction (hhead _ _) _ _ _) fun _ => within_pure _
  | addMemberByEmail actor email role =>
      exact Within.bind (within_addMemberByEmail (hhead _ _) _ _ _) fun _ => within_pure _
  | updateMemberAccess actor user role =>
      exact Within.bind (within_updateMemberAccess (hhead _ _) _ _ _) fun _ => within_pure _
  | transferOwnership actor successor =>
      exact Within.bind (within_transferOwnership (hhead _ _) _ _) fun _ => within_pure _
  | removeMember shred tenant user =>
      exact Within.bind (within_removeMemberInTransaction (hhead _ _) (hnext _ _ _)
        (List.mem_cons_of_mem _ (hnext _ _ _)) _ _ _) fun _ => within_pure _
  | removeMemberAs shred actor user =>
      exact Within.bind (within_removeMemberAs (hhead _ _) (hnext _ _ _)
        (List.mem_cons_of_mem _ (hnext _ _ _)) _ _ _) fun _ => within_pure _
  | grantWorkspace workspace user role =>
      exact Within.bind (within_grantWorkspace (hhead _ _) _ _ _) fun _ => within_pure _
  | grantAs actor workspace user role =>
      exact Within.bind (within_grantAs (hhead _ _) _ _ _ _) fun _ => within_pure _
  | revokeGrant shred workspace user =>
      exact Within.bind (within_revokeGrant (hhead _ _) (hnext _ _ _) _ _ _) fun _ =>
        within_pure _
  | revokeAs shred actor workspace user =>
      exact Within.bind (within_revokeAs (hhead _ _) (hnext _ _ _) _ _ _ _) fun _ =>
        within_pure _
  | createInvite fresh tenant email role ttl =>
      exact Within.bind ((within_read _).bind fun _ =>
        within_createInviteAt (hhead _ _) _ _ _ _ _ _) fun _ => within_pure _
  | createInviteAs fresh actor email role expiresAt =>
      exact Within.bind (within_createInviteAs (hhead _ _) _ _ _ _ _) fun _ => within_pure _
  | reissueInviteAs token actor id expiresAt =>
      exact Within.bind (within_reissueInviteAs (hhead _ _) _ _ _ _) fun _ => within_pure _
  | revokeInviteAs actor id =>
      exact Within.bind (within_revokeInviteAs (hhead _ _) _ _) fun _ => within_pure _
  | acceptExistingUser token email password =>
      exact Within.bind (within_acceptExistingUser (hhead _ _) (hnext _ _ _) _ _ _) fun _ =>
        within_pure _
  | acceptAuthenticatedUser actor token =>
      exact Within.bind (within_acceptAuthenticatedUser (hhead _ _) (hnext _ _ _) _ _) fun _ =>
        within_pure _
  | registerUser fresh token password displayName =>
      exact Within.bind (within_registerUser (hhead _ _) (hnext _ _ _)
        (List.mem_cons_of_mem _ (hnext _ _ _)) _ _ _ _) fun _ => within_pure _
  | disableAs shred actor confirmed =>
      exact Within.bind (within_disableAs (hhead _ _) (hnext _ _ _) _ _ _) fun _ =>
        within_pure _
  | disableByOperator shred tenant confirmed =>
      exact Within.bind (within_disableByOperator (hhead _ _) (hnext _ _ _) _ _ _) fun _ =>
        within_pure _

end Statements

end Yorishiro.Tenancy
