import Yorishiro.Tenancy.Memberships

/-!
# Invites

Issue, reissue, revocation and redemption of invites. Only the digest of a token is stored; a
redemption finds the invite by it and marks it used in the same statement that checks that the
invite is unused, unexpired and of an active tenant, and the membership follows in the same
transaction, under the tenant's membership lock.
-/

set_option autoImplicit false

namespace Yorishiro.Tenancy

open Yorishiro.Lib
open Yorishiro.Lib.Fence
open Yorishiro.Queue (Instant)

/-! ## Issue -/

/-- What a call that issues an invite draws: the id of the row and the token. -/
structure NewInvite where
  id : Uuid
  token : String
deriving DecidableEq, Repr

/-- The answer to whoever issued an invite. -/
structure IssuedInvite where
  id : Uuid
  invite : Invite
  token : String
deriving DecidableEq, Repr

/-- An invite of the tenant. -/
def managedInvite (tenant id : Uuid) : Tx Invite := do
  let invite ← Script.read fun db => db.invites.get? id
  Script.orFail (.notFound "invite not found")
    (invite.filter fun i => decide (i.tenantId = tenant))

section Issue

variable (h : Externals)

/-- Creates an invite at the given time. -/
def createInviteAt (fresh : NewInvite) (tenant : Uuid) (email : String) (role : MembershipRole)
    (ttl : Int) (time : Instant) : Tx IssuedInvite := do
  lockMembership tenant
  requireActive tenant
  let invite : Invite := ⟨tenant, email, role, h.hashKey fresh.token, time + ttl, none⟩
  insertInvite fresh.id invite
  pure ⟨fresh.id, invite, fresh.token⟩

/-- The operator's command: creates an invite. -/
def createInvite (fresh : NewInvite) (tenant : Uuid) (email : String) (role : MembershipRole)
    (ttl : Int) : Tx IssuedInvite := do
  let time ← now
  createInviteAt h fresh tenant email role ttl time

/-- Creates an invite for an administrator. -/
def createInviteAs (fresh : NewInvite) (actor : AuthContext) (email : String)
    (role : MembershipRole) (expiresAt : Instant) : Tx IssuedInvite := do
  requireCurrentTenantAdmin actor
  requireOwnerIf (role = .owner) actor
  let time ← now
  Script.failIf (expiresAt ≤ time ∨ (trim email).isEmpty ∨ '@' ∉ email.toList)
    (.validationFailed "a future expires_at and an email address are required" []
      "provide the recipient email and a future expiry")
  createInviteAt h fresh actor.tenantId (trim email) role (expiresAt - time) time

/-- Gives an unused invite a new token and expiry. -/
def reissueInviteAs (token : String) (actor : AuthContext) (id : Uuid) (expiresAt : Instant) :
    Tx IssuedInvite := do
  requireCurrentTenantAdmin actor
  let invite ← managedInvite actor.tenantId id
  requireOwnerIf (invite.role = .owner) actor
  Script.failIf invite.usedAt.isSome (.conflict "a used invite cannot be reissued")
  let time ← now
  Script.failIf (expiresAt ≤ time)
    (.validationFailed "expires_at must be in the future" [] "provide a future expiry")
  updateInvite id fun row => { row with tokenHash := h.hashKey token, expiresAt := expiresAt }
  pure ⟨id, { invite with tokenHash := h.hashKey token, expiresAt := expiresAt }, token⟩

/-- Expires an unused invite. -/
def revokeInviteAs (actor : AuthContext) (id : Uuid) : Tx Unit := do
  requireCurrentTenantAdmin actor
  let invite ← managedInvite actor.tenantId id
  Script.failIf invite.usedAt.isSome (.conflict "a used invite cannot be revoked")
  let time ← now
  if time < invite.expiresAt then
    updateInvite id fun row => { row with expiresAt := time }

/-! ## Redemption -/

/-- What an invite grants. -/
structure RedeemedInvite where
  tenantId : Uuid
  email : String
  role : MembershipRole
deriving DecidableEq, Repr

/-- The refusal of a token. -/
def invalidInvite : YorishiroError :=
  .validationFailed "invite token is invalid, expired, or already used" []
    "ask a tenant admin for a fresh invite"

/-- The tenant a token's invite is for. -/
def inviteTenant (token : String) : Tx Uuid := do
  let invite ← Script.read fun db =>
    db.invites.rows.entries.find? fun e => e.2.tokenHash = h.hashKey token
  Script.orFail invalidInvite (invite.map fun e => e.2.tenantId)

/-- Whether the redeeming statement takes the invite at the given time. -/
def Invite.redeemable (db : Db) (hash : Digest) (time : Instant) (invite : Invite) : Bool :=
  decide (invite.tokenHash = hash) && db.active invite.tenantId && invite.usedAt.isNone &&
    decide (time < invite.expiresAt)

/-- `UPDATE ... RETURNING`: marks the invite used, if it is unused, unexpired and of an active
tenant. -/
def redeemInviteAt (token : String) (time : Instant) : Tx (Option RedeemedInvite) :=
  .update fun db => do
    let taken := db.invites.rows.entries.find? fun e => e.2.redeemable db (h.hashKey token) time
    let (invites, _) ← internal (db.invites.updateWhere
      (fun _ invite => invite.redeemable db (h.hashKey token) time)
      fun invite => { invite with usedAt := some time })
    pure (taken.map fun e => ⟨e.2.tenantId, e.2.email, e.2.role⟩, { db with invites := invites })

/-- Redeems an invite for an existing user. -/
def acceptInTransaction (token : String) (user : Uuid × User) : Tx RedeemedInvite := do
  let tenant ← inviteTenant h token
  lockMembership tenant
  let time ← now
  let invite ← redeemInviteAt h token time
  let invite ← Script.orFail invalidInvite invite
  Script.failIf (invite.email ≠ user.2.email) .unauthenticated
  let role ← getMembershipRole invite.tenantId user.1
  Script.failIf role.isSome (.conflict "this account already belongs to the invited tenant")
  addMemberInTransaction invite.tenantId user.1 invite.role
  pure invite

/-- The user with the email, if the password is theirs. -/
def verifyLogin (email password : String) : Tx (Option (Uuid × User)) :=
  Script.read fun db => (db.userByEmail email).filter fun user =>
    user.2.passwordHash.any fun stored => h.verifyPassword password stored

/-- Accepts an invite with proof of the existing account. -/
def acceptExistingUser (token email password : String) : Tx ((Uuid × User) × RedeemedInvite) := do
  let user ← verifyLogin h email password
  let user ← Script.orFail .unauthenticated user
  let invite ← acceptInTransaction h token user
  pure (user, invite)

/-- Accepts an invite with an attributed credential. -/
def acceptAuthenticatedUser (actor : AuthContext) (token : String) :
    Tx ((Uuid × User) × RedeemedInvite) := do
  let target ← inviteTenant h token
  -- the locks of both tenants, in a stable order
  lockMembership (min actor.tenantId target)
  lockMembership (max actor.tenantId target)
  let current ← currentContext actor
  let userId ← Script.orFail .unauthenticated current.userId
  let user ← Script.read fun db => db.users.get? userId
  let user ← Script.orFail .unauthenticated user
  let invite ← acceptInTransaction h token (userId, user)
  pure ((userId, user), invite)

/-- What registering a user draws: the id of the row and the salt of the password. -/
structure NewUser where
  id : Uuid
  salt : String
deriving DecidableEq, Repr

/-- Creates an account. -/
def createUser (fresh : NewUser) (email password : String) (displayName : Option String) :
    Tx (Uuid × User) := do
  let user : User := ⟨email, some (h.hashPassword fresh.salt password), displayName⟩
  insertUser fresh.id user (.conflict ("a user with email '" ++ email ++ "' already exists"))
  pure (fresh.id, user)

/-- Creates an account and its membership. -/
def registerMember (fresh : NewUser) (tenant : Uuid) (email password : String)
    (displayName : Option String) (role : MembershipRole) : Tx (Uuid × User) := do
  let user ← createUser h fresh email password displayName
  addMemberInTransaction tenant user.1 role
  pure user

/-- Registers an invited user. -/
def registerUser (fresh : NewUser) (token password : String) (displayName : Option String) :
    Tx ((Uuid × User) × RedeemedInvite) := do
  let tenant ← inviteTenant h token
  lockMembership tenant
  let time ← now
  let invite ← redeemInviteAt h token time
  let invite ← Script.orFail invalidInvite invite
  let user ← registerMember h fresh invite.tenantId invite.email password displayName invite.role
  pure (user, invite)

end Issue

end Yorishiro.Tenancy
