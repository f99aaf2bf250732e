import Mathlib.Data.Prod.Lex
import Yorishiro.Base.Uuid
import Yorishiro.Base.Error
import Yorishiro.Lib.Fence
import Yorishiro.Lib.Timestamp
import Yorishiro.Queue.Lifecycle

/-!
# The tables of tenancy

Tenants, users, workspaces, memberships, workspace grants, API keys and invites, as one
database `Db`, with the roles and scopes its rows carry. Operations on it are scripts of
statements (`Tx`), so that the same definition runs alone and in interleavings; the
advisory lock they share is the tenant's membership lock (`membershipLock`). The clock is part
of the database: reading the time is a statement like any other.

What the code takes from outside is a parameter or an argument: `Externals` has the digests and
how the database keeps the expiry of a key, and fresh ids, key material and salts come with the
call.
-/

set_option autoImplicit false

namespace Yorishiro.Tenancy

open Yorishiro.Lib
open Yorishiro.Lib.Fence
open Yorishiro.Queue (Instant)

/-! ## Scopes and roles -/

/-- Permission level of an API key; a higher scope subsumes the lower ones. -/
inductive ApiKeyScope where
  | read
  | write
  | schema
  | migration
deriving DecidableEq, Repr

namespace ApiKeyScope

/-- Place in the declaration order. -/
def rank : ApiKeyScope → Nat
  | .read => 0
  | .write => 1
  | .schema => 2
  | .migration => 3

theorem rank_injective : Function.Injective rank := by
  intro a b h
  cases a <;> cases b <;> first | rfl | cases h

instance : LinearOrder ApiKeyScope := LinearOrder.lift' rank rank_injective

/-- The name the source prints for debugging. -/
def debug : ApiKeyScope → String
  | .read => "Read"
  | .write => "Write"
  | .schema => "Schema"
  | .migration => "Migration"

/-- Whether a key with this scope can perform an operation that requires `required`. -/
def satisfies (scope required : ApiKeyScope) : Bool := decide (required ≤ scope)

end ApiKeyScope

/-- Role of a user in a tenant. -/
inductive MembershipRole where
  | owner
  | admin
  | member
  | viewer
deriving DecidableEq, Repr

namespace MembershipRole

/-- The highest scope of keys the role can use. -/
def maxScope : MembershipRole → ApiKeyScope
  | .owner => .migration
  | .admin => .migration
  | .member => .write
  | .viewer => .read

/-- Whether the role administers the tenant. -/
def administersTenant : MembershipRole → Bool
  | .owner => true
  | .admin => true
  | _ => false

end MembershipRole

/-- Role of a user in one workspace. -/
inductive WorkspaceRole where
  | admin
  | member
  | viewer
deriving DecidableEq, Repr

/-- The highest scope of keys the role can use in the workspace. -/
def WorkspaceRole.maxScope : WorkspaceRole → ApiKeyScope
  | .admin => .migration
  | .member => .write
  | .viewer => .read

/-! ## Rows -/

/-- A digest, as bytes. -/
abbrev Digest := List (Fin 256)

/-- A row of `tenant_tenants`. -/
structure Tenant where
  name : String
  disabledAt : Option Instant
deriving DecidableEq, Repr

/-- A row of `user_users`. -/
structure User where
  email : String
  passwordHash : Option String
  displayName : Option String
deriving DecidableEq, Repr

/-- Emails are unique. -/
def User.clash (a b : User) : Bool := decide (a.email = b.email)

/-- A row of `workspace_workspaces`. -/
structure Workspace where
  tenantId : Uuid
  name : String
deriving DecidableEq, Repr

/-- The first instant of the year 10000. -/
def yearTenThousand : Instant := 253402300800 * 1000000

/-- A row of `api_keys`. -/
structure ApiKey where
  tenantId : Uuid
  workspaceId : Option Uuid
  userId : Option Uuid
  keyHash : Digest
  keyPrefix : String
  name : String
  scope : ApiKeyScope
  audit : Bool
  expiresAt : Option Instant
  revokedAt : Option Instant
  replacedById : Option Uuid
  createdAt : Instant
deriving DecidableEq, Repr

/-- Hashes are unique. -/
def ApiKey.clash (a b : ApiKey) : Bool := decide (a.keyHash = b.keyHash)

/-- Neither revoked nor expired. -/
def ApiKey.isActive (key : ApiKey) (now : Instant) : Bool :=
  key.revokedAt.isNone && key.expiresAt.all fun expires => decide (now < expires)

/-- `expires_at > now`, as the database compares. SQLite has the text that the client has sent, in
a zone of the client's own, and compares it with `now` in UTC; a year of five digits is written with
a sign, which is before any digit. -/
def expiresAfter (now : Instant) (zone : Option Int) (expires : Instant) : Bool :=
  match zone with
  | none => decide (now < expires)
  | some offset =>
      decide ((Timestamp.mk expires offset).reading < yearTenThousand) &&
        decide ((Timestamp.utc now).textKey < (Timestamp.mk expires offset).textKey)

/-- Neither revoked nor, as the database compares, expired. -/
def ApiKey.listed (key : ApiKey) (zone : Option Int) (now : Instant) : Bool :=
  key.revokedAt.isNone && key.expiresAt.all (expiresAfter now zone)

/-- PostgreSQL lists the active keys. -/
@[simp] theorem ApiKey.listed_none (key : ApiKey) (now : Instant) :
    key.listed none now = key.isActive now := rfl

/-- SQLite lists the keys that expire, in the client's own zone, after the time in UTC. -/
theorem expiresAfter_some {now expires : Instant} {offset : Int} :
    expiresAfter now (some offset) expires = true ↔
      (Timestamp.mk expires offset).reading < yearTenThousand ∧
        (now < (Timestamp.mk expires offset).reading ∨
          now = (Timestamp.mk expires offset).reading ∧ offset ≠ 0) := by
  rw [expiresAfter, Bool.and_eq_true, decide_eq_true_iff, decide_eq_true_iff, Timestamp.utc_lt_iff]

/-- These are the active keys if the client has written UTC. -/
theorem ApiKey.listed_utc {key : ApiKey} {now : Instant}
    (h : ∀ expires, key.expiresAt = some expires → expires < yearTenThousand) :
    key.listed (some 0) now = key.isActive now := by
  unfold ApiKey.listed ApiKey.isActive
  cases hexpires : key.expiresAt with
  | none => rfl
  | some expires =>
      have hcompare : expiresAfter now (some 0) expires = decide (now < expires) := by
        rw [Bool.eq_iff_iff, expiresAfter_some, decide_eq_true_iff]
        simp [Timestamp.reading, h expires hexpires]
      rw [Option.all_some, Option.all_some, hcompare]

/-- A row of `workspace_invites`. -/
structure Invite where
  tenantId : Uuid
  email : String
  role : MembershipRole
  tokenHash : Digest
  expiresAt : Instant
  usedAt : Option Instant
deriving DecidableEq, Repr

/-- Token hashes are unique. -/
def Invite.clash (a b : Invite) : Bool := decide (a.tokenHash = b.tokenHash)

/-- The tables, and the time of day. Memberships are rows by tenant and user, workspace grants
rows by workspace and user; these pairs are unique. Of the foreign keys, the one that the code
relies on when it reads is a field: a membership's tenant is stored. -/
structure Db where
  clock : Instant
  tenants : OrderedMap Uuid Tenant
  users : Table Uuid User User.clash
  workspaces : OrderedMap Uuid Workspace
  memberships : OrderedMap (Uuid ×ₗ Uuid) MembershipRole
  grants : OrderedMap (Uuid ×ₗ Uuid) WorkspaceRole
  keys : Table Uuid ApiKey ApiKey.clash
  invites : Table Uuid Invite Invite.clash
  enrolled : ∀ k role, memberships.get? k = some role → (tenants.get? (ofLex k).1).isSome = true

/-- No rows. -/
def Db.empty (clock : Instant) : Db where
  clock := clock
  tenants := .empty
  users := .empty
  workspaces := .empty
  memberships := .empty
  grants := .empty
  keys := .empty
  invites := .empty
  enrolled := fun _ _ h => by cases h

/-! ## Statements -/

/-- A transaction. -/
abbrev Tx := Script String Db YorishiroError

/-- The name of the lock that counts of a tenant's workspaces share. -/
def workspaceCountLockKey (tenant : Uuid) : String := "workspace-count:" ++ tenant.toString

/-- The name of the lock that membership changes of a tenant share. -/
def membershipLock (tenant : Uuid) : String := "tenant-membership:" ++ tenant.toString

/-- Waits for the membership changes of a tenant. -/
def lockMembership (tenant : Uuid) : Tx Unit := Script.acquire (membershipLock tenant)

/-- `crate::time::now()`. -/
def now : Tx Instant := Script.read Db.clock

/-- A user's role within a tenant. -/
def Db.role (db : Db) (tenant user : Uuid) : Option MembershipRole :=
  db.memberships.get? (toLex (tenant, user))

/-- A user's direct grant in a workspace. -/
def Db.grant (db : Db) (workspace user : Uuid) : Option WorkspaceRole :=
  db.grants.get? (toLex (workspace, user))

/-- Number of owners of a tenant. -/
def Db.owners (db : Db) (tenant : Uuid) : Nat :=
  db.memberships.count fun k role => decide ((ofLex k).1 = tenant) && decide (role = .owner)

/-- What the deployment supplies: the digests, SHA-256 for keys and tokens and Argon2id with a salt
for passwords, and the form in which the expiry of a key is stored. PostgreSQL keeps an instant;
SQLite keeps a text, with an offset in minutes ahead of UTC. -/
structure Externals where
  hashKey : String → Digest
  hashPassword : String → String → String
  verifyPassword : String → String → Bool
  expiryZone : Uuid → Option Int

/-- What `generate_key` draws. -/
structure KeyMaterial where
  label : String
  secret : String
deriving DecidableEq, Repr

/-- The prefix and the plaintext of a new key. -/
def generateKey (material : KeyMaterial) : String × String :=
  let label := "ysr_" ++ material.label
  (label, label ++ "_" ++ material.secret)

/-- The `.internal()` of the source. -/
def internal {α : Type} (x : Except DbErr α) : Except YorishiroError α := x.mapError .internal

/-- The rows that references of a new row name have to be there. -/
def requireReferences (present : Bool) : Except YorishiroError Unit :=
  if present then .ok () else .error (.internal .foreignKeyViolation)

/-- The database with a role in a tenant that is there. -/
def Db.setRole (db : Db) (tenant user : Uuid) (role : MembershipRole)
    (htenant : (db.tenants.get? tenant).isSome = true) : Db :=
  { db with
    memberships := db.memberships.insert (toLex (tenant, user)) role
    enrolled := fun k r hk => by
      rcases OrderedMap.get?_insert_eq_some hk with ⟨rfl, -⟩ | ⟨-, hold⟩
      · exact htenant
      · exact db.enrolled k r hold }

/-- The database without a membership. -/
def Db.dropRole (db : Db) (tenant user : Uuid) : Db :=
  { db with
    memberships := db.memberships.erase (toLex (tenant, user))
    enrolled := fun k r hk => db.enrolled k r (OrderedMap.get?_erase_eq_some hk).2 }

/-- `INSERT ... ON CONFLICT (tenant_id, user_id) DO UPDATE SET role`. -/
def upsertMembership (tenant user : Uuid) (role : MembershipRole) : Tx Unit :=
  .update fun db =>
    if h : (db.tenants.get? tenant).isSome = true ∧ (db.users.get? user).isSome = true then
      .ok ((), db.setRole tenant user role h.1)
    else .error (.internal .foreignKeyViolation)

/-- `INSERT ... ON CONFLICT (workspace_id, user_id) DO UPDATE SET role`. -/
def upsertGrant (workspace user : Uuid) (role : WorkspaceRole) : Tx Unit :=
  .update fun db => do
    requireReferences ((db.workspaces.get? workspace).isSome && (db.users.get? user).isSome)
    pure ((), { db with grants := db.grants.insert (toLex (workspace, user)) role })

/-- `DELETE` of a membership. -/
def deleteMembership (tenant user : Uuid) : Tx Unit :=
  .update fun db => .ok ((), db.dropRole tenant user)

/-- `DELETE` of a user's grants in the selected workspaces. -/
def deleteGrants (user : Uuid) (selected : Db → Uuid → Bool) : Tx Unit :=
  .update fun db => .ok ((), { db with
    grants := db.grants.filter fun k _ => !(decide ((ofLex k).2 = user) && selected db (ofLex k).1) })

/-- `INSERT` of a key. -/
def insertKey (id : Uuid) (key : ApiKey) : Tx Unit :=
  .update fun db => do
    requireReferences ((db.tenants.get? key.tenantId).isSome &&
      key.workspaceId.all (fun w => (db.workspaces.get? w).isSome) &&
      key.userId.all fun u => (db.users.get? u).isSome)
    let keys ← internal (db.keys.insert id key)
    pure ((), { db with keys := keys })

/-- `UPDATE` of one key, with the number of rows it matched. -/
def updateKey (id : Uuid) (p : ApiKey → Bool) (f : ApiKey → ApiKey) : Tx Nat :=
  .update fun db => do
    let (keys, n) ← internal (db.keys.updateRow id p f)
    pure (n, { db with keys := keys })

/-- `UPDATE` of one invite by its id. -/
def updateInvite (id : Uuid) (f : Invite → Invite) : Tx Unit :=
  .update fun db => do
    let (invites, n) ← internal (db.invites.updateRow id (fun _ => true) f)
    if n = 0 then .error (.internal (.custom "None of the records are updated"))
    pure ((), { db with invites := invites })

/-- `INSERT` of a user. -/
def insertUser (id : Uuid) (user : User) (taken : YorishiroError) : Tx Unit :=
  .update fun db => do
    let users ← (db.users.insert id user).mapError fun _ => taken
    pure ((), { db with users := users })

/-- `INSERT` of an invite. -/
def insertInvite (id : Uuid) (invite : Invite) : Tx Unit :=
  .update fun db => do
    requireReferences (db.tenants.get? invite.tenantId).isSome
    let invites ← internal (db.invites.insert id invite)
    pure ((), { db with invites := invites })

end Yorishiro.Tenancy
