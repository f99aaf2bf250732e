import Yorishiro.Tenancy.Previews

/-!
# Two reports of what a key gives

After a role change the administrator is shown what the member's active keys give
(`key_access`), computed from the role that was asked for. The keys themselves are described from
the stored rows (`grant_metadata`).

The two computations treat keys that are bound to a workspace alike. For a key of the whole tenant
the first reports nothing at all, where the second reports what the tenant role leaves of its
scope. And the first finds the keys by the database's comparison of expiries, which is of texts on
SQLite and may miss an active key. The reports agree on an active key exactly when it is bound to a
workspace and found (`updateMemberAccess_reports_iff`).
-/

set_option autoImplicit false

namespace Yorishiro.Tenancy

open Yorishiro.Lib
open Yorishiro.Lib.Fence
open Yorishiro.Lib.Transition
open Yorishiro.Queue (Instant)

/-- The report has one entry for the key, with the effective scope that the key's grant metadata
have in the database. -/
def Db.ReportAgrees (db : Db) (report : List MembershipKeyAccess) (id : Uuid) (key : ApiKey) :
    Prop :=
  ∃ grant, key.grantMetadata.alone db = .ok (grant, db) ∧
    ∀ scope, (∃ e ∈ report, e.apiKeyId = id ∧ e.effectiveScope = scope) ↔
      scope = grant.effectiveScope

section Reports

variable {h : Externals} {db db' : Db} {tenant user : Uuid} {role : MembershipRole} {id : Uuid} {key : ApiKey}

/-- What a role change that succeeds has required, stored and reported. -/
theorem updateMemberAccess_eq_ok {actor : AuthContext} {report : List MembershipKeyAccess}
    (hok : (updateMemberAccess h actor user role).alone db = .ok (report, db')) :
    db.AdminActor actor ∧ ∃ htenant : (db.tenants.get? actor.tenantId).isSome = true,
      db' = db.setRole actor.tenantId user role htenant ∧
        report = db'.keyReport h actor.tenantId user role := by
  obtain ⟨_, db₀, hadmin, hok⟩ := Script.alone_bind_eq_ok.mp hok
  obtain ⟨hactor, rfl⟩ := requireCurrentTenantAdmin_eq_ok.mp hadmin
  obtain ⟨ownership, db₁, htouches, hok⟩ := Script.alone_bind_eq_ok.mp hok
  obtain ⟨ownership', htouches'⟩ := touchesOwnership_eq_ok db actor.tenantId user role
  obtain ⟨rfl, rfl⟩ := Prod.mk.inj (Except.ok.inj (htouches'.symm.trans htouches))
  obtain ⟨_, db₂, howner, hok⟩ := Script.alone_bind_eq_ok.mp hok
  obtain rfl : db = db₂ := by
    unfold requireOwnerIf at howner
    split_ifs at howner
    · obtain ⟨_, db₃, howner, hdone⟩ := Script.alone_bind_eq_ok.mp howner
      obtain ⟨-, rfl⟩ := requireCurrentTenantOwner_eq_ok.mp howner
      cases hdone
      rfl
    · cases howner
      rfl
  obtain ⟨_, db₄, hadd, hreport⟩ := Script.alone_bind_eq_ok.mp hok
  obtain ⟨_, db₅, hprotect, hstore⟩ := Script.alone_bind_eq_ok.mp hadd
  rw [alone_protectOwner] at hprotect
  split_ifs at hprotect
  cases hprotect
  rw [upsertMembership, Script.alone_update] at hstore
  split_ifs at hstore with hrefs
  cases hstore
  rw [alone_keyAccess] at hreport
  cases hreport
  exact ⟨hactor, hrefs.1, rfl, rfl⟩

theorem alone_grantMetadata {effective : Option ApiKeyScope}
    (hactive : key.isActive db.clock = true)
    (heffective : key.effective.alone db = .ok (effective, db)) :
    key.grantMetadata.alone db = .ok (key.describe effective db.clock, db) := by
  rw [ApiKey.grantMetadata, now, Script.alone_read_bind, if_pos hactive]
  simp only [Script.alone_bind, heffective, Except.bind]
  rfl

/-- The grant metadata of an active key of a user that is bound to one of the tenant's
workspaces. -/
theorem alone_grantMetadata_bound {workspace : Uuid} {ws : Workspace}
    (hactive : key.isActive db.clock = true) (huser : key.userId = some user)
    (hbound : key.workspaceId = some workspace) (hws : db.workspaces.get? workspace = some ws)
    (hown : ws.tenantId = key.tenantId) (htenant : db.active key.tenantId = true) :
    key.grantMetadata.alone db = .ok (key.describe
      ((db.access key.tenantId workspace user).map fun a => min key.scope a.maxScope) db.clock,
        db) := by
  have haccess : (workspaceAccess key.tenantId workspace user).alone db =
      .ok (db.access key.tenantId workspace user, db) := by
    have hread : (getWorkspaceTenant workspace).alone db = .ok (key.tenantId, db) :=
      getWorkspaceTenant_eq_ok.mpr ⟨⟨ws, hws, hown⟩, rfl⟩
    have hrequired : (requireActive key.tenantId).alone db = .ok ((), db) :=
      requireActive_eq_ok.mpr ⟨htenant, rfl⟩
    unfold workspaceAccess Db.access
    simp only [Script.alone_bind, hread, Except.bind, ne_eq, not_true, if_false, hrequired,
      alone_getMembershipRole, hws, Option.any_some, hown, decide_true, htenant, Bool.and_self,
      if_true]
    cases db.role key.tenantId user with
    | none => rfl
    | some role => exact alone_workspaceAccessForRole workspace user role
  refine alone_grantMetadata hactive ?_
  unfold ApiKey.effective
  simp only [huser, hbound, Script.alone_bind, haccess, Except.bind]
  rfl

/-- The grant metadata of an active key of a user for the whole tenant. -/
theorem alone_grantMetadata_wide (hactive : key.isActive db.clock = true)
    (huser : key.userId = some user) (hwide : key.workspaceId = none) :
    key.grantMetadata.alone db = .ok (key.describe
      ((db.role key.tenantId user).map (effectiveScope key.scope)) db.clock, db) := by
  refine alone_grantMetadata hactive ?_
  unfold ApiKey.effective
  simp only [huser, hwide, Script.alone_bind, alone_getMembershipRole, Except.bind]
  rfl

/-- **A role change's report of one key** agrees with the key's description afterwards exactly when
the key is bound to a workspace and listed. -/
theorem reportAgrees_setRole_iff (htenant : (db.tenants.get? tenant).isSome = true)
    (hactive : db.active tenant = true) (hkey : db.keys.get? id = some key)
    (hattributed : key.attributedTo tenant user = true) (hunexpired : key.isActive db.clock = true)
    (hbound : db.Bound key) :
    (db.setRole tenant user role htenant).ReportAgrees
        ((db.setRole tenant user role htenant).keyReport h tenant user role) id key ↔
      key.workspaceId.isSome = true ∧ key.listed (h.expiryZone id) db.clock = true := by
  have hlists : ∀ scope, (∃ e ∈ (db.setRole tenant user role htenant).keyReport h tenant user role,
      e.apiKeyId = id ∧ e.effectiveScope = scope) ↔
        key.listed (h.expiryZone id) db.clock = true ∧
          scope = (db.setRole tenant user role htenant).keyScope user role key :=
    mem_keyReport hkey hattributed
  simp only [ApiKey.attributedTo, Bool.and_eq_true, decide_eq_true_eq] at hattributed
  obtain ⟨rfl, huser⟩ := hattributed
  cases hworkspace : key.workspaceId with
  | none =>
      have hgrant : key.grantMetadata.alone (db.setRole key.tenantId user role htenant) = _ :=
        alone_grantMetadata_wide hunexpired huser hworkspace
      rw [role_setRole, if_pos rfl, Function.update_self] at hgrant
      refine iff_of_false ?_ (by simp)
      rintro ⟨grant, hgrant', hagrees⟩
      obtain ⟨rfl, -⟩ := Prod.mk.inj (Except.ok.inj (hgrant.symm.trans hgrant'))
      -- the entry says none, if there is one, and the metadata have what the role leaves
      obtain ⟨-, hnone⟩ := (hlists _).mp ((hagrees _).mpr rfl)
      rw [Db.keyScope, hworkspace] at hnone
      cases hnone
  | some workspace =>
      obtain ⟨ws, hws, hown⟩ := hbound workspace hworkspace
      have hgrant : key.grantMetadata.alone (db.setRole key.tenantId user role htenant) = _ :=
        alone_grantMetadata_bound hunexpired huser hworkspace hws hown hactive
      rw [access_setRole_self htenant hws hown hactive] at hgrant
      constructor
      · rintro ⟨grant, -, hagrees⟩
        exact ⟨rfl, ((hlists _).mp ((hagrees _).mpr rfl)).1⟩
      · rintro ⟨-, hlisted⟩
        refine ⟨_, hgrant, fun scope => ((hlists scope).trans (and_iff_right hlisted)).trans ?_⟩
        rw [Db.keyScope, hworkspace]
        rfl

end Reports

/-! ## Main result -/

/-- **The reports agree on the keys that are bound to a workspace and listed**, and on no others: in
every database that is reached, when an administrator changes a member's role, for every active key
attributed to the member in the tenant. -/
theorem updateMemberAccess_reports_iff (h : Externals) (clock : Instant) (changes : List Change)
    (actor : AuthContext) (user : Uuid) (role : MembershipRole) (report : List MembershipKeyAccess)
    (db' : Db)
    (hok : (updateMemberAccess h actor user role).alone (run (Db.change h) (.empty clock) changes) =
      .ok (report, db'))
    (id : Uuid) (key : ApiKey) (hkey : db'.keys.get? id = some key)
    (hattributed : key.attributedTo actor.tenantId user = true)
    (hunexpired : key.isActive db'.clock = true) :
    db'.ReportAgrees report id key ↔
      key.workspaceId.isSome = true ∧ key.listed (h.expiryZone id) db'.clock = true := by
  obtain ⟨hadmin, htenant, rfl, rfl⟩ := updateMemberAccess_eq_ok hok
  exact reportAgrees_setRole_iff htenant hadmin.active hkey hattributed hunexpired
    ((run_coherent h clock changes).bound id key hkey)

/-- A member with two keys: one bound to the workspace, one for the whole tenant. -/
def twoKeys : List Change :=
  hiring ++ [.op (.createTenantApiKey ⟨32, ⟨"ci", "three"⟩⟩ 1 .write (some 11) false "pipeline")]

/-- What the owner is shown when the member stays a member. -/
def twoKeysReport : List MembershipKeyAccess :=
  [⟨31, .write, some .write, false⟩, ⟨32, .write, none, false⟩]

/-- The database after the member's keys are issued. -/
def twoKeysDb : Db := run (Db.change .plain) (.empty 0) twoKeys

theorem twoKeysDb_tenant : (twoKeysDb.tenants.get? 1).isSome = true := by decide

/-- A key of the member, for a workspace or for the whole tenant. -/
def memberKey (label secret name : String) (workspace : Option Uuid) : ApiKey where
  tenantId := 1
  workspaceId := workspace
  userId := some 11
  keyHash := Externals.plain.hashKey (generateKey ⟨label, secret⟩).2
  keyPrefix := (generateKey ⟨label, secret⟩).1
  name := name
  scope := .write
  audit := false
  expiresAt := none
  revokedAt := none
  replacedById := none
  createdAt := 0

/-- What the proofs below read off the database. -/
theorem twoKeysDb_reads :
    (twoKeysDb.current hirer = some hirer ∧ twoKeysDb.role 1 10 = some .owner ∧
        (twoKeysDb.users.get? 11).isSome = true ∧ twoKeysDb.lastOwner 1 11 = false) ∧
      (twoKeysDb.setRole 1 11 .member twoKeysDb_tenant).keyReport .plain 1 11 .member =
        twoKeysReport ∧
      twoKeysDb.keys.get? 31 = some (memberKey "mem" "two" "unnamed" (some 20)) ∧
      twoKeysDb.keys.get? 32 = some (memberKey "ci" "three" "pipeline" none) := by
  decide

theorem updateMemberAccess_twoKeys :
    (updateMemberAccess .plain hirer 11 .member).alone twoKeysDb =
      .ok (twoKeysReport, twoKeysDb.setRole 1 11 .member twoKeysDb_tenant) := by
  obtain ⟨⟨hcurrent, hrole, huser, hother⟩, hreport, -⟩ := twoKeysDb_reads
  have howner : twoKeysDb.OwnerActor hirer :=
    ⟨⟨hirer, 10, hcurrent, rfl, .owner, hrole, rfl⟩, 10, rfl, hrole⟩
  rw [alone_updateMemberAccess howner .member twoKeysDb_tenant huser, if_neg]
  · exact congrArg (fun report => Except.ok (report, _)) hreport
  · rw [show twoKeysDb.lastOwner hirer.tenantId 11 = false from hother, Bool.and_false]
    exact Bool.false_ne_true

/-- On the bound key the reports agree. -/
theorem updateMemberAccess_reports_twoKeys :
    (twoKeysDb.setRole 1 11 .member twoKeysDb_tenant).ReportAgrees twoKeysReport 31
      (memberKey "mem" "two" "unnamed" (some 20)) :=
  (updateMemberAccess_reports_iff .plain 0 twoKeys hirer 11 .member twoKeysReport _
    updateMemberAccess_twoKeys 31 _ twoKeysDb_reads.2.2.1 rfl rfl).mpr ⟨rfl, rfl⟩

/-- The key for the whole tenant is reported to give nothing, and described as giving `write`. -/
theorem not_updateMemberAccess_reports :
    (updateMemberAccess .plain hirer 11 .member).alone (run (Db.change .plain) (.empty 0) twoKeys) =
        .ok (twoKeysReport, twoKeysDb.setRole 1 11 .member twoKeysDb_tenant) ∧
      (twoKeysDb.setRole 1 11 .member twoKeysDb_tenant).keys.get? 32 =
        some (memberKey "ci" "three" "pipeline" none) ∧
      (∃ grant, (memberKey "ci" "three" "pipeline" none).grantMetadata.alone
          (twoKeysDb.setRole 1 11 .member twoKeysDb_tenant) =
            .ok (grant, twoKeysDb.setRole 1 11 .member twoKeysDb_tenant) ∧
        grant.effectiveScope = some .write) ∧
      ¬(twoKeysDb.setRole 1 11 .member twoKeysDb_tenant).ReportAgrees twoKeysReport 32
        (memberKey "ci" "three" "pipeline" none) := by
  have hgrant : (memberKey "ci" "three" "pipeline" none).grantMetadata.alone
      (twoKeysDb.setRole 1 11 .member twoKeysDb_tenant) = _ :=
    alone_grantMetadata_wide rfl rfl rfl
  have hown : (1 : Uuid) = (memberKey "ci" "three" "pipeline" none).tenantId := rfl
  rw [role_setRole, if_pos hown, Function.update_self] at hgrant
  refine ⟨updateMemberAccess_twoKeys, twoKeysDb_reads.2.2.2, ⟨_, hgrant, rfl⟩, ?_⟩
  rintro ⟨grant, hgrant', hagrees⟩
  obtain ⟨rfl, -⟩ := Prod.mk.inj (Except.ok.inj (hgrant.symm.trans hgrant'))
  exact absurd ((hagrees none).mp (by decide)) (by decide)

end Yorishiro.Tenancy
