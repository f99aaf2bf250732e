import Yorishiro.Lib.Guard
import Yorishiro.Tenancy.Coherence

/-!
# What the membership lock of a tenant stands for

`Upholds` says what is left alone as long as somebody else has the membership lock of a tenant:
whether the tenant is active, its roles, its workspaces, the grants in them that its members
have, and the keys that can give anybody anything. Every operation and every deletion changes
these under the lock of the tenant only (`guarded_op`, `guarded_deletion`). The deletion of a
user takes no lock, and need not: a user with a role anywhere is not deleted.

`checks_currentContext` is what the lock is good for. The answer of `currentContext` is put
together from what several statements have read, one after the other; under the lock it is
what the credential is worth when the last one is through, and from then on.

`home` gives the tenant of each workspace id. Ids are drawn at random and given out once.
-/

set_option autoImplicit false

namespace Yorishiro.Tenancy

open Yorishiro.Lib
open Yorishiro.Lib.Fence
open Yorishiro.Queue (Instant)

variable {home : Uuid → Uuid} {h : Externals} {tenant : Uuid} {db db' : Db} {held : List String}

/-! ## The guard -/

/-- Each workspace is one of its home tenant. -/
def Db.Homed (home : Uuid → Uuid) (db : Db) : Prop :=
  ∀ id ws, db.workspaces.get? id = some ws → ws.tenantId = home id

/-- The key can be worth something in the tenant. -/
structure Db.Backed (home : Uuid → Uuid) (tenant : Uuid) (db : Db) (key : ApiKey) : Prop where
  own : key.tenantId = tenant
  workspace : ∀ id, key.workspaceId = some id → home id = tenant
  user : ∀ id, key.userId = some id → (db.role tenant id).isSome = true

/-- What is left alone, in a tenant whose membership lock somebody else has. -/
structure Upholds (home : Uuid → Uuid) (tenant : Uuid) (db db' : Db) : Prop where
  clock : db.clock ≤ db'.clock
  active : db.active tenant = true → db'.active tenant = true
  role : ∀ user, db'.role tenant user = db.role tenant user
  workspace : ∀ id ws, db.workspaces.get? id = some ws → ws.tenantId = tenant →
    db'.workspaces.get? id = some ws
  grant : ∀ id user, home id = tenant → (db.role tenant user).isSome = true →
    db'.grant id user = db.grant id user
  key : ∀ id key, db.keys.get? id = some key → db.Backed home tenant key →
    ∃ key', db'.keys.get? id = some key' ∧ key.Becomes key' ∧ key'.revokedAt = key.revokedAt

theorem Upholds.refl (db : Db) : Upholds home tenant db db where
  clock := le_rfl
  active := fun hactive => hactive
  role := fun _ => rfl
  workspace := fun _ _ hws _ => hws
  grant := fun _ _ _ _ => rfl
  key := fun _ key hkey _ => ⟨key, hkey, .refl key, rfl⟩

theorem Upholds.trans {u v w : Db} (huv : Upholds home tenant u v) (hvw : Upholds home tenant v w) :
    Upholds home tenant u w where
  clock := huv.clock.trans hvw.clock
  active := fun hactive => hvw.active (huv.active hactive)
  role := fun user => (hvw.role user).trans (huv.role user)
  workspace := fun id ws hws htenant => hvw.workspace id ws (huv.workspace id ws hws htenant) htenant
  grant := fun id user hhome hrole =>
    (hvw.grant id user hhome (by rwa [huv.role])).trans (huv.grant id user hhome hrole)
  key := fun id key hkey hbacked => by
    obtain ⟨key₁, hkey₁, hbecomes₁, hrevoked₁⟩ := huv.key id key hkey hbacked
    have hbacked₁ : v.Backed home tenant key₁ :=
      { own := hbecomes₁.tenant.trans hbacked.own
        workspace := fun id hid => hbacked.workspace id (hbecomes₁.workspace ▸ hid)
        user := fun id hid => by
          rw [huv.role]
          exact hbacked.user id (hbecomes₁.user ▸ hid) }
    obtain ⟨key₂, hkey₂, hbecomes₂, hrevoked₂⟩ := hvw.key id key₁ hkey₁ hbacked₁
    exact ⟨key₂, hkey₂, hbecomes₁.trans hbecomes₂, hrevoked₂.trans hrevoked₁⟩

/-- Who has not got the membership lock of a tenant leaves alone what it stands for. -/
def authority (home : Uuid → Uuid) : Guard String Db where
  inv := Db.Homed home
  keeps := fun name db db' => ∀ tenant, name = membershipLock tenant → Upholds home tenant db db'
  refl := fun _ db _ _ => .refl db
  trans := fun _ _ _ _ huv hvw tenant hname => (huv tenant hname).trans (hvw tenant hname)

/-- A change that concerns one tenant only. -/
structure OnlyIn (home : Uuid → Uuid) (tenant : Uuid) (db db' : Db) : Prop where
  homed : db'.Homed home
  others : ∀ other, other ≠ tenant → Upholds home other db db'

/-- Under the lock of a tenant, the tenant may be changed. -/
theorem OnlyIn.respects (hlock : membershipLock tenant ∈ held) (hw : OnlyIn home tenant db db') :
    (authority home).Respects held db db' := by
  refine ⟨hw.homed, fun name hname other heq => hw.others other ?_⟩
  rintro rfl
  exact hname (heq ▸ hlock)

/-- A change that concerns no tenant needs no lock. -/
theorem respects_of_upholds (hhomed : db'.Homed home) (hall : ∀ t, Upholds home t db db') :
    (authority home).Respects held db db' :=
  ⟨hhomed, fun _ _ t _ => hall t⟩

/-! ## Rows -/

/-- Keys that keep their grants uphold every tenant. -/
theorem upholds_keys {keys : Table Uuid ApiKey ApiKey.clash}
    (hkeys : ∀ id key, db.keys.get? id = some key → db.Backed home tenant key →
      ∃ key', keys.get? id = some key' ∧ key.Becomes key' ∧ key'.revokedAt = key.revokedAt) :
    Upholds home tenant db { db with keys := keys } :=
  { Upholds.refl db with key := hkeys }

/-- An update of one key upholds the tenants whose keys it does not select. -/
theorem upholds_updateRow {id : Uuid} {p : ApiKey → Bool} {f : ApiKey → ApiKey}
    {keys : Table Uuid ApiKey ApiKey.clash} {n : Nat}
    (hf : ∀ key, p key = true → db.Backed home tenant key →
      key.Becomes (f key) ∧ (f key).revokedAt = key.revokedAt)
    (hok : db.keys.updateRow id p f = .ok (keys, n)) :
    Upholds home tenant db { db with keys := keys } := by
  refine upholds_keys fun l key hkey hbacked => ?_
  rcases Table.updateRow_eq_ok hok with ⟨row, hrow, hp, -, hreplaces⟩ | ⟨-, -, rfl⟩
  · by_cases hl : l = id
    · subst hl
      obtain rfl : row = key := Option.some.inj (hrow.symm.trans hkey)
      exact ⟨f row, hreplaces.get?_self, hf row hp hbacked⟩
    · exact ⟨key, (hreplaces.get?_ne hl).trans hkey, .refl key, rfl⟩
  · exact ⟨key, hkey, .refl key, rfl⟩

/-- Grants that change only where `written` says uphold the tenants it says nothing of. -/
theorem upholds_grants {grants : OrderedMap (Uuid ×ₗ Uuid) WorkspaceRole}
    (hgrants : ∀ id user, home id = tenant → (db.role tenant user).isSome = true →
      grants.get? (toLex (id, user)) = db.grant id user) :
    Upholds home tenant db { db with grants := grants } :=
  { Upholds.refl db with grant := hgrants }

theorem active_disable {t : Uuid} {time : Instant} (hne : tenant ≠ t) :
    (db.disable t time).active tenant = db.active tenant := by
  unfold Db.active Db.disable
  rw [OrderedMap.get?_updateWhere]
  cases db.tenants.get? tenant with
  | none => rfl
  | some row => simp [hne]

/-- Memberships of one tenant are no matter of the others. -/
theorem upholds_memberships {other : Uuid} (hne : other ≠ tenant)
    (hclock : db'.clock = db.clock) (htenants : db'.tenants = db.tenants)
    (hworkspaces : db'.workspaces = db.workspaces) (hgrants : db'.grants = db.grants)
    (hkeys : db'.keys = db.keys) {user : Uuid} {written : Option MembershipRole}
    (hmemberships : ∀ k, db'.memberships.get? k =
      if k = toLex (tenant, user) then written else db.memberships.get? k) :
    Upholds home other db db' where
  clock := hclock.ge
  active := fun hactive => by
    unfold Db.active at hactive ⊢
    rwa [htenants]
  role := fun u => by
    have hkey : toLex (other, u) ≠ toLex (tenant, user) := fun heq => hne (Prod.mk.inj heq).1
    unfold Db.role
    rw [hmemberships, if_neg hkey]
  workspace := fun _ _ hws _ => by rwa [hworkspaces]
  grant := fun _ _ _ _ => by
    unfold Db.grant
    rw [hgrants]
  key := fun _ key hkey _ => ⟨key, by rwa [hkeys], .refl key, rfl⟩

/-! ## Statements -/

/-- The parts of the database that authority rests on. -/
def Part.isAuthority : Part → Bool
  | .members => true
  | .grants => true
  | .keys => true
  | .tenants => true
  | _ => false

/-- Statements on other parts uphold every tenant. -/
theorem Statement.upholds {parts : List Part} (hs : Statement h parts db db')
    (hparts : ∀ p ∈ parts, p.isAuthority = false) : Upholds home tenant db db' := by
  cases hs with
  | setRole hpart => exact absurd (hparts _ hpart) Bool.noConfusion
  | dropRole hpart => exact absurd (hparts _ hpart) Bool.noConfusion
  | grants hpart => exact absurd (hparts _ hpart) Bool.noConfusion
  | revokeKey hpart => exact absurd (hparts _ hpart) Bool.noConfusion
  | replaceKey hpart => exact absurd (hparts _ hpart) Bool.noConfusion
  | disable hpart => exact absurd (hparts _ hpart) Bool.noConfusion
  | insertKey _ key hrevoked hok =>
      exact upholds_keys fun l row hrow _ =>
        ⟨row, Table.get?_insert_of_some hok hrow, .refl row, rfl⟩
  | insertUser => exact { Upholds.refl db with }
  | insertInvite => exact { Upholds.refl db with }
  | updateInvite => exact { Upholds.refl db with }
  | redeem => exact { Upholds.refl db with }

theorem Statement.homed {parts : List Part} (hs : Statement h parts db db')
    (hdb : db.Homed home) : db'.Homed home := by
  unfold Db.Homed
  rw [hs.bindingsKept.workspaces]
  exact hdb

theorem guarded_of_statement {α : Type} {p : Tx α} {parts : List Part}
    (hp : Script.Within (Statement h parts) p) (hparts : ∀ p ∈ parts, p.isAuthority = false) :
    p.Guarded (authority home) held :=
  Script.Within.guarded hp fun _ _ hdb hs =>
    respects_of_upholds (hs.homed hdb) fun _ => hs.upholds hparts

section Locked

variable (hlock : membershipLock tenant ∈ held)

include hlock

theorem guarded_upsertMembership (user : Uuid) (role : MembershipRole) :
    (upsertMembership tenant user role).Guarded (authority home) held := by
  refine Script.guarded_update fun db _ db' hdb hok => OnlyIn.respects hlock ?_
  split_ifs at hok with hrefs
  · cases hok
    refine ⟨hdb, fun other hne => ?_⟩
    exact upholds_memberships hne rfl rfl rfl rfl rfl fun _ => OrderedMap.get?_insert ..

theorem guarded_deleteMembership (user : Uuid) :
    (deleteMembership tenant user).Guarded (authority home) held := by
  refine Script.guarded_update fun db _ db' hdb hok => OnlyIn.respects hlock ?_
  cases hok
  refine ⟨hdb, fun other hne => ?_⟩
  exact upholds_memberships hne rfl rfl rfl rfl rfl fun _ => OrderedMap.get?_erase ..

theorem guarded_upsertGrant {workspace : Uuid} (hhome : home workspace = tenant) (user : Uuid)
    (role : WorkspaceRole) : (upsertGrant workspace user role).Guarded (authority home) held := by
  refine Script.guarded_update fun db _ db' hdb hok => OnlyIn.respects hlock ?_
  obtain ⟨_, -, hok⟩ := Except.bind_eq_ok.mp hok
  cases hok
  refine ⟨hdb, fun other hne => upholds_grants fun id u hid _ => ?_⟩
  rw [OrderedMap.get?_insert, if_neg]
  · rfl
  · intro heq
    obtain ⟨rfl, -⟩ := Prod.mk.inj heq
    exact hne (hid.symm.trans hhome)

theorem guarded_deleteGrants {selected : Db → Uuid → Bool}
    (hselected : ∀ db id, db.Homed home → selected db id = true → home id = tenant) (user : Uuid) :
    (deleteGrants user selected).Guarded (authority home) held := by
  refine Script.guarded_update fun db _ db' hdb hok => OnlyIn.respects hlock ?_
  cases hok
  refine ⟨hdb, fun other hne => upholds_grants fun id u hid _ => ?_⟩
  have hnot : selected db id ≠ true := fun h => hne (hid.symm.trans (hselected db id hdb h))
  rw [OrderedMap.get?_filter]
  change Option.filter _ (db.grant id u) = _
  cases db.grant id u with
  | none => rfl
  | some g => simp [hnot]

theorem guarded_deleteForTenant (id : Uuid) (shred : KeyMaterial) :
    (deleteForTenant h tenant id shred).Guarded (authority home) held := by
  refine Script.Guarded.bind (Script.guarded_read _) fun time =>
    Script.Guarded.bind ?_ fun changed => Script.guarded_failIf _ _
  refine Script.guarded_update fun db n db' hdb hok => OnlyIn.respects hlock ?_
  obtain ⟨⟨keys, m⟩, hkeys, hok⟩ := Except.bind_eq_ok.mp hok
  cases hok
  refine ⟨hdb, fun other hne => upholds_updateRow (fun key hp hbacked => ?_)
    (Except.mapError_eq_ok hkeys)⟩
  simp only [Bool.and_eq_true, decide_eq_true_eq] at hp
  exact absurd (hbacked.own.symm.trans hp.1) hne

theorem guarded_revokeAll (shred : Uuid → KeyMaterial) {keys : List (Uuid × ApiKey)}
    (hkeys : ∀ e ∈ keys, e.2.tenantId = tenant) :
    (revokeAll h shred keys).Guarded (authority home) held := by
  induction keys with
  | nil => exact Script.guarded_pure ()
  | cons e keys ih =>
      obtain ⟨id, key⟩ := e
      obtain ⟨hkey, hrest⟩ := List.forall_mem_cons.mp hkeys
      refine Script.Guarded.bind ?_ fun _ => ih hrest
      rw [hkey]
      exact guarded_deleteForTenant hlock id (shred id)

theorem guarded_revokeMatching (shred : Uuid → KeyMaterial) {condition : ApiKey → Bool}
    (hcondition : ∀ key, condition key = true → key.tenantId = tenant) :
    (revokeMatching h shred condition).Guarded (authority home) held := by
  intro v _
  refine guarded_revokeAll hlock shred fun e he => ?_
  have hmatch := (List.mem_filter.mp he).2
  exact hcondition e.2 (Bool.and_eq_true_iff.mp hmatch).1

theorem guarded_disableInTransaction (shred : Uuid → KeyMaterial) :
    (disableInTransaction h shred tenant).Guarded (authority home) held := by
  refine Script.Guarded.bind (Script.guarded_read _) fun _ =>
    Script.guarded_orFail_bind fun row _ => Script.Guarded.bind ?_ fun _ =>
    guarded_revokeMatching hlock shred fun key hkey => of_decide_eq_true hkey
  unfold markDisabled
  split_ifs
  · refine Script.Guarded.bind (Script.guarded_read _) fun time =>
      Script.guarded_update fun db _ db' hdb hok => OnlyIn.respects hlock ?_
    cases hok
    refine ⟨hdb, fun other hne => { Upholds.refl db with active := fun hactive => ?_ }⟩
    rwa [active_disable hne]
  · exact Script.guarded_pure ()

end Locked

/-- What replaces a key is no matter of authority. -/
theorem guarded_replaceKey (id by_ : Uuid) :
    (updateKey id (fun _ => true) fun key => { key with replacedById := some by_ }).Guarded
      (authority home) held := by
  refine Script.guarded_update fun db n db' hdb hok => respects_of_upholds ?_ fun t => ?_
  · obtain ⟨⟨keys, m⟩, hkeys, hok⟩ := Except.bind_eq_ok.mp hok
    cases hok
    exact hdb
  · obtain ⟨⟨keys, m⟩, hkeys, hok⟩ := Except.bind_eq_ok.mp hok
    cases hok
    refine upholds_updateRow (fun key _ _ => ?_) (Except.mapError_eq_ok hkeys)
    exact ⟨⟨rfl, rfl, rfl, rfl, rfl, rfl, fun _ ht => ht⟩, rfl⟩

/-! ## Taking the lock -/

section Taking

variable {α : Type}

theorem guarded_lockMembership_bind {f : Unit → Tx α}
    (hf : ∀ u, (f u).Guarded (authority home) (membershipLock tenant :: held)) :
    (lockMembership tenant >>= f).Guarded (authority home) held :=
  Script.guarded_locked_bind rfl (quiet_lockMembership tenant) hf

theorem guarded_protectOwner_bind {user : Uuid} {next : Option MembershipRole} {f : Unit → Tx α}
    (hf : ∀ u, (f u).Guarded (authority home) (membershipLock tenant :: held)) :
    (protectOwner tenant user next >>= f).Guarded (authority home) held :=
  Script.guarded_locked_bind rfl (quiet_protectOwner tenant user next) hf

theorem guarded_requireCurrentTenantAdmin_bind {actor : AuthContext} {f : Unit → Tx α}
    (hf : ∀ u, (f u).Guarded (authority home) (membershipLock actor.tenantId :: held)) :
    (requireCurrentTenantAdmin actor >>= f).Guarded (authority home) held :=
  Script.guarded_locked_bind rfl (quiet_requireCurrentTenantAdmin actor) hf

theorem guarded_requireCurrentTenantOwner_bind {actor : AuthContext} {f : Uuid → Tx α}
    (hf : ∀ user, (f user).Guarded (authority home) (membershipLock actor.tenantId :: held)) :
    (requireCurrentTenantOwner actor >>= f).Guarded (authority home) held :=
  Script.guarded_locked_bind rfl (quiet_requireCurrentTenantOwner actor) hf

/-- The tenant of a workspace is its home. -/
theorem guarded_getWorkspaceTenant_bind {workspace : Uuid} {f : Uuid → Tx α}
    (hf : (f (home workspace)).Guarded (authority home) held) :
    (getWorkspaceTenant workspace >>= f).Guarded (authority home) held := by
  intro v hv
  refine Script.guarded_orFail_bind fun t ht => ?_
  obtain ⟨ws, hws, rfl⟩ := Option.map_eq_some_iff.mp ht
  rw [hv workspace ws hws]
  exact hf

end Taking

/-! ## Operations -/

section Operations

theorem guarded_addMemberInTransaction (t user : Uuid) (role : MembershipRole) :
    (addMemberInTransaction t user role).Guarded (authority home) held :=
  guarded_protectOwner_bind fun _ => (guarded_upsertMembership List.mem_cons_self user role)

theorem guarded_updateMemberAccess (actor : AuthContext) (user : Uuid) (role : MembershipRole) :
    (updateMemberAccess h actor user role).Guarded (authority home) held :=
  Script.Guarded.bind (quiet_requireCurrentTenantAdmin _).guarded fun _ =>
    Script.Guarded.bind (quiet_touchesOwnership _ _ _).guarded fun _ =>
    Script.Guarded.bind (quiet_requireOwnerIf _ _).guarded fun _ =>
    Script.Guarded.bind (guarded_addMemberInTransaction _ _ _) fun _ =>
    (quiet_keyAccess _ _ _).guarded

theorem guarded_removeMemberInTransaction (shred : Uuid → KeyMaterial) (t user : Uuid) :
    (removeMemberInTransaction h shred t user).Guarded (authority home) held := by
  have hlock : membershipLock t ∈ membershipLock t :: held := List.mem_cons_self
  refine guarded_protectOwner_bind fun _ => (Script.Guarded.bind (guarded_deleteGrants hlock ?_ user)
    fun _ => Script.Guarded.bind (guarded_deleteMembership hlock user) fun _ =>
      guarded_revokeMatching hlock shred fun key hkey => ?_)
  · intro db id hdb hselected
    obtain ⟨ws, hws, htenant⟩ := (Option.any_eq_true _ _).mp hselected
    rw [← hdb id ws hws]
    exact of_decide_eq_true htenant
  · exact of_decide_eq_true (Bool.and_eq_true_iff.mp hkey).1

theorem guarded_grantWorkspace (workspace user : Uuid) (role : WorkspaceRole) :
    (grantWorkspace workspace user role).Guarded (authority home) held :=
  guarded_getWorkspaceTenant_bind (guarded_lockMembership_bind fun _ =>
    (Script.Guarded.bind (quiet_getMembershipRole _ _).guarded fun _ =>
      Script.guarded_orFail_bind fun _ _ =>
      guarded_upsertGrant List.mem_cons_self rfl user role))

theorem guarded_revokeGrant (shred : Uuid → KeyMaterial) (workspace user : Uuid) :
    (revokeGrant h shred workspace user).Guarded (authority home) held := by
  have hlock : membershipLock (home workspace) ∈ membershipLock (home workspace) :: held :=
    List.mem_cons_self
  refine guarded_getWorkspaceTenant_bind (guarded_lockMembership_bind fun _ =>
    (Script.Guarded.bind (guarded_deleteGrants hlock ?_ user) fun _ =>
      Script.Guarded.bind (quiet_getMembershipRole _ _).guarded fun role => ?_))
  · intro db id _ hselected
    rw [of_decide_eq_true hselected]
  · split_ifs
    · exact Script.guarded_pure ()
    · refine guarded_revokeMatching hlock shred fun key hkey => ?_
      exact of_decide_eq_true (Bool.and_eq_true_iff.mp (Bool.and_eq_true_iff.mp hkey).1).1

theorem guarded_redeemInviteAt (token : String) (time : Instant) :
    (redeemInviteAt h token time).Guarded (authority home) held := by
  have hinvites : Script.Within (Statement h [.invites]) (redeemInviteAt h token time) :=
    within_redeemInviteAt List.mem_cons_self token time
  exact guarded_of_statement hinvites (by decide)

theorem guarded_acceptInTransaction (token : String) (user : Uuid × User) :
    (acceptInTransaction h token user).Guarded (authority home) held :=
  Script.Guarded.bind (quiet_inviteTenant token).guarded fun _ =>
    Script.Guarded.bind (quiet_lockMembership _).guarded fun _ =>
    Script.Guarded.bind (Script.guarded_read _) fun _ =>
    Script.Guarded.bind (guarded_redeemInviteAt _ _) fun _ =>
    Script.guarded_orFail_bind fun _ _ => Script.guarded_failIf_bind fun _ =>
    Script.Guarded.bind (quiet_getMembershipRole _ _).guarded fun _ =>
    Script.guarded_failIf_bind fun _ =>
    Script.Guarded.bind (guarded_addMemberInTransaction _ _ _) fun _ => Script.guarded_pure _

theorem guarded_registerUser (fresh : NewUser) (token password : String)
    (displayName : Option String) :
    (registerUser h fresh token password displayName).Guarded (authority home) held := by
  have hcreate : ∀ email, Script.Within (Statement h [.users])
      (createUser h fresh email password displayName) := fun email =>
    Script.Within.bind (within_insertUser List.mem_cons_self _ _ _) fun _ => Script.within_pure _
  refine Script.Guarded.bind (quiet_inviteTenant token).guarded fun _ =>
    Script.Guarded.bind (quiet_lockMembership _).guarded fun _ =>
    Script.Guarded.bind (Script.guarded_read _) fun _ =>
    Script.Guarded.bind (guarded_redeemInviteAt _ _) fun _ =>
    Script.guarded_orFail_bind fun invite _ => Script.Guarded.bind ?_ fun _ => Script.guarded_pure _
  exact Script.Guarded.bind (guarded_of_statement (hcreate _) (by decide)) fun _ =>
    Script.Guarded.bind (guarded_addMemberInTransaction _ _ _) fun _ => Script.guarded_pure _

theorem guarded_rotate (fresh : NewKey) (shred : KeyMaterial) (actor : AuthContext) (id : Uuid) :
    (rotate h fresh shred actor id).Guarded (authority home) held := by
  have hstore : ∀ row : Instant → ApiKey, (∀ time, (row time).revokedAt = none) →
      (storeKey fresh row).Guarded (authority home) (membershipLock actor.tenantId :: held) := by
    intro row hrow
    have hkeys : Script.Within (Statement h [.newKey fresh.id]) (storeKey fresh row) :=
      within_storeKey List.mem_cons_self hrow
    refine guarded_of_statement hkeys fun p hp => ?_
    rw [List.mem_singleton.mp hp]
    rfl
  refine guarded_requireCurrentTenantAdmin_bind fun _ => (Script.Guarded.bind (Script.guarded_read _)
    fun _ => Script.guarded_orFail_bind fun old _ =>
    Script.Guarded.bind (Script.guarded_read _) fun _ => Script.guarded_failIf_bind fun _ =>
    Script.Guarded.bind (Script.guarded_read _) fun _ => Script.guarded_orFail_bind fun issuer _ =>
    Script.guarded_failIf_bind fun _ =>
    Script.Guarded.bind (quiet_currentContext _).guarded fun _ =>
    Script.Guarded.bind (quiet_requireKeyGrant _ _ _).guarded fun _ =>
    Script.guarded_failIf_bind fun _ =>
    Script.Guarded.bind (quiet_requireAttributedKeyGrant _ _ _).guarded fun _ =>
    Script.Guarded.bind (quiet_requireBoundGrant _ _ _ _ _ _).guarded fun _ => ?_)
  exact Script.Guarded.bind (hstore _ fun _ => rfl) fun key =>
    Script.Guarded.bind (guarded_deleteForTenant List.mem_cons_self _ _) fun _ =>
    Script.Guarded.bind (guarded_replaceKey id fresh.id) fun _ =>
    Script.Guarded.bind (quiet_grantMetadata key).guarded fun _ => Script.guarded_pure _

theorem guarded_revokeForTenant (actor : AuthContext) (id : Uuid) (shred : KeyMaterial) :
    (revokeForTenant h actor id shred).Guarded (authority home) held :=
  guarded_requireCurrentTenantAdmin_bind fun _ => guarded_deleteForTenant List.mem_cons_self _ _

theorem guarded_revoke (id : Uuid) (shred : KeyMaterial) :
    (revoke h id shred).Guarded (authority home) held :=
  Script.Guarded.bind (Script.guarded_read _) fun _ =>
    Script.guarded_orFail_bind fun _ _ => guarded_lockMembership_bind fun _ =>
      guarded_deleteForTenant List.mem_cons_self _ _

theorem guarded_addMemberByEmail (actor : AuthContext) (email : String) (role : MembershipRole) :
    (addMemberByEmail h actor email role).Guarded (authority home) held :=
  Script.Guarded.bind (quiet_requireTenantAdmin _ _).guarded fun _ =>
    Script.Guarded.bind (Script.guarded_read _) fun _ => Script.guarded_orFail_bind fun _ _ =>
    Script.Guarded.bind (guarded_updateMemberAccess _ _ _) fun _ => Script.guarded_pure _

theorem guarded_transferOwnership (actor : AuthContext) (successor : Uuid) :
    (transferOwnership actor successor).Guarded (authority home) held :=
  Script.Guarded.bind (quiet_requireCurrentTenantAdmin _).guarded fun _ =>
    Script.guarded_orFail_bind fun _ _ =>
    Script.Guarded.bind (quiet_getMembershipRole _ _).guarded fun _ =>
    Script.guarded_failIf_bind fun _ => Script.guarded_failIf_bind fun _ =>
    Script.Guarded.bind (quiet_getMembershipRole _ _).guarded fun _ =>
    Script.guarded_orFail_bind fun _ _ =>
    Script.Guarded.bind (guarded_addMemberInTransaction _ _ _) fun _ =>
    guarded_addMemberInTransaction _ _ _

theorem guarded_removeMemberAs (shred : Uuid → KeyMaterial) (actor : AuthContext) (user : Uuid) :
    (removeMemberAs h shred actor user).Guarded (authority home) held :=
  Script.Guarded.bind (quiet_requireCurrentTenantAdmin _).guarded fun _ =>
    Script.Guarded.bind (quiet_getMembershipRole _ _).guarded fun _ =>
    Script.Guarded.bind (quiet_requireOwnerIf _ _).guarded fun _ =>
    guarded_removeMemberInTransaction _ _ _

theorem guarded_acceptExistingUser (token email password : String) :
    (acceptExistingUser h token email password).Guarded (authority home) held :=
  Script.Guarded.bind (Script.guarded_read _) fun _ => Script.guarded_orFail_bind fun _ _ =>
    Script.Guarded.bind (guarded_acceptInTransaction _ _) fun _ => Script.guarded_pure _

theorem guarded_acceptAuthenticatedUser (actor : AuthContext) (token : String) :
    (acceptAuthenticatedUser h actor token).Guarded (authority home) held :=
  Script.Guarded.bind (quiet_inviteTenant token).guarded fun _ =>
    Script.Guarded.bind (quiet_lockMembership _).guarded fun _ =>
    Script.Guarded.bind (quiet_lockMembership _).guarded fun _ =>
    Script.Guarded.bind (quiet_currentContext actor).guarded fun _ =>
    Script.guarded_orFail_bind fun _ _ => Script.Guarded.bind (Script.guarded_read _) fun _ =>
    Script.guarded_orFail_bind fun _ _ =>
    Script.Guarded.bind (guarded_acceptInTransaction _ _) fun _ => Script.guarded_pure _

theorem guarded_disableAs (shred : Uuid → KeyMaterial) (actor : AuthContext) (confirmed : Uuid) :
    (disableAs h shred actor confirmed).Guarded (authority home) held := by
  unfold disableAs
  split_ifs
  · trivial
  · exact guarded_requireCurrentTenantOwner_bind fun _ =>
      guarded_disableInTransaction List.mem_cons_self _

theorem guarded_disableByOperator (shred : Uuid → KeyMaterial) (tenant confirmed : Uuid) :
    (disableByOperator h shred tenant confirmed).Guarded (authority home) held := by
  unfold disableByOperator
  split_ifs
  · trivial
  · exact guarded_lockMembership_bind fun _ => guarded_disableInTransaction List.mem_cons_self _

/-- **Every operation changes authority under the lock only.** -/
theorem guarded_op (op : Op) : (op.code h).Guarded (authority home) held := by
  by_cases hparts : op.writes.any Part.isAuthority = true
  case neg =>
    -- an operation on other parts is no matter of any tenant's authority
    refine guarded_of_statement (op_within op) fun p hp => ?_
    rw [Bool.not_eq_true, List.any_eq_false] at hparts
    exact Bool.eq_false_of_not_eq_true (hparts p hp)
  cases op with
  | rotate fresh shred actor id =>
      exact Script.Guarded.bind (guarded_rotate _ _ _ _) fun _ => Script.guarded_pure _
  | revokeForTenant actor id shred =>
      exact Script.Guarded.bind (guarded_revokeForTenant _ _ _) fun _ => Script.guarded_pure _
  | revoke id shred =>
      exact Script.Guarded.bind (guarded_revoke _ _) fun _ => Script.guarded_pure _
  | addMember tenant user role =>
      exact Script.Guarded.bind (guarded_addMemberInTransaction _ _ _) fun _ => Script.guarded_pure _
  | addMemberByEmail actor email role =>
      exact Script.Guarded.bind (guarded_addMemberByEmail _ _ _) fun _ => Script.guarded_pure _
  | updateMemberAccess actor user role =>
      exact Script.Guarded.bind (guarded_updateMemberAccess _ _ _) fun _ => Script.guarded_pure _
  | transferOwnership actor successor =>
      exact Script.Guarded.bind (guarded_transferOwnership _ _) fun _ => Script.guarded_pure _
  | removeMember shred tenant user =>
      exact Script.Guarded.bind (guarded_removeMemberInTransaction _ _ _) fun _ =>
        Script.guarded_pure _
  | removeMemberAs shred actor user =>
      exact Script.Guarded.bind (guarded_removeMemberAs _ _ _) fun _ => Script.guarded_pure _
  | grantWorkspace workspace user role =>
      exact Script.Guarded.bind (guarded_grantWorkspace _ _ _) fun _ => Script.guarded_pure _
  | grantAs actor workspace user role =>
      exact Script.Guarded.bind (Script.Guarded.bind
        (quiet_requireCurrentWorkspaceAdmin _ _).guarded fun _ => guarded_grantWorkspace _ _ _)
        fun _ => Script.guarded_pure _
  | revokeGrant shred workspace user =>
      exact Script.Guarded.bind (guarded_revokeGrant _ _ _) fun _ => Script.guarded_pure _
  | revokeAs shred actor workspace user =>
      exact Script.Guarded.bind (Script.Guarded.bind
        (quiet_requireCurrentWorkspaceAdmin _ _).guarded fun _ => guarded_revokeGrant _ _ _)
        fun _ => Script.guarded_pure _
  | acceptExistingUser token email password =>
      exact Script.Guarded.bind (guarded_acceptExistingUser _ _ _) fun _ => Script.guarded_pure _
  | acceptAuthenticatedUser actor token =>
      exact Script.Guarded.bind (guarded_acceptAuthenticatedUser _ _) fun _ =>
        Script.guarded_pure _
  | registerUser fresh token password displayName =>
      exact Script.Guarded.bind (guarded_registerUser _ _ _ _) fun _ => Script.guarded_pure _
  | disableAs shred actor confirmed =>
      exact Script.Guarded.bind (guarded_disableAs _ _ _) fun _ => Script.guarded_pure _
  | disableByOperator shred tenant confirmed =>
      exact Script.Guarded.bind (guarded_disableByOperator _ _ _) fun _ => Script.guarded_pure _
  | _ => simp [Op.writes, Part.isAuthority] at hparts

end Operations

/-! ## Deletions -/

/-- A transaction that row locks keep from interleaving with others, as one statement. -/
def atomically {α : Type} (p : Tx α) : Tx α := .update p.alone

/-- The transaction of a deletion. That of a user locks the user's row, for which whoever stores a
membership or a key of the user waits. -/
def Deletion.locked (h : Externals) : Deletion → Tx Unit
  | .user shred id confirmed => atomically (deleteUser h shred id confirmed)
  | d => d.code h

/-- A filter that every row of interest passes. -/
theorem filter_self {α : Type} {o : Option α} {p : α → Bool} (hp : ∀ a, o = some a → p a = true) :
    o.filter p = o := by
  cases o with
  | none => rfl
  | some a => exact if_pos (hp a rfl)

theorem OnlyIn.trans {u v w : Db} (huv : OnlyIn home tenant u v) (hvw : OnlyIn home tenant v w) :
    OnlyIn home tenant u w :=
  ⟨hvw.homed, fun other hne => (huv.others other hne).trans (hvw.others other hne)⟩

/-- Workspaces of one tenant are no matter of the others. -/
theorem onlyIn_withoutWorkspaces (hdb : db.Homed home) {selected : Uuid → Bool}
    (hselected : ∀ id, selected id = true → home id = tenant) :
    OnlyIn home tenant db (db.withoutWorkspaces selected) where
  homed := fun id ws hws => by
    simp only [Db.withoutWorkspaces, OrderedMap.get?_filter] at hws
    exact hdb id ws (Option.filter_eq_some_iff.mp hws).1
  others := fun other hne => by
    have hspared : ∀ id, home id = other → selected id = false := fun id hid =>
      Bool.eq_false_of_not_eq_true fun h => hne (hid.symm.trans (hselected id h))
    have hrefl : Upholds home other db db := .refl db
    refine { hrefl with workspace := ?_, grant := ?_, key := ?_ }
    · intro id ws hws htenant
      have hid : home id = other := (hdb id ws hws).symm.trans htenant
      simp only [Db.withoutWorkspaces, OrderedMap.get?_filter]
      rw [hws, Option.filter_some, hspared id hid]
      rfl
    · intro id user hid _
      simp only [Db.grant, Db.withoutWorkspaces, OrderedMap.get?_filter]
      refine filter_self fun g _ => ?_
      change (!selected id) = true
      rw [hspared id hid]
      rfl
    · intro id key hkey hbacked
      refine ⟨key, ?_, .refl key, rfl⟩
      simp only [Db.withoutWorkspaces, Table.get?_deleteWhere]
      rw [hkey, Option.filter_some, if_pos]
      cases hbound : key.workspaceId with
      | none => rfl
      | some workspace =>
          rw [Option.any_some, hspared workspace (hbacked.workspace workspace hbound)]
          rfl

theorem onlyIn_withoutTenant (hdb : db.Homed home) :
    OnlyIn home tenant db (db.withoutTenant tenant) where
  homed := hdb
  others := fun other hne => by
    have hrefl : Upholds home other db db := .refl db
    refine { hrefl with active := ?_, role := ?_, key := ?_ }
    · intro hactive
      unfold Db.active Db.withoutTenant at *
      rwa [OrderedMap.get?_erase, if_neg hne]
    · intro user
      simp only [Db.role, Db.withoutTenant, OrderedMap.get?_filter]
      exact filter_self fun _ _ => decide_eq_true hne
    · intro id key hkey hbacked
      refine ⟨key, ?_, .refl key, rfl⟩
      simp only [Db.withoutTenant, Table.get?_deleteWhere]
      rw [hkey, Option.filter_some, if_pos]
      simpa [hbacked.own] using hne

/-- A user without memberships is no matter of any tenant, and neither are the user's keys. -/
theorem upholds_deleteUser {shred : Uuid → KeyMaterial} {user confirmed : Uuid} {r : Unit}
    (hok : (deleteUser h shred user confirmed).alone db = .ok (r, db')) :
    db'.workspaces = db.workspaces ∧ ∀ t, Upholds home t db db' := by
  unfold deleteUser at hok
  split_ifs at hok
  · cases hok
  rw [Script.alone_read_bind] at hok
  obtain ⟨row, -, hok⟩ := Script.alone_orFail_bind_eq_ok.mp hok
  rw [Script.alone_read_bind] at hok
  obtain ⟨hmember, hok⟩ := Script.alone_failIf_bind_eq_ok.mp hok
  obtain ⟨_, db₁, hrevoke, hok⟩ := Script.alone_bind_eq_ok.mp hok
  have hrevokes := revokeMatching_eq_ok hrevoke
  have hrest := hrevokes.rest
  rw [Script.alone_update] at hok
  obtain ⟨⟨keys, n⟩, hkeys, hok⟩ := Except.bind_eq_ok.mp hok
  cases hok
  have hnone : ∀ t, db.role t user = none := fun t => by
    by_contra hsome
    obtain ⟨role, hrole⟩ := Option.ne_none_iff_exists'.mp hsome
    refine hmember (List.any_eq_true.mpr ⟨(toLex (t, user), role), ?_, decide_eq_true rfl⟩)
    exact (OrderedMap.mem_entries_iff db.memberships _ _).mpr hrole
  have hmemberships : db₁.memberships = db.memberships := by rw [hrest]
  have hgrants : db₁.grants = db.grants := by rw [hrest]
  refine ⟨?_, fun t => ?_⟩
  · change db₁.workspaces = db.workspaces
    rw [hrest]
  have hclock : db₁.clock = db.clock := by rw [hrest]
  have htenants : db₁.tenants = db.tenants := by rw [hrest]
  have hworkspaces : db₁.workspaces = db.workspaces := by rw [hrest]
  -- who has a role is somebody else
  have hother : ∀ u, (db.role t u).isSome = true → u ≠ user := by
    rintro u hu rfl
    rw [hnone t] at hu
    cases hu
  refine ⟨hclock.ge, ?_, ?_, ?_, ?_, ?_⟩
  · intro hactive
    unfold Db.active at hactive ⊢
    change (db₁.tenants.get? t).any _ = true
    rwa [htenants]
  · intro u
    simp only [Db.role, Db.withoutUser, OrderedMap.get?_filter, hmemberships]
    refine filter_self fun role hrole => decide_eq_true ?_
    exact hother u (Option.isSome_of_eq_some hrole)
  · intro id ws hws _
    change db₁.workspaces.get? id = some ws
    rwa [hworkspaces]
  · intro id u _ hu
    simp only [Db.grant, Db.withoutUser, OrderedMap.get?_filter, hgrants]
    exact filter_self fun _ _ => decide_eq_true (hother u hu)
  · intro id key hkey hbacked
    have huser : key.userId ≠ some user := fun hid => hother user (hbacked.user user hid) rfl
    have hspared : id ∉ db.unrevokedIds fun key => decide (key.userId = some user) := by
      intro hmem
      obtain ⟨key', hkey', hselected, -⟩ := Db.mem_unrevokedIds.mp hmem
      obtain rfl : key = key' := Option.some.inj (hkey.symm.trans hkey')
      exact huser (of_decide_eq_true hselected)
    refine ⟨key, ?_, .refl key, rfl⟩
    change keys.get? id = some key
    rw [Table.get?_updateWhere (Except.mapError_eq_ok hkeys), hrevokes.row id, hkey,
      Option.map_some, if_neg hspared, Option.map_some, if_neg (by simpa using huser)]

theorem guarded_deleteWorkspaceAs (forked : Bool) (actor : AuthContext) (workspace : Uuid) :
    (deleteWorkspaceAs forked actor workspace).Guarded (authority home) held := by
  refine guarded_requireCurrentTenantAdmin_bind fun _ => guarded_getWorkspaceTenant_bind
    (Script.guarded_failIf_bind fun hhome => ?_)
  have hlock : membershipLock actor.tenantId ∈ membershipLock actor.tenantId :: held :=
    List.mem_cons_self
  refine Script.Guarded.bind (Script.guarded_read _) fun _ => Script.guarded_orFail_bind fun row _ =>
    Script.Guarded.bind (Script.guarded_acquire _) fun _ =>
    Script.Guarded.bind (Script.guarded_read _) fun _ => Script.guarded_failIf_bind fun _ =>
    Script.guarded_failIf_bind fun _ => Script.guarded_update fun db _ db' hdb hok => ?_
  cases hok
  refine OnlyIn.respects hlock (onlyIn_withoutWorkspaces hdb fun id hid => ?_)
  rw [of_decide_eq_true hid]
  exact not_not.mp hhome

theorem guarded_deleteTenant (retired forked : Bool) (t confirmed : Uuid) :
    (deleteTenant retired forked t confirmed).Guarded (authority home) held := by
  by_cases hrefused : t ≠ confirmed ∨ t = infrastructureTenantId
  · rw [deleteTenant, if_pos hrefused]
    trivial
  rw [deleteTenant, if_neg hrefused]
  have hlock : ∀ held : List String, membershipLock t ∈ membershipLock t :: held :=
    fun _ => List.mem_cons_self
  refine Script.guarded_lock (guarded_lockMembership_bind fun _ =>
    Script.Guarded.bind (Script.guarded_read _) fun row => ?_)
  cases row with
  | none =>
      dsimp only
      split_ifs
      · exact Script.guarded_pure ()
      · trivial
  | some row =>
      refine Script.guarded_failIf_bind fun _ => Script.guarded_failIf_bind fun _ =>
        Script.guarded_update fun db _ db' hdb hok => ?_
      cases hok
      -- the workspaces go first, then the tenant itself
      have hspaces : OnlyIn home t db (db.withoutWorkspaces fun id =>
          (db.workspaces.get? id).any fun ws => decide (ws.tenantId = t)) :=
        onlyIn_withoutWorkspaces hdb fun id hid => by
          obtain ⟨ws, hws, htenant⟩ := (Option.any_eq_true _ _).mp hid
          rw [← hdb id ws hws]
          exact of_decide_eq_true htenant
      exact OnlyIn.respects (hlock _) (hspaces.trans (onlyIn_withoutTenant hspaces.homed))

/-- **Every deletion changes authority under the lock only**, or that of nobody. -/
theorem guarded_deletion (d : Deletion) : (d.locked h).Guarded (authority home) held := by
  cases d with
  | workspace forked actor id => exact guarded_deleteWorkspaceAs forked actor id
  | user shred id confirmed =>
      refine Script.guarded_update fun db _ db' hdb hok => ?_
      obtain ⟨hworkspaces, hall⟩ := upholds_deleteUser hok
      refine respects_of_upholds ?_ hall
      unfold Db.Homed
      rw [hworkspaces]
      exact hdb
  | tenant retired forked id confirmed => exact guarded_deleteTenant retired forked id confirmed

/-! ## Setup -/

/-- The ids of new workspaces are given out to their home tenants. -/
def Setup.Homed (home : Uuid → Uuid) : Setup → Prop
  | .workspace id row => row.tenantId = home id
  | _ => True

/-- What goes on besides concerns no tenant that is there. -/
theorem respects_setup {s : Setup} (hs : s.Homed home) (hdb : db.Homed home) :
    (authority home).Respects held db (s.apply db) := by
  -- rows are only added, so what was there is there afterwards
  have hadds := s.apply_adds db
  refine respects_of_upholds (fun id ws hws => ?_) fun t => ⟨hadds.clock, fun hactive => ?_,
    fun user => ?_, fun id ws hws _ => hadds.workspaces id ws hws, fun id user _ _ => ?_,
    fun id key hkey _ => ⟨key, ?_, .refl key, rfl⟩⟩
  · cases s with
    | tick n => exact hdb id ws hws
    | tenant id' name =>
        simp only [Setup.apply] at hws
        split_ifs at hws
        · exact hdb id ws hws
        · exact hdb id ws hws
    | user id' row =>
        simp only [Setup.apply] at hws
        split at hws
        · exact hdb id ws hws
        · exact hdb id ws hws
    | workspace id' row =>
        simp only [Setup.apply] at hws
        split_ifs at hws
        · exact hdb id ws hws
        · rcases OrderedMap.get?_insert_eq_some hws with ⟨rfl, rfl⟩ | ⟨-, hold⟩
          · exact hs
          · exact hdb id ws hold
  · obtain ⟨row, hrow, hdisabled⟩ := Db.active_iff.mp hactive
    exact Db.active_iff.mpr ⟨row, hadds.tenants t row hrow, hdisabled⟩
  · unfold Db.role
    rw [hadds.memberships]
  · unfold Db.grant
    rw [hadds.grants]
  · rwa [hadds.keys]

end Yorishiro.Tenancy
