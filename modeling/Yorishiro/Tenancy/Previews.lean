import Yorishiro.Tenancy.Coherence
import Yorishiro.Tenancy.LastOwner

/-!
# Previews say what happens

An administrator can ask what a removal or a role change would do before an owner does it. The
previews have their own code: they recount owners, search keys and list workspaces, where the
operations change rows and later requests are judged by what is stored then.

Both sides are computed here (`previewRemoval_eq_ok`, `alone_removeMemberAs`,
`previewRoleChange_eq_ok`, `alone_updateMemberAccess`) and compared: in every database that is
reached, a preview is answered, and what a preview of a removal says is what the removal does.
The preview of a role change leaves the search for unexpired keys to the database, and SQLite
compares the text of an expiry in the client's zone with the time in UTC: `previews_foresee_iff`
says when it finds every key that authentication still accepts.
-/

set_option autoImplicit false

namespace Yorishiro.Tenancy

open Yorishiro.Lib
open Yorishiro.Lib.Fence
open Yorishiro.Lib.Transition
open Yorishiro.Queue (Instant)

/-! ## What previews are about -/

/-- The user can access the workspace. -/
def Db.CanAccess (db : Db) (user workspace : Uuid) : Prop :=
  ∃ tenant, (db.access tenant workspace user).isSome = true

/-- The digests that revocations draw are of keys nobody has. -/
structure Db.ShredsFresh (h : Externals) (shred : Uuid → KeyMaterial) (db : Db) : Prop where
  distinct : ∀ id id', h.hashKey (generateKey (shred id)).2 = h.hashKey (generateKey (shred id')).2 →
    id = id'
  unused : ∀ id id' key, db.keys.get? id' = some key →
    key.keyHash ≠ h.hashKey (generateKey (shred id)).2

/-- The preview says what happens when the owner removes the user. -/
structure MembershipRemovalPreview.Foresees (h : Externals) (shred : Uuid → KeyMaterial)
    (owner : AuthContext) (user : Uuid) (db : Db) (preview : MembershipRemovalPreview) : Prop where
  blocked : preview.blockedByLastOwner = true ↔
    (removeMemberAs h shred owner user).alone db = .error lastOwnerConflict
  succeeds : preview.blockedByLastOwner = false → db.ShredsFresh h shred →
    ∃ db', (removeMemberAs h shred owner user).alone db = .ok ((), db')
  revoked : ∀ db', (removeMemberAs h shred owner user).alone db = .ok ((), db') → ∀ id,
    id ∈ preview.revokedApiKeyIds ↔ ¬db.RevokedKey id ∧ db'.RevokedKey id
  lost : ∀ db', (removeMemberAs h shred owner user).alone db = .ok ((), db') → ∀ workspace,
    workspace ∈ preview.lostWorkspaceIds ↔
      db.CanAccess user workspace ∧ ¬db'.CanAccess user workspace

/-- The preview says what happens when the owner changes the user's role. For an active key that
is bound to a workspace, it has the scope that authentication with the key gives afterwards. -/
structure MembershipRolePreview.Foresees (h : Externals) (owner : AuthContext) (user : Uuid)
    (role : MembershipRole) (db : Db) (preview : MembershipRolePreview) : Prop where
  blocked : preview.blockedByLastOwner = true ↔
    (updateMemberAccess h owner user role).alone db = .error lastOwnerConflict
  succeeds : preview.blockedByLastOwner = false →
    ∃ keys db', (updateMemberAccess h owner user role).alone db = .ok (keys, db')
  lost : ∀ keys db', (updateMemberAccess h owner user role).alone db = .ok (keys, db') →
    ∀ workspace, workspace ∈ preview.lostWorkspaceIds ↔
      db.CanAccess user workspace ∧ ¬db'.CanAccess user workspace
  scopes : ∀ keys db', (updateMemberAccess h owner user role).alone db = .ok (keys, db') →
    ∀ id key workspace, db.keys.get? id = some key → key.attributedTo owner.tenantId user = true →
      key.isActive db.clock = true → key.workspaceId = some workspace → ∀ scope,
        (∃ e ∈ preview.keys, e.apiKeyId = id ∧ e.effectiveScope = scope) ↔
          scope = (db'.current (key.identity id workspace)).map (·.scope)

/-- The database's search for unexpired keys finds every active key of the user that is bound to a
workspace. -/
def Db.ListsActive (h : Externals) (db : Db) (tenant user : Uuid) : Prop :=
  ∀ id key workspace, db.keys.get? id = some key → key.attributedTo tenant user = true →
    key.isActive db.clock = true → key.workspaceId = some workspace →
      key.listed (h.expiryZone id) db.clock = true

/-- PostgreSQL compares instants. -/
theorem Db.listsActive_of_instants {h : Externals} {db : Db} {tenant user : Uuid}
    (hnone : ∀ id, h.expiryZone id = none) : db.ListsActive h tenant user := by
  intro id key workspace _ _ hactive _
  rw [hnone, ApiKey.listed_none]
  exact hactive

/-! ## The last owner -/

/-- The user is the tenant's only owner. -/
def Db.lastOwner (db : Db) (tenant user : Uuid) : Bool :=
  decide (db.role tenant user = some .owner) && decide (db.owners tenant ≤ 1)

section Owners

variable {db : Db} {tenant user : Uuid}

@[simp] theorem alone_losesLastOwner (next : Option MembershipRole) :
    (losesLastOwner tenant user next).alone db =
      .ok (decide (next ≠ some .owner) && db.lastOwner tenant user, db) := by
  unfold losesLastOwner lockMembership Db.lastOwner
  rw [Script.alone_acquire_bind]
  split_ifs with hnext
  · simp [hnext]
  · rw [getMembershipRole, Script.alone_read_bind]
    split_ifs with hrole
    · simp [hrole]
    · simp [hnext, not_not.mp hrole]

theorem alone_protectOwner (next : Option MembershipRole) :
    (protectOwner tenant user next).alone db =
      if (decide (next ≠ some .owner) && db.lastOwner tenant user) = true then
        .error lastOwnerConflict
      else .ok ((), db) := by
  unfold protectOwner
  simp only [Script.alone_bind, alone_losesLastOwner, Except.bind]
  unfold Script.failIf
  split_ifs
  · rfl
  · rfl

theorem requireOwnerIf_of_owner {owner : AuthContext} (howner : db.OwnerActor owner)
    (ownership : Prop) [Decidable ownership] :
    (requireOwnerIf ownership owner).alone db = .ok ((), db) := by
  obtain ⟨hadmin, u, hu, hrole⟩ := howner
  unfold requireOwnerIf
  split_ifs
  · exact Script.alone_bind_eq_ok.mpr
      ⟨u, db, requireCurrentTenantOwner_eq_ok.mpr ⟨⟨hadmin, hu, hrole⟩, rfl⟩, rfl⟩
  · rfl

/-- Who acts for a tenant acts for an active one. -/
theorem Db.AdminActor.active {actor : AuthContext} (hactor : db.AdminActor actor) :
    db.active actor.tenantId = true := by
  obtain ⟨c, u, hcurrent, -⟩ := hactor
  obtain ⟨key, -, hbacks, hworth⟩ := current_eq_some hcurrent
  obtain ⟨-, htenant, -⟩ := ApiKey.backs_iff.mp hbacks
  rw [← htenant]
  by_contra hinactive
  simp [Db.worth, ApiKey.identity, hinactive] at hworth

end Owners

/-! ## Access -/

section Access

variable {db db' : Db} {tenant user workspace : Uuid}

theorem Db.accessForRole_congr (hgrant : db'.grant workspace user = db.grant workspace user)
    (role : MembershipRole) :
    db'.accessForRole workspace user role = db.accessForRole workspace user role := by
  unfold Db.accessForRole
  rw [hgrant]

/-- What access depends on. -/
theorem Db.access_congr (hworkspaces : db'.workspaces = db.workspaces)
    (htenants : db'.tenants = db.tenants) (hrole : db'.role tenant user = db.role tenant user)
    (hgrant : ∀ ws, db.workspaces.get? workspace = some ws → ws.tenantId = tenant →
      db'.grant workspace user = db.grant workspace user) :
    db'.access tenant workspace user = db.access tenant workspace user := by
  unfold Db.access Db.active
  rw [hworkspaces, htenants, hrole]
  cases hws : db.workspaces.get? workspace with
  | none => rfl
  | some ws =>
      by_cases htenant : ws.tenantId = tenant
      · rw [funext (Db.accessForRole_congr (hgrant ws hws htenant))]
      · simp [htenant]

/-- Nobody accesses a workspace for another tenant than its own. -/
theorem Db.access_isSome_tenant {ws : Workspace} (hws : db.workspaces.get? workspace = some ws)
    (haccess : (db.access tenant workspace user).isSome = true) : ws.tenantId = tenant := by
  obtain ⟨access, haccess⟩ := Option.isSome_iff_exists.mp haccess
  obtain ⟨⟨ws', hws', htenant⟩, -⟩ := Db.access_eq_some.mp haccess
  rw [hws] at hws'
  cases hws'
  exact htenant

theorem Db.canAccess_iff {ws : Workspace} (hws : db.workspaces.get? workspace = some ws) :
    db.CanAccess user workspace ↔ (db.access ws.tenantId workspace user).isSome = true := by
  refine ⟨?_, fun haccess => ⟨ws.tenantId, haccess⟩⟩
  rintro ⟨t, haccess⟩
  rw [Db.access_isSome_tenant hws haccess]
  exact haccess

theorem listWorkspacesForUser_eq_ok (db : Db) (user : Uuid) :
    ∃ ids, (listWorkspacesForUser user).alone db = .ok (ids, db) ∧
      ∀ workspace, workspace ∈ ids ↔ db.CanAccess user workspace := by
  obtain ⟨ms, cs, hrun, hlists⟩ := loginOptions_eq_ok db user
  refine ⟨cs.map (·.workspaceId), Script.alone_bind_eq_ok.mpr ⟨(ms, cs), db, hrun, rfl⟩,
    fun workspace => ?_⟩
  simp only [Db.CanAccess, ← hlists.mem_iff, List.mem_map, Prod.mk.injEq]
  constructor
  · rintro ⟨c, hc, hid⟩
    exact ⟨c.tenantId, c, hc, hid, rfl⟩
  · rintro ⟨_, c, hc, hid, -⟩
    exact ⟨c, hc, hid⟩

theorem mem_tenantWorkspaces {ids : List Uuid}
    (hids : ∀ workspace, workspace ∈ ids ↔ db.CanAccess user workspace) :
    workspace ∈ tenantWorkspaces tenant ids db ↔
      (db.access tenant workspace user).isSome = true := by
  simp only [tenantWorkspaces, List.mem_map, List.mem_filter, Bool.and_eq_true, decide_eq_true_eq,
    List.contains_iff_mem, hids]
  constructor
  · rintro ⟨⟨id, ws⟩, ⟨hmem, rfl, haccess⟩, rfl⟩
    exact (Db.canAccess_iff ((OrderedMap.mem_entries_iff db.workspaces _ _).mp hmem)).mp haccess
  · intro haccess
    obtain ⟨access, hsome⟩ := Option.isSome_iff_exists.mp haccess
    obtain ⟨⟨ws, hws, htenant⟩, -⟩ := Db.access_eq_some.mp hsome
    exact ⟨(workspace, ws), ⟨(OrderedMap.mem_entries_iff db.workspaces _ _).mpr hws, htenant,
      tenant, haccess⟩, rfl⟩

/-- **What a change in one tenant loses.** Where nothing changes for workspaces of other tenants,
the workspaces lost are those of the tenant that were accessible and are no longer. -/
theorem lost_iff (hworkspaces : db'.workspaces = db.workspaces)
    (hothers : ∀ t w, t ≠ tenant → db'.access t w user = db.access t w user) :
    db.CanAccess user workspace ∧ ¬db'.CanAccess user workspace ↔
      (db.access tenant workspace user).isSome = true ∧
        db'.access tenant workspace user = none := by
  constructor
  · rintro ⟨⟨t, haccess⟩, hnot⟩
    have htenant : t = tenant := by
      by_contra hne
      rw [← hothers t workspace hne] at haccess
      exact hnot ⟨t, haccess⟩
    subst htenant
    exact ⟨haccess, Option.not_isSome_iff_eq_none.mp fun hafter => hnot ⟨t, hafter⟩⟩
  · rintro ⟨haccess, hnone⟩
    refine ⟨⟨tenant, haccess⟩, ?_⟩
    rintro ⟨t, hafter⟩
    obtain ⟨access, hsome⟩ := Option.isSome_iff_exists.mp haccess
    obtain ⟨⟨ws, hws, rfl⟩, -⟩ := Db.access_eq_some.mp hsome
    rw [← Db.access_isSome_tenant (hworkspaces ▸ hws) hafter, hnone] at hafter
    cases hafter

end Access

/-! ## Removals -/

section Removal

variable {h : Externals} {shred : Uuid → KeyMaterial} {db db' : Db} {user : Uuid}

theorem deleteForTenant_fresh {id : Uuid} {key : ApiKey} (hkey : db.keys.get? id = some key)
    (hrevoked : key.revokedAt = none)
    (hfresh : ∀ id' key', db.keys.get? id' = some key' →
      key'.keyHash ≠ h.hashKey (generateKey (shred id)).2) :
    ∃ db', (deleteForTenant h key.tenantId id (shred id)).alone db = .ok ((), db') := by
  rw [deleteForTenant, now, Script.alone_read_bind]
  simp only [Script.alone_bind, updateKey, Script.alone_update]
  cases hupdate : db.keys.updateRow id
      (fun row => decide (row.tenantId = key.tenantId) && row.revokedAt.isNone)
      fun row => { row with
        revokedAt := some db.clock, keyHash := h.hashKey (generateKey (shred id)).2 } with
  | error e =>
      -- the drawn digest would be that of a stored key
      obtain ⟨-, row, other, row', -, -, -, hother, hclash⟩ := Table.updateRow_eq_error hupdate
      simp only [ApiKey.clash, decide_eq_true_eq] at hclash
      exact absurd (hclash.elim Eq.symm fun heq => heq) (hfresh other row' hother)
  | ok r =>
      rcases Table.updateRow_eq_ok hupdate with ⟨row, -, -, hone, -⟩ | ⟨hnone, -, -⟩
      · refine ⟨{ db with keys := r.1 }, ?_⟩
        obtain ⟨keys, n⟩ := r
        subst hone
        rfl
      · simp [hkey, hrevoked] at hnone

theorem revokeAll_fresh {keys : List (Uuid × ApiKey)} (hnodup : (keys.map Prod.fst).Nodup)
    (hstored : ∀ e ∈ keys, db.keys.get? e.1 = some e.2 ∧ e.2.revokedAt = none)
    (hdistinct : ∀ id id', h.hashKey (generateKey (shred id)).2 =
      h.hashKey (generateKey (shred id')).2 → id = id')
    (hfresh : ∀ e ∈ keys, ∀ id key, db.keys.get? id = some key →
      key.keyHash ≠ h.hashKey (generateKey (shred e.1)).2) :
    ∃ db', (revokeAll h shred keys).alone db = .ok ((), db') := by
  -- over the keys that are left, from the database the others have left
  induction keys generalizing db with
  | nil => exact ⟨db, rfl⟩
  | cons e keys ih =>
      obtain ⟨id, key⟩ := e
      obtain ⟨hnot, htail⟩ := List.nodup_cons.mp hnodup
      obtain ⟨hkey, hrevoked⟩ := hstored _ List.mem_cons_self
      obtain ⟨db₁, hfirst⟩ := deleteForTenant_fresh hkey hrevoked (hfresh _ List.mem_cons_self)
      obtain ⟨row, hrow, -, hreplaces, -⟩ := deleteForTenant_eq_ok hfirst
      have hne : ∀ e ∈ keys, e.1 ≠ id := by
        rintro e he rfl
        exact hnot (List.mem_map.mpr ⟨e, he, rfl⟩)
      obtain ⟨db₂, hrest⟩ : ∃ db₂, (revokeAll h shred keys).alone db₁ = .ok ((), db₂) := by
        refine ih htail (fun e he => ?_) fun e he l row' hrow' => ?_
        · rw [hreplaces.get?_ne (hne e he)]
          exact hstored e (List.mem_cons_of_mem _ he)
        · by_cases hl : l = id
          · subst hl
            rw [hreplaces.get?_self] at hrow'
            cases hrow'
            exact fun heq => hne e he (hdistinct _ _ heq).symm
          · rw [hreplaces.get?_ne hl] at hrow'
            exact hfresh e (List.mem_cons_of_mem _ he) l row' hrow'
      exact ⟨db₂, Script.alone_bind_eq_ok.mpr ⟨(), db₁, hfirst, hrest⟩⟩

theorem revokeMatching_fresh (hfresh : db.ShredsFresh h shred) (condition : ApiKey → Bool) :
    ∃ db', (revokeMatching h shred condition).alone db = .ok ((), db') := by
  rw [revokeMatching, Script.alone_read_bind]
  refine revokeAll_fresh (db.nodup_unrevokedIds condition) (fun e he => ?_) hfresh.distinct
    fun e _ => hfresh.unused e.1
  obtain ⟨hmem, hcondition⟩ := List.mem_filter.mp he
  simp only [Bool.and_eq_true, Option.isNone_iff_eq_none] at hcondition
  exact ⟨(OrderedMap.mem_entries_iff db.keys.rows _ _).mp hmem, hcondition.2⟩

/-- What a removal by an owner comes to. -/
theorem alone_removeMemberAs {owner : AuthContext} (howner : db.OwnerActor owner) :
    (removeMemberAs h shred owner user).alone db =
      if db.lastOwner owner.tenantId user = true then .error lastOwnerConflict
      else (revokeMatching h shred (ApiKey.attributedTo owner.tenantId user)).alone
        (db.withoutMember owner.tenantId user) := by
  have hadmin : (requireCurrentTenantAdmin owner).alone db = .ok ((), db) :=
    requireCurrentTenantAdmin_eq_ok.mpr ⟨howner.1, rfl⟩
  unfold removeMemberAs removeMemberInTransaction
  simp only [Script.alone_bind, hadmin, alone_getMembershipRole, requireOwnerIf_of_owner howner,
    alone_protectOwner, Except.bind]
  cases db.lastOwner owner.tenantId user with
  | true => simp
  | false => rfl

theorem previewRemoval_eq_ok {viewer : AuthContext} (hviewer : db.AdminActor viewer)
    {role : MembershipRole} (hrole : db.role viewer.tenantId user = some role) :
    ∃ lost, (previewRemoval viewer user).alone db = .ok (⟨user, some role,
        db.lastOwner viewer.tenantId user,
        db.unrevokedIds (ApiKey.attributedTo viewer.tenantId user), lost⟩, db) ∧
      ∀ workspace, workspace ∈ lost ↔
        (db.access viewer.tenantId workspace user).isSome = true := by
  have hadmin : (requireCurrentTenantAdmin viewer).alone db = .ok ((), db) :=
    requireCurrentTenantAdmin_eq_ok.mpr ⟨hviewer, rfl⟩
  obtain ⟨ids, hlist, hids⟩ := listWorkspacesForUser_eq_ok db user
  refine ⟨tenantWorkspaces viewer.tenantId ids db, ?_, fun workspace => mem_tenantWorkspaces hids⟩
  unfold previewRemoval
  simp only [Script.alone_bind, hadmin, alone_getMembershipRole, Except.bind, hrole]
  by_cases howner : role = .owner
  · simp [howner, Script.alone_bind, hlist, Except.bind, Db.lastOwner, hrole, Db.unrevokedIds,
      ApiKey.attributedTo]
  · simp [howner, Script.alone_bind, hlist, Except.bind, Db.lastOwner, hrole, Db.unrevokedIds,
      ApiKey.attributedTo]

theorem grant_withoutMember {tenant workspace : Uuid} {ws : Workspace}
    (hws : db.workspaces.get? workspace = some ws) (hne : ws.tenantId ≠ tenant) :
    (db.withoutMember tenant user).grant workspace user = db.grant workspace user := by
  change (db.grants.filter _).get? (toLex (workspace, user)) = db.grants.get? _
  rw [OrderedMap.get?_filter]
  cases db.grants.get? (toLex (workspace, user)) with
  | none => rfl
  | some role => simp [Option.filter, hws, hne]

/-- The removed user reaches nothing in the tenant, and what else there was elsewhere. -/
theorem lost_of_removed {tenant : Uuid} {ids : List Uuid}
    (hrevokes : (db.withoutMember tenant user).Revokes h shred ids db') (workspace : Uuid) :
    db.CanAccess user workspace ∧ ¬db'.CanAccess user workspace ↔
      (db.access tenant workspace user).isSome = true := by
  have hworkspaces : db'.workspaces = db.workspaces := by
    rw [hrevokes.rest]
    rfl
  have htenants : db'.tenants = db.tenants := by
    rw [hrevokes.rest]
    rfl
  have hgrants : ∀ w, db'.grant w user = (db.withoutMember tenant user).grant w user := by
    intro w
    rw [hrevokes.rest]
    rfl
  have hroles : ∀ t, db'.role t user = if tenant = t then none else db.role t user := by
    intro t
    have hdropped : db'.role t = (db.withoutMember tenant user).role t := by
      rw [hrevokes.rest]
      rfl
    rw [hdropped, Db.withoutMember, role_dropRole]
    split_ifs
    · exact Function.update_self ..
    · rfl
  have hothers : ∀ t w, t ≠ tenant → db'.access t w user = db.access t w user := by
    intro t w ht
    refine Db.access_congr hworkspaces htenants ?_ fun ws hws htenant => ?_
    · rw [hroles t, if_neg ht.symm]
    · rw [hgrants w]
      exact grant_withoutMember hws (htenant ▸ ht)
  rw [lost_iff hworkspaces hothers]
  refine and_iff_left_of_imp fun _ => Option.eq_none_iff_forall_ne_some.mpr fun access haccess => ?_
  obtain ⟨-, -, role, hrole, -⟩ := Db.access_eq_some.mp haccess
  rw [hroles tenant, if_pos rfl] at hrole
  cases hrole

/-- The keys revoked are those found unrevoked. -/
theorem revoked_iff {condition : ApiKey → Bool}
    (hrevokes : db.Revokes h shred (db.unrevokedIds condition) db') (id : Uuid) :
    id ∈ db.unrevokedIds condition ↔ ¬db.RevokedKey id ∧ db'.RevokedKey id := by
  constructor
  · intro hmem
    obtain ⟨key, hkey, -, hunrevoked⟩ := Db.mem_unrevokedIds.mp hmem
    constructor
    · rintro ⟨key', time, hkey', hat⟩
      obtain rfl : key = key' := Option.some.inj (hkey.symm.trans hkey')
      rw [hunrevoked] at hat
      cases hat
    · refine ⟨key.revokedBy h db.clock (shred id), db.clock, ?_, rfl⟩
      rw [hrevokes.row id, hkey, Option.map_some, if_pos hmem]
  · rintro ⟨hnot, key', time, hkey', hat⟩
    by_contra hmem
    rw [hrevokes.row id] at hkey'
    obtain ⟨key, hkey, heq⟩ := Option.map_eq_some_iff.mp hkey'
    rw [if_neg hmem] at heq
    subst heq
    exact hnot ⟨key, time, hkey, hat⟩

/-- Revocations are not refused for the sake of owners. -/
theorem deleteForTenant_ne_conflict {tenant id : Uuid} {material : KeyMaterial} :
    (deleteForTenant h tenant id material).alone db ≠ .error lastOwnerConflict := by
  intro hrefused
  rw [deleteForTenant, now, Script.alone_read_bind] at hrefused
  simp only [Script.alone_bind, updateKey, Script.alone_update] at hrefused
  cases hupdate : db.keys.updateRow id
      (fun row => decide (row.tenantId = tenant) && row.revokedAt.isNone)
      fun row => { row with
        revokedAt := some db.clock, keyHash := h.hashKey (generateKey material).2 } with
  | error e =>
      rw [hupdate] at hrefused
      cases hrefused
  | ok r =>
      rw [hupdate] at hrefused
      change (Script.failIf (r.2 = 0) _ : Tx Unit).alone _ = _ at hrefused
      rw [Script.failIf] at hrefused
      split_ifs at hrefused
      · cases hrefused
      · cases hrefused

theorem revokeAll_ne_conflict {keys : List (Uuid × ApiKey)} :
    (revokeAll h shred keys).alone db ≠ .error lastOwnerConflict := by
  induction keys generalizing db with
  | nil => exact fun hrefused => by cases hrefused
  | cons e keys ih =>
      intro hrefused
      rw [revokeAll, Script.alone_bind] at hrefused
      cases hfirst : (deleteForTenant h e.2.tenantId e.1 (shred e.1)).alone db with
      | error err =>
          rw [hfirst] at hrefused
          cases hrefused
          exact deleteForTenant_ne_conflict hfirst
      | ok r =>
          rw [hfirst] at hrefused
          exact ih hrefused

/-- **Removals are foreseen.** -/
theorem foresees_removal {viewer owner : AuthContext} (hviewer : db.AdminActor viewer)
    (howner : db.OwnerActor owner) (htenant : viewer.tenantId = owner.tenantId)
    {role : MembershipRole} (hrole : db.role owner.tenantId user = some role) :
    ∃ preview, (previewRemoval viewer user).alone db = .ok (preview, db) ∧
      preview.Foresees h shred owner user db := by
  rw [← htenant] at hrole
  obtain ⟨lost, hpreview, hlost⟩ := previewRemoval_eq_ok hviewer hrole
  rw [htenant] at hpreview hlost
  refine ⟨_, hpreview, ?_⟩
  have hremove : (removeMemberAs h shred owner user).alone db = _ := alone_removeMemberAs howner
  -- a removal that succeeds has revoked what was found
  have hdone : ∀ db', (removeMemberAs h shred owner user).alone db = .ok ((), db') →
      (db.withoutMember owner.tenantId user).Revokes h shred ((db.withoutMember
        owner.tenantId user).unrevokedIds (ApiKey.attributedTo owner.tenantId user)) db' := by
    intro db' hok
    rw [hremove] at hok
    split_ifs at hok
    exact revokeMatching_eq_ok hok
  refine ⟨?_, fun hblocked hfresh => ?_, fun db' hok id => ?_, fun db' hok workspace => ?_⟩
  · rw [hremove]
    change db.lastOwner owner.tenantId user = true ↔ _
    split_ifs with hlast
    · exact iff_of_true hlast rfl
    · refine iff_of_false hlast ?_
      rw [revokeMatching, Script.alone_read_bind]
      exact revokeAll_ne_conflict
  · have hlast : ¬db.lastOwner owner.tenantId user = true := Bool.eq_false_iff.mp hblocked
    have hfresh' : (db.withoutMember owner.tenantId user).ShredsFresh h shred :=
      ⟨hfresh.distinct, hfresh.unused⟩
    rw [hremove, if_neg hlast]
    exact revokeMatching_fresh hfresh' _
  · have hiff := revoked_iff (hdone db' hok) id
    exact hiff
  · exact (hlost workspace).trans (lost_of_removed (hdone db' hok) workspace).symm

end Removal

/-! ## Role changes -/

/-- What a key gives its user with the given role. -/
def Db.keyScope (db : Db) (user : Uuid) (role : MembershipRole) (key : ApiKey) :
    Option ApiKeyScope :=
  key.workspaceId.bind fun workspace =>
    (db.accessForRole workspace user role).map fun a => min key.scope a.maxScope

section RoleChange

variable {h : Externals} {db db' : Db} {user : Uuid}

theorem alone_effectiveWith (role : MembershipRole) (key : ApiKey) :
    (key.effectiveWith user role).alone db = .ok (db.keyScope user role key, db) := by
  unfold ApiKey.effectiveWith Db.keyScope
  cases key.workspaceId with
  | none => rfl
  | some workspace =>
      simp only [Script.alone_bind, alone_workspaceAccessForRole, Except.bind]
      rfl

theorem alone_keyAccessOf (role : MembershipRole) (keys : List (Uuid × ApiKey)) :
    (keyAccessOf user role keys).alone db =
      .ok (keys.map fun e => ⟨e.1, e.2.scope, db.keyScope user role e.2, e.2.audit⟩, db) := by
  induction keys with
  | nil => rfl
  | cons e keys ih =>
      simp only [keyAccessOf, Script.alone_bind, alone_effectiveWith, ih, Except.bind]
      rfl

/-- The member's keys that the database lists, reported with the given role. -/
def Db.keyReport (h : Externals) (db : Db) (tenant user : Uuid) (role : MembershipRole) :
    List MembershipKeyAccess :=
  (db.keys.rows.entries.filter fun e =>
      e.2.attributedTo tenant user && e.2.listed (h.expiryZone e.1) db.clock).map
    fun e => ⟨e.1, e.2.scope, db.keyScope user role e.2, e.2.audit⟩

theorem alone_keyAccess (tenant : Uuid) (role : MembershipRole) :
    (keyAccess h tenant user role).alone db = .ok (db.keyReport h tenant user role, db) := by
  rw [keyAccess, now, Script.alone_read_bind, Script.alone_read_bind, alone_keyAccessOf]
  rfl

theorem mem_keyReport {tenant : Uuid} {role : MembershipRole} {id : Uuid} {key : ApiKey}
    (hkey : db.keys.get? id = some key) (hattributed : key.attributedTo tenant user = true)
    (scope : Option ApiKeyScope) :
    (∃ e ∈ db.keyReport h tenant user role, e.apiKeyId = id ∧ e.effectiveScope = scope) ↔
      key.listed (h.expiryZone id) db.clock = true ∧ scope = db.keyScope user role key := by
  simp only [Db.keyReport, List.mem_map, List.mem_filter, Bool.and_eq_true]
  constructor
  · rintro ⟨_, ⟨⟨id', key'⟩, ⟨hmem, -, hlisted⟩, rfl⟩, rfl, rfl⟩
    have hkey' : db.keys.get? id' = some key' :=
      (OrderedMap.mem_entries_iff db.keys.rows _ _).mp hmem
    obtain rfl : key = key' := Option.some.inj (hkey.symm.trans hkey')
    exact ⟨hlisted, rfl⟩
  · rintro ⟨hlisted, rfl⟩
    exact ⟨_, ⟨(id, key), ⟨(OrderedMap.mem_entries_iff db.keys.rows _ _).mpr hkey, hattributed,
      hlisted⟩, rfl⟩, rfl, rfl⟩

theorem touchesOwnership_eq_ok (db : Db) (tenant user : Uuid) (role : MembershipRole) :
    ∃ ownership, (touchesOwnership tenant user role).alone db = .ok (ownership, db) := by
  unfold touchesOwnership
  split_ifs
  · exact ⟨true, rfl⟩
  · exact ⟨_, rfl⟩

/-- What a role change by an owner comes to. -/
theorem alone_updateMemberAccess {owner : AuthContext} (howner : db.OwnerActor owner)
    (role : MembershipRole) (htenant : (db.tenants.get? owner.tenantId).isSome = true)
    (huser : (db.users.get? user).isSome = true) :
    (updateMemberAccess h owner user role).alone db =
      if (decide (some role ≠ some .owner) && db.lastOwner owner.tenantId user) = true then
        .error lastOwnerConflict
      else .ok ((db.setRole owner.tenantId user role htenant).keyReport h owner.tenantId user role,
        db.setRole owner.tenantId user role htenant) := by
  have hadmin : (requireCurrentTenantAdmin owner).alone db = .ok ((), db) :=
    requireCurrentTenantAdmin_eq_ok.mpr ⟨howner.1, rfl⟩
  have hstored : (upsertMembership owner.tenantId user role).alone db =
      .ok ((), db.setRole owner.tenantId user role htenant) := by
    rw [upsertMembership, Script.alone_update, dif_pos ⟨htenant, huser⟩]
  obtain ⟨ownership, htouches⟩ := touchesOwnership_eq_ok db owner.tenantId user role
  unfold updateMemberAccess addMemberInTransaction
  simp only [Script.alone_bind, hadmin, htouches, requireOwnerIf_of_owner howner,
    alone_protectOwner, Except.bind]
  split_ifs
  · rfl
  · simp only [hstored]
    exact alone_keyAccess owner.tenantId role

theorem alone_lostWithRole (role : MembershipRole) (workspaces : List Uuid) :
    (lostWithRole user role workspaces).alone db =
      .ok (workspaces.filter fun w => (db.accessForRole w user role).isNone, db) := by
  induction workspaces with
  | nil => rfl
  | cons workspace workspaces ih =>
      simp only [lostWithRole, Script.alone_bind, alone_workspaceAccessForRole, ih, Except.bind,
        List.filter_cons, Script.alone_pure]

theorem previewRoleChange_eq_ok {viewer : AuthContext} (hviewer : db.AdminActor viewer)
    {current : MembershipRole} (hcurrent : db.role viewer.tenantId user = some current)
    (role : MembershipRole) :
    ∃ lost, (previewRoleChange h viewer user role).alone db = .ok (⟨user, current, role,
        decide (some role ≠ some .owner) && db.lastOwner viewer.tenantId user, lost,
        db.keyReport h viewer.tenantId user role⟩, db) ∧
      ∀ workspace, workspace ∈ lost ↔
        (db.access viewer.tenantId workspace user).isSome = true ∧
          db.accessForRole workspace user role = none := by
  have hadmin : (requireCurrentTenantAdmin viewer).alone db = .ok ((), db) :=
    requireCurrentTenantAdmin_eq_ok.mpr ⟨hviewer, rfl⟩
  obtain ⟨ids, hlist, hids⟩ := listWorkspacesForUser_eq_ok db user
  refine ⟨((tenantWorkspaces viewer.tenantId ids db).filter fun w =>
    (db.accessForRole w user role).isNone).insertionSort (· ≤ ·), ?_, fun workspace => ?_⟩
  · unfold previewRoleChange
    simp only [Script.alone_bind, hadmin, alone_getMembershipRole, Except.bind, hcurrent,
      Script.alone_orFail_some]
    by_cases howner : role = .owner
    · simp [howner, Script.alone_bind, alone_keyAccess, hlist, alone_lostWithRole, Except.bind]
    · simp [howner, Script.alone_bind, alone_keyAccess, hlist, alone_lostWithRole, Except.bind]
  · rw [List.mem_insertionSort, List.mem_filter, mem_tenantWorkspaces hids,
      Option.isNone_iff_eq_none]

section SetRole

variable {tenant : Uuid} {role : MembershipRole}

/-- In other tenants, access stays. -/
theorem access_setRole_ne (htenant : (db.tenants.get? tenant).isSome = true) {t : Uuid}
    (workspace : Uuid) (hne : t ≠ tenant) :
    (db.setRole tenant user role htenant).access t workspace user =
      db.access t workspace user := by
  refine Db.access_congr rfl rfl ?_ fun _ _ _ => rfl
  rw [role_setRole, if_neg hne.symm]

/-- In the tenant, access follows the new role. -/
theorem access_setRole_self (htenant : (db.tenants.get? tenant).isSome = true) {workspace : Uuid}
    {ws : Workspace} (hws : db.workspaces.get? workspace = some ws) (hown : ws.tenantId = tenant)
    (hactive : db.active tenant = true) :
    (db.setRole tenant user role htenant).access tenant workspace user =
      db.accessForRole workspace user role := by
  have hrole : (db.setRole tenant user role htenant).role tenant user = some role := by
    rw [role_setRole, if_pos rfl, Function.update_self]
  have hopen : ((db.workspaces.get? workspace).any fun ws => decide (ws.tenantId = tenant)) =
      true := by
    rw [hws, Option.any_some, decide_eq_true hown]
  unfold Db.access
  change (if ((db.workspaces.get? workspace).any _ && db.active tenant) = true then
    ((db.setRole tenant user role htenant).role tenant user).bind (db.accessForRole workspace user)
      else none) = _
  rw [hopen, hactive, hrole]
  rfl

/-- The workspaces lost are those that the new role does not open. -/
theorem lost_of_setRole (htenant : (db.tenants.get? tenant).isSome = true) (workspace : Uuid) :
    db.CanAccess user workspace ∧
        ¬(db.setRole tenant user role htenant).CanAccess user workspace ↔
      (db.access tenant workspace user).isSome = true ∧
        db.accessForRole workspace user role = none := by
  have hworkspaces : (db.setRole tenant user role htenant).workspaces = db.workspaces := rfl
  rw [lost_iff hworkspaces fun t w => access_setRole_ne htenant w]
  refine and_congr_right fun haccess => ?_
  obtain ⟨access, haccess⟩ := Option.isSome_iff_exists.mp haccess
  obtain ⟨⟨ws, hws, hown⟩, hactive, -⟩ := Db.access_eq_some.mp haccess
  rw [access_setRole_self htenant hws hown hactive]

/-- Authentication with a bound key of the user gives what the new role leaves of it. -/
theorem current_setRole (htenant : (db.tenants.get? tenant).isSome = true) {id workspace : Uuid}
    {key : ApiKey} (hkey : db.keys.get? id = some key)
    (hattributed : key.attributedTo tenant user = true) (hunexpired : key.isActive db.clock = true)
    (hbound : db.Bound key) (hworkspace : key.workspaceId = some workspace)
    (hactive : db.active tenant = true) :
    ((db.setRole tenant user role htenant).current (key.identity id workspace)).map (·.scope) =
      db.keyScope user role key := by
  simp only [ApiKey.attributedTo, Bool.and_eq_true, decide_eq_true_eq] at hattributed
  obtain ⟨rfl, huser⟩ := hattributed
  obtain ⟨ws, hws, hown⟩ := hbound workspace hworkspace
  have hbacks : key.backs (key.identity id workspace) db.clock = true :=
    ApiKey.backs_iff.mpr ⟨hunexpired, rfl, rfl, fun w hw => Option.some.inj (hw.symm.trans hworkspace)⟩
  have hfound : ((db.setRole key.tenantId user role htenant).keys.get?
      (key.identity id workspace).apiKeyId).filter (fun k => k.backs (key.identity id workspace)
        (db.setRole key.tenantId user role htenant).clock) = some key :=
    Option.filter_eq_some_iff.mpr ⟨hkey, hbacks⟩
  have hstill : (db.setRole key.tenantId user role htenant).active key.tenantId = true := hactive
  rw [Db.current, hfound, Option.bind_some, Db.keyScope, hworkspace, Option.bind_some]
  simp only [Db.worth, ApiKey.identity, hstill, if_true, huser,
    access_setRole_self htenant hws hown hactive, Option.map_map]
  rfl

end SetRole

/-- **A role change is foreseen** when the active keys are listed. -/
theorem foresees_roleChange (hdb : db.Coherent) {viewer owner : AuthContext}
    (hviewer : db.AdminActor viewer) (howner : db.OwnerActor owner)
    (htenant : viewer.tenantId = owner.tenantId) {current : MembershipRole}
    (hcurrent : db.role owner.tenantId user = some current)
    (hlists : db.ListsActive h owner.tenantId user) (role : MembershipRole) :
    ∃ preview, (previewRoleChange h viewer user role).alone db = .ok (preview, db) ∧
      preview.Foresees h owner user role db := by
  have hstored : (db.tenants.get? owner.tenantId).isSome = true := db.enrolled _ current hcurrent
  have huser : (db.users.get? user).isSome = true := hdb.members _ user current hcurrent
  have hactive : db.active owner.tenantId = true := howner.1.active
  rw [← htenant] at hcurrent
  obtain ⟨lost, hpreview, hlost⟩ := previewRoleChange_eq_ok (h := h) hviewer hcurrent role
  rw [htenant] at hpreview hlost
  refine ⟨_, hpreview, ?_⟩
  have hupdate := alone_updateMemberAccess (h := h) howner role hstored huser
  -- an update that succeeds has stored the role
  have hdone : ∀ keys db', (updateMemberAccess h owner user role).alone db = .ok (keys, db') →
      db' = db.setRole owner.tenantId user role hstored := by
    intro keys db' hok
    rw [hupdate] at hok
    split_ifs at hok
    cases hok
    rfl
  refine ⟨?_, fun hblocked => ?_, fun keys db' hok workspace => ?_,
    fun keys db' hok id key workspace hkey hattributed hunexpired hworkspace scope => ?_⟩
  · rw [hupdate]
    change (decide (some role ≠ some .owner) && db.lastOwner owner.tenantId user) = true ↔ _
    split_ifs with hlast
    · exact iff_of_true hlast rfl
    · exact iff_of_false hlast fun hrefused => by cases hrefused
  · have hlast : ¬(decide (some role ≠ some .owner) && db.lastOwner owner.tenantId user) = true :=
      Bool.eq_false_iff.mp hblocked
    rw [hupdate, if_neg hlast]
    exact ⟨_, _, rfl⟩
  · rw [hdone keys db' hok]
    exact (hlost workspace).trans (lost_of_setRole hstored workspace).symm
  · rw [hdone keys db' hok, current_setRole hstored hkey hattributed hunexpired
      (hdb.bound id key hkey) hworkspace hactive]
    have hlisted := hlists id key workspace hkey hattributed hunexpired hworkspace
    exact (mem_keyReport hkey hattributed scope).trans (and_iff_right hlisted)

/-- Otherwise the preview of a change to owner, which nothing refuses, says nothing of a key that
goes on working. -/
theorem listsActive_of_foresees (hdb : db.Coherent) {viewer owner : AuthContext}
    (hviewer : db.AdminActor viewer) (howner : db.OwnerActor owner)
    (htenant : viewer.tenantId = owner.tenantId) {current : MembershipRole}
    (hcurrent : db.role owner.tenantId user = some current) {preview : MembershipRolePreview}
    (hpreview : (previewRoleChange h viewer user .owner).alone db = .ok (preview, db))
    (hforesees : preview.Foresees h owner user .owner db) :
    db.ListsActive h owner.tenantId user := by
  intro id key workspace hkey hattributed hactive hworkspace
  have hstored : (db.tenants.get? owner.tenantId).isSome = true := db.enrolled _ current hcurrent
  have huser : (db.users.get? user).isSome = true := hdb.members _ user current hcurrent
  rw [← htenant] at hcurrent
  obtain ⟨lost, hanswered, -⟩ := previewRoleChange_eq_ok (h := h) hviewer hcurrent .owner
  obtain ⟨rfl, -⟩ := Prod.mk.inj (Except.ok.inj (hanswered.symm.trans hpreview))
  have hupdate := alone_updateMemberAccess (h := h) howner .owner hstored huser
  rw [if_neg (by simp)] at hupdate
  have hentry := (hforesees.scopes _ _ hupdate id key workspace hkey hattributed hactive hworkspace
    _).mpr rfl
  rw [htenant] at hentry
  exact ((mem_keyReport hkey hattributed _).mp hentry).1

/-- **When role changes are foreseen.** -/
theorem foresees_roleChange_iff (hdb : db.Coherent) {viewer owner : AuthContext}
    (hviewer : db.AdminActor viewer) (howner : db.OwnerActor owner)
    (htenant : viewer.tenantId = owner.tenantId) {current : MembershipRole}
    (hcurrent : db.role owner.tenantId user = some current) :
    (∀ role, ∃ preview, (previewRoleChange h viewer user role).alone db = .ok (preview, db) ∧
      preview.Foresees h owner user role db) ↔ db.ListsActive h owner.tenantId user := by
  constructor
  · intro hforesees
    obtain ⟨preview, hpreview, howned⟩ := hforesees .owner
    exact listsActive_of_foresees hdb hviewer howner htenant hcurrent hpreview howned
  · exact foresees_roleChange hdb hviewer howner htenant hcurrent

end RoleChange

/-! ## Main result -/

/-- **Previews say what happens**, in every database that is reached: to whom administers the
tenant, for every member of it, and for whichever owner removes the member or changes the
member's role next. Removals always, and role changes exactly when the database's comparison of
expiries misses none of the member's active keys. -/
theorem previews_foresee_iff (h : Externals) (clock : Instant) (changes : List Change)
    (viewer owner : AuthContext) (user : Uuid) (current : MembershipRole)
    (hviewer : (run (Db.change h) (.empty clock) changes).AdminActor viewer)
    (howner : (run (Db.change h) (.empty clock) changes).OwnerActor owner)
    (htenant : viewer.tenantId = owner.tenantId)
    (hmember : (run (Db.change h) (.empty clock) changes).role owner.tenantId user =
      some current) :
    (∀ shred, ∃ preview, (previewRemoval viewer user).alone
        (run (Db.change h) (.empty clock) changes) =
          .ok (preview, run (Db.change h) (.empty clock) changes) ∧
        preview.Foresees h shred owner user (run (Db.change h) (.empty clock) changes)) ∧
      ((∀ role, ∃ preview, (previewRoleChange h viewer user role).alone
          (run (Db.change h) (.empty clock) changes) =
            .ok (preview, run (Db.change h) (.empty clock) changes) ∧
          preview.Foresees h owner user role (run (Db.change h) (.empty clock) changes)) ↔
        (run (Db.change h) (.empty clock) changes).ListsActive h owner.tenantId user) :=
  ⟨fun _ => foresees_removal hviewer howner htenant hmember,
    foresees_roleChange_iff (run_coherent h clock changes) hviewer howner htenant hmember⟩

/-- An owner, and a member with a grant in a workspace and a key bound to it. -/
def hiring : List Change :=
  [.setup (.tenant 1 "acme"), .setup (.user 10 ⟨"owner@acme", none, none⟩),
    .setup (.user 11 ⟨"member@acme", none, none⟩), .setup (.workspace 20 ⟨1, "main"⟩),
    .op (.addMember 1 10 .owner), .op (.addMember 1 11 .member), .op (.grantWorkspace 20 11 .member),
    .op (.createTenantApiKey ⟨30, ⟨"own", "one"⟩⟩ 1 .migration (some 10) false "owner"),
    .op (.createApiKey ⟨31, ⟨"mem", "two"⟩⟩ 20 .write (some 11) false)]

/-- The owner's identity. -/
def hirer : AuthContext := ⟨30, 20, 1, .migration, some 10, false⟩

theorem hiring_actors :
    (run (Db.change .plain) (.empty 0) hiring).AdminActor hirer ∧
      (run (Db.change .plain) (.empty 0) hiring).OwnerActor hirer := by
  have hadmin : (run (Db.change .plain) (.empty 0) hiring).AdminActor hirer :=
    ⟨hirer, 10, by decide, rfl, .owner, by decide, rfl⟩
  exact ⟨hadmin, hadmin, 10, rfl, by decide⟩

/-- The preview of the member's removal lists the key and the workspace, and is right. So is that
of every role change, since the database compares instants. -/
theorem previews_foresee_hiring :
    (((previewRemoval hirer 11).alone (run (Db.change .plain) (.empty 0) hiring)).toOption.map
        fun r => (r.1.revokedApiKeyIds, r.1.lostWorkspaceIds)) = some ([31], [20]) ∧
      (∀ shred, ∃ preview, (previewRemoval hirer 11).alone
          (run (Db.change .plain) (.empty 0) hiring) =
            .ok (preview, run (Db.change .plain) (.empty 0) hiring) ∧
          preview.Foresees .plain shred hirer 11 (run (Db.change .plain) (.empty 0) hiring)) ∧
      ∀ role, ∃ preview, (previewRoleChange .plain hirer 11 role).alone
          (run (Db.change .plain) (.empty 0) hiring) =
            .ok (preview, run (Db.change .plain) (.empty 0) hiring) ∧
          preview.Foresees .plain hirer 11 role (run (Db.change .plain) (.empty 0) hiring) := by
  obtain ⟨hremoval, hroles⟩ := previews_foresee_iff .plain 0 hiring hirer hirer 11 .member
    hiring_actors.1 hiring_actors.2 rfl (by decide)
  exact ⟨by decide, hremoval, hroles.mpr (Db.listsActive_of_instants fun _ => rfl)⟩

/-- SQLite, with clients in New York, five hours behind UTC. -/
def newYork : Externals := { Externals.plain with expiryZone := fun _ => some (-300) }

/-- The member becomes an administrator and issues a key that is to last two hours. -/
def shortLived : List Change :=
  hiring ++ [.op (.addMember 1 11 .admin),
    .op (.createDelegatedApiKey ⟨33, ⟨"ny", "three"⟩⟩ ⟨31, 20, 1, .write, some 11, false⟩
      .write false "laptop" (some (2 * 60 * 60 * 1000000)))]

/-- What the proof below reads off the database. -/
theorem shortLived_reads :
    ((run (Db.change newYork) (.empty 0) shortLived).current hirer = some hirer ∧
        (run (Db.change newYork) (.empty 0) shortLived).role 1 10 = some .owner ∧
        (run (Db.change newYork) (.empty 0) shortLived).role 1 11 = some .admin) ∧
      (((run (Db.change newYork) (.empty 0) shortLived).keys.get? 33).map fun key =>
        (key.attributedTo 1 11, key.workspaceId,
          key.isActive (run (Db.change newYork) (.empty 0) shortLived).clock,
          key.listed (newYork.expiryZone 33) (run (Db.change newYork) (.empty 0) shortLived).clock)) =
        some (true, some 20, true, false) ∧
      (((previewRoleChange newYork hirer 11 .viewer).alone
        (run (Db.change newYork) (.empty 0) shortLived)).toOption.map
          fun r => r.1.keys.map (·.apiKeyId)) = some [31] := by
  decide

/-- The key is active, and the preview of a role change leaves it out. -/
theorem not_previews_foresee_newYork :
    (∃ key, (run (Db.change newYork) (.empty 0) shortLived).keys.get? 33 = some key ∧
        key.attributedTo 1 11 = true ∧ key.workspaceId = some 20 ∧
        key.isActive (run (Db.change newYork) (.empty 0) shortLived).clock = true) ∧
      (((previewRoleChange newYork hirer 11 .viewer).alone
        (run (Db.change newYork) (.empty 0) shortLived)).toOption.map
          fun r => r.1.keys.map (·.apiKeyId)) = some [31] ∧
      ¬∀ role, ∃ preview, (previewRoleChange newYork hirer 11 role).alone
          (run (Db.change newYork) (.empty 0) shortLived) =
            .ok (preview, run (Db.change newYork) (.empty 0) shortLived) ∧
          preview.Foresees newYork hirer 11 role
            (run (Db.change newYork) (.empty 0) shortLived) := by
  obtain ⟨⟨hcurrent, howned, hmember⟩, hkey, hpreview⟩ := shortLived_reads
  obtain ⟨key, hget, hreads⟩ := Option.map_eq_some_iff.mp hkey
  simp only [Prod.mk.injEq] at hreads
  obtain ⟨hattributed, hworkspace, hactive, hunlisted⟩ := hreads
  have hadmin : (run (Db.change newYork) (.empty 0) shortLived).AdminActor hirer :=
    ⟨hirer, 10, hcurrent, rfl, .owner, howned, rfl⟩
  refine ⟨⟨key, hget, hattributed, hworkspace, hactive⟩, hpreview, fun hforesees => ?_⟩
  rw [foresees_roleChange_iff (run_coherent newYork 0 shortLived) hadmin ⟨hadmin, 10, rfl, howned⟩
    rfl hmember] at hforesees
  rw [hforesees 33 key 20 hget hattributed hactive hworkspace] at hunlisted
  cases hunlisted

end Yorishiro.Tenancy
