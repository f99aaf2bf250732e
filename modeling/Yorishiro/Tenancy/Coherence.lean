import Yorishiro.Tenancy.Delegation

/-!
# Deletions and coherent references

Workspaces, users and tenants are also deleted, with what refers to them: `deleteWorkspaceAs`,
`deleteUser` and `deleteTenant`. `Db.change` runs operations, setups and deletions one after
the other.

Every database reached from the empty one is coherent (`run_coherent`): the user of a membership
is stored, and a key that is bound to a workspace is a key of the workspace's tenant. The first
is a foreign key, kept by every statement. No constraint states the second: a key's row has the
tenant and the workspace in two columns, and it is the issuing operations that keep them in line.
-/

set_option autoImplicit false

namespace Yorishiro.Tenancy

open Yorishiro.Lib
open Yorishiro.Lib.Fence
open Yorishiro.Lib.Transition
open Yorishiro.Queue (Instant)

/-! ## Deletions -/

/-- The database without the selected workspaces, the grants in them and the keys bound to
them. -/
def Db.withoutWorkspaces (db : Db) (selected : Uuid → Bool) : Db :=
  { db with
    workspaces := db.workspaces.filter fun id _ => !selected id
    grants := db.grants.filter fun k _ => !selected (ofLex k).1
    keys := db.keys.deleteWhere fun _ key => key.workspaceId.any selected }

/-- The database without a user, the user's memberships and grants. Keys lose their attribution
to the user. -/
def Db.withoutUser (db : Db) (user : Uuid) (keys : Table Uuid ApiKey ApiKey.clash) : Db :=
  { db with
    users := db.users.delete user
    memberships := db.memberships.filter fun k _ => decide ((ofLex k).2 ≠ user)
    grants := db.grants.filter fun k _ => decide ((ofLex k).2 ≠ user)
    keys := keys
    enrolled := fun k role hk => by
      rw [OrderedMap.get?_filter] at hk
      exact db.enrolled k role (Option.filter_eq_some_iff.mp hk).1 }

/-- The database without a tenant, its keys, memberships and invites. -/
def Db.withoutTenant (db : Db) (tenant : Uuid) : Db :=
  { db with
    tenants := db.tenants.erase tenant
    memberships := db.memberships.filter fun k _ => decide ((ofLex k).1 ≠ tenant)
    keys := db.keys.deleteWhere fun _ key => decide (key.tenantId = tenant)
    invites := db.invites.deleteWhere fun _ invite => decide (invite.tenantId = tenant)
    enrolled := fun k role hk => by
      rw [OrderedMap.get?_filter] at hk
      obtain ⟨hold, hne⟩ := Option.filter_eq_some_iff.mp hk
      rw [OrderedMap.get?_erase, if_neg (of_decide_eq_true hne)]
      exact db.enrolled k role hold }

/-- Deletes a workspace that is not the tenant's last one. Whether schema forks refer to it is up
to their tables. -/
def deleteWorkspace (forked : Bool) (workspace : Uuid) : Tx Unit := do
  let row ← Script.read fun db => db.workspaces.get? workspace
  let row ← Script.orFail (.notFound ("workspace '" ++ workspace.toString ++ "' was not found")) row
  Script.acquire (workspaceCountLockKey row.tenantId)
  let remaining ← Script.read fun db =>
    db.workspaces.count fun _ ws => decide (ws.tenantId = row.tenantId)
  Script.failIf (remaining ≤ 1) (.conflict "cannot delete a tenant's only remaining workspace")
  Script.failIf forked (.conflict
    "workspace is still referenced by schema forks; remove those forks before deleting it")
  .update fun db => .ok ((), db.withoutWorkspaces fun id => decide (id = workspace))

/-- Deletes a workspace for an administrator of its tenant. -/
def deleteWorkspaceAs (forked : Bool) (actor : AuthContext) (workspace : Uuid) : Tx Unit := do
  requireCurrentTenantAdmin actor
  let tenant ← getWorkspaceTenant workspace
  Script.failIf (tenant ≠ actor.tenantId) (.notFound "workspace not found")
  deleteWorkspace forked workspace

/-- The operator's command: deletes a user who is a member of no tenant. -/
def deleteUser (h : Externals) (shred : Uuid → KeyMaterial) (user confirmed : Uuid) : Tx Unit :=
  if user ≠ confirmed then .fail (.conflict "confirmed_user_id must match user_id")
  else do
    let row ← Script.read fun db => db.users.get? user
    let _ ← Script.orFail (.notFound "user not found") row
    let member ← Script.read fun db => db.memberships.entries.any fun e => (ofLex e.1).2 = user
    Script.failIf member
      (.conflict "remove every tenant membership before deleting a global user account")
    revokeMatching h shred fun key => decide (key.userId = some user)
    .update fun db => do
      let (keys, _) ← internal (db.keys.updateWhere (fun _ key => decide (key.userId = some user))
        fun key => { key with userId := none })
      pure ((), db.withoutUser user keys)

/-- The operator's command: deletes a disabled tenant. What is left of an earlier deletion, and
forks into other tenants, is up to other tables. -/
def deleteTenant (retired forked : Bool) (tenant confirmed : Uuid) : Tx Unit :=
  if tenant ≠ confirmed ∨ tenant = infrastructureTenantId then
    .fail (.validationFailed "tenant deletion confirmation does not match the target" []
      "confirm the non-infrastructure tenant UUID explicitly")
  else do
    Script.acquire "create_tenant"
    lockMembership tenant
    match ← Script.read fun db => db.tenants.get? tenant with
    | none => if retired then pure () else .fail (.notFound "tenant not found")
    | some row => do
        Script.failIf row.disabledAt.isNone
          (.conflict "disable the tenant before irreversible deletion")
        Script.failIf forked
          (.conflict "external workspace forks must be resolved before tenant deletion")
        .update fun db => .ok ((), (db.withoutWorkspaces fun id =>
          (db.workspaces.get? id).any fun ws => decide (ws.tenantId = tenant)).withoutTenant tenant)

/-- A deletion, with what other tables say. -/
inductive Deletion where
  | workspace (forked : Bool) (actor : AuthContext) (id : Uuid)
  | user (shred : Uuid → KeyMaterial) (id confirmed : Uuid)
  | tenant (retired forked : Bool) (id confirmed : Uuid)

/-- The transaction of a deletion. -/
def Deletion.code (h : Externals) : Deletion → Tx Unit
  | .workspace forked actor id => deleteWorkspaceAs forked actor id
  | .user shred id confirmed => deleteUser h shred id confirmed
  | .tenant retired forked id confirmed => deleteTenant retired forked id confirmed

/-- What happens next. -/
inductive Change where
  | op (op : Op)
  | setup (s : Setup)
  | deletion (d : Deletion)

/-- The database a transaction leaves, run alone. -/
def Db.after {α : Type} (db : Db) (p : Tx α) : Db :=
  match p.alone db with
  | .ok r => r.2
  | .error _ => db

/-- One step. -/
def Db.change (h : Externals) (db : Db) : Change → Db
  | .op op => db.after (op.code h)
  | .setup s => s.apply db
  | .deletion d => db.after (d.code h)

/-! ## Coherence -/

/-- The key is bound to no workspace, or to one of its own tenant. -/
def Db.Bound (db : Db) (key : ApiKey) : Prop :=
  ∀ workspace, key.workspaceId = some workspace →
    ∃ ws, db.workspaces.get? workspace = some ws ∧ ws.tenantId = key.tenantId

/-- References name what is there. -/
structure Db.Coherent (db : Db) : Prop where
  members : ∀ tenant user role, db.role tenant user = some role → (db.users.get? user).isSome = true
  bound : ∀ id key, db.keys.get? id = some key → db.Bound key

theorem Db.empty_coherent (clock : Instant) : (Db.empty clock).Coherent where
  members := fun _ _ _ hrole => by cases hrole
  bound := fun _ _ hkey => by cases hkey

section Statements

variable {h : Externals} {parts : List Part} {db db' : Db}

/-- The users of members stay there. -/
def MembersKept (db db' : Db) : Prop :=
  (∀ tenant user role, db.role tenant user = some role → (db.users.get? user).isSome = true) →
    ∀ tenant user role, db'.role tenant user = some role → (db'.users.get? user).isSome = true

theorem Statement.membersKept (hs : Statement h parts db db') : MembersKept db db' := by
  intro hmembers t u r hrole
  cases hs with
  | setRole _ tenant user role htenant huser =>
      rcases OrderedMap.get?_insert_eq_some hrole with ⟨heq, -⟩ | ⟨-, hold⟩
      · obtain ⟨-, rfl⟩ := Prod.mk.inj heq
        exact huser
      · exact hmembers t u r hold
  | dropRole _ tenant user => exact hmembers t u r (OrderedMap.get?_erase_eq_some hrole).2
  | insertUser _ id user hok =>
      obtain ⟨row, hrow⟩ := Option.isSome_iff_exists.mp (hmembers t u r hrole)
      exact Option.isSome_iff_exists.mpr ⟨row, Table.get?_insert_of_some hok hrow⟩
  | grants => exact hmembers t u r hrole
  | insertKey => exact hmembers t u r hrole
  | revokeKey => exact hmembers t u r hrole
  | replaceKey => exact hmembers t u r hrole
  | insertInvite => exact hmembers t u r hrole
  | updateInvite => exact hmembers t u r hrole
  | redeem => exact hmembers t u r hrole
  | disable => exact hmembers t u r hrole

/-- The workspaces stay, and so do the bindings of keys; only the issued ones are new. -/
structure BindingsKept (parts : List Part) (db db' : Db) : Prop where
  workspaces : db'.workspaces = db.workspaces
  keys : ∀ id key', db'.keys.get? id = some key' → .newKey id ∈ parts ∨
    ∃ key, db.keys.get? id = some key ∧ key'.tenantId = key.tenantId ∧
      key'.workspaceId = key.workspaceId

theorem BindingsKept.of_eq (hworkspaces : db'.workspaces = db.workspaces)
    (hkeys : db'.keys = db.keys) : BindingsKept parts db db' := by
  refine ⟨hworkspaces, fun id key' hkey' => Or.inr ⟨key', ?_, rfl, rfl⟩⟩
  rw [← hkeys]
  exact hkey'

theorem BindingsKept.trans {u v w : Db} (huv : BindingsKept parts u v)
    (hvw : BindingsKept parts v w) : BindingsKept parts u w := by
  refine ⟨hvw.workspaces.trans huv.workspaces, fun id key₂ hkey₂ => ?_⟩
  rcases hvw.keys id key₂ hkey₂ with hnew | ⟨key₁, hkey₁, htenant₁, hworkspace₁⟩
  · exact Or.inl hnew
  · rcases huv.keys id key₁ hkey₁ with hnew | ⟨key, hkey, htenant, hworkspace⟩
    · exact Or.inl hnew
    · exact Or.inr ⟨key, hkey, htenant₁.trans htenant, hworkspace₁.trans hworkspace⟩

theorem BindingsKept.of_updateRow {id : Uuid} {p : ApiKey → Bool} {f : ApiKey → ApiKey}
    {keys : Table Uuid ApiKey ApiKey.clash} {n : Nat}
    (hok : db.keys.updateRow id p f = .ok (keys, n))
    (htenant : ∀ key, (f key).tenantId = key.tenantId)
    (hworkspace : ∀ key, (f key).workspaceId = key.workspaceId) :
    BindingsKept parts db { db with keys := keys } := by
  refine ⟨rfl, fun l key' hkey' => Or.inr ?_⟩
  rw [Table.get?_updateWhere hok] at hkey'
  obtain ⟨key, hkey, rfl⟩ := Option.map_eq_some_iff.mp hkey'
  refine ⟨key, hkey, ?_⟩
  split_ifs
  · exact ⟨htenant key, hworkspace key⟩
  · exact ⟨rfl, rfl⟩

theorem Statement.bindingsKept (hs : Statement h parts db db') : BindingsKept parts db db' := by
  cases hs with
  | insertKey hpart key hrevoked hok =>
      refine ⟨rfl, fun l key' hkey' => ?_⟩
      rw [Table.get?_insert hok] at hkey'
      split_ifs at hkey' with hl
      · subst hl
        exact Or.inl hpart
      · exact Or.inr ⟨key', hkey', rfl, rfl⟩
  | revokeKey _ id tenant time hash hok =>
      exact .of_updateRow hok (fun _ => rfl) fun _ => rfl
  | replaceKey _ id by_ hok => exact .of_updateRow hok (fun _ => rfl) fun _ => rfl
  | setRole => exact .of_eq rfl rfl
  | dropRole => exact .of_eq rfl rfl
  | grants => exact .of_eq rfl rfl
  | insertUser => exact .of_eq rfl rfl
  | insertInvite => exact .of_eq rfl rfl
  | updateInvite => exact .of_eq rfl rfl
  | redeem => exact .of_eq rfl rfl
  | disable => exact .of_eq rfl rfl

/-- Where the issued keys are bound well, coherence is kept. -/
theorem Db.Coherent.kept (hdb : db.Coherent) (hmembers : MembersKept db db')
    (hbindings : BindingsKept parts db db')
    (hnew : ∀ id key, .newKey id ∈ parts → db'.keys.get? id = some key → db.Bound key) :
    db'.Coherent := by
  refine ⟨hmembers hdb.members, fun id key' hkey' workspace hworkspace => ?_⟩
  rw [hbindings.workspaces]
  rcases hbindings.keys id key' hkey' with hissued | ⟨key, hkey, htenant, hbound⟩
  · exact hnew id key' hissued hkey' workspace hworkspace
  · rw [htenant]
    exact hdb.bound id key hkey workspace (hbound ▸ hworkspace)

/-- A script of such statements keeps coherence, where the keys it issues are bound well. -/
theorem Db.Coherent.alone {α : Type} {p : Tx α} (hp : Script.Within (Statement h parts) p)
    (hdb : db.Coherent) {r : α} (hok : p.alone db = .ok (r, db'))
    (hnew : ∀ id key, .newKey id ∈ parts → db'.keys.get? id = some key → db.Bound key) :
    db'.Coherent := by
  have hmembers : MembersKept db db' :=
    Script.Within.alone (hp.mono fun _ _ => Statement.membersKept) (fun _ hm => hm)
      (fun _ _ _ huv hvw hm => hvw (huv hm)) hok
  have hbindings : BindingsKept parts db db' :=
    Script.Within.alone (hp.mono fun _ _ => Statement.bindingsKept) (fun _ => .of_eq rfl rfl)
      (fun _ _ _ => BindingsKept.trans) hok
  exact hdb.kept hmembers hbindings hnew

end Statements

section Operations

variable {h : Externals} {db db' : Db}

theorem createTenantApiKey_eq_ok {fresh : NewKey} {tenant : Uuid} {scope : ApiKeyScope}
    {user : Option Uuid} {audit : Bool} {name : String} {created : Uuid × String}
    (hok : (createTenantApiKey h fresh tenant scope user audit name).alone db =
      .ok (created, db')) :
    ∃ key, db'.keys.get? fresh.id = some key ∧ key.workspaceId = none := by
  obtain ⟨name', -, hok⟩ := Script.alone_ofExcept_bind_eq_ok.mp hok
  rw [Script.alone_read_bind] at hok
  obtain ⟨row, -, hok⟩ := Script.alone_orFail_bind_eq_ok.mp hok
  obtain ⟨_, -, hok⟩ := (quiet_requireAttributedKeyGrant _ _ _).alone_bind_eq_ok hok
  obtain ⟨key, db₁, hstore, hok⟩ := Script.alone_bind_eq_ok.mp hok
  cases hok
  obtain ⟨rfl, -, hstored⟩ := storeKey_eq_ok hstore
  exact ⟨_, hstored, rfl⟩

/-- **The keys an operation issues are bound well.** -/
theorem issued_bound (hdb : db.Coherent) {op : Op} {r : Result}
    (hcode : (op.code h).alone db = .ok (r, db')) {id : Uuid} {key : ApiKey}
    (hpart : .newKey id ∈ op.writes) (hkey : db'.keys.get? id = some key) : db.Bound key := by
  -- the row that was issued is the one stored
  have hrow : ∀ {fresh : NewKey} {created : CreatedApiKey} {row : ApiKey},
      Issued h fresh created row db' → id = fresh.id → db.Bound row → db.Bound key := by
    intro fresh created row hissued hid hbound
    have hstored := hissued.stored
    rw [hissued.id, ← hid, hkey] at hstored
    cases hstored
    exact hbound
  have hunbound : ∀ {row : ApiKey}, row.workspaceId = none → db.Bound row := by
    intro row hnone workspace hworkspace
    rw [hnone] at hworkspace
    cases hworkspace
  cases op with
  | createDelegatedApiKey fresh issuer scope audit name expiresAt =>
      obtain ⟨created, db₁, hcreate, hend⟩ := Script.alone_bind_eq_ok.mp hcode
      cases hend
      obtain ⟨-, ws, name', hws, hissued⟩ := createNamedApiKey_eq_ok hcreate
      refine hrow hissued (by simpa [Op.writes] using hpart) fun workspace hworkspace => ?_
      cases hworkspace
      exact ⟨ws, hws, rfl⟩
  | createApiKey fresh workspace scope user audit =>
      obtain ⟨created, db₁, hcreate, hend⟩ := Script.alone_bind_eq_ok.mp hcode
      cases hend
      obtain ⟨-, ws, name', hws, hissued⟩ := createNamedApiKey_eq_ok hcreate
      refine hrow hissued (by simpa [Op.writes] using hpart) fun workspace hworkspace => ?_
      cases hworkspace
      exact ⟨ws, hws, rfl⟩
  | createDelegatedTenantApiKey fresh issuer scope audit name expiresAt =>
      obtain ⟨created, db₁, hcreate, hend⟩ := Script.alone_bind_eq_ok.mp hcode
      cases hend
      obtain ⟨-, -, name', -, -, hissued⟩ := createDelegatedTenantApiKey_eq_ok hcreate
      exact hrow hissued (by simpa [Op.writes] using hpart) (hunbound rfl)
  | createTenantApiKey fresh tenant scope user audit name =>
      obtain ⟨created, db₁, hcreate, hend⟩ := Script.alone_bind_eq_ok.mp hcode
      cases hend
      obtain ⟨row, hstored, hnone⟩ := createTenantApiKey_eq_ok hcreate
      obtain rfl : id = fresh.id := by simpa [Op.writes] using hpart
      rw [hkey] at hstored
      cases hstored
      exact hunbound hnone
  | rotate fresh shred actor old =>
      obtain ⟨created, db₁, hrotate, hend⟩ := Script.alone_bind_eq_ok.mp hcode
      cases hend
      obtain ⟨replaced, -, -, hreplaced, -, -, -, hissued⟩ := rotate_eq_ok hrotate
      exact hrow hissued (by simpa [Op.writes] using hpart) (hdb.bound old replaced hreplaced)
  | _ => simp [Op.writes] at hpart

theorem Db.Coherent.op (hdb : db.Coherent) {op : Op} {r : Result}
    (hcode : (op.code h).alone db = .ok (r, db')) : db'.Coherent :=
  hdb.alone (op_within op) hcode fun _ _ hpart hkey => issued_bound hdb hcode hpart hkey

theorem Db.Coherent.setup (hdb : db.Coherent) (s : Setup) : (s.apply db).Coherent := by
  have hadds := s.apply_adds db
  refine ⟨fun tenant user role hrole => ?_, fun id key hkey workspace hworkspace => ?_⟩
  · rw [Db.role, hadds.memberships] at hrole
    obtain ⟨row, hrow⟩ := Option.isSome_iff_exists.mp (hdb.members tenant user role hrole)
    exact Option.isSome_iff_exists.mpr ⟨row, hadds.users user row hrow⟩
  · rw [hadds.keys] at hkey
    obtain ⟨ws, hws, htenant⟩ := hdb.bound id key hkey workspace hworkspace
    exact ⟨ws, hadds.workspaces workspace ws hws, htenant⟩

end Operations

section Deletions

variable {h : Externals} {db db' : Db}

theorem Db.Coherent.withoutWorkspaces (hdb : db.Coherent) (selected : Uuid → Bool) :
    (db.withoutWorkspaces selected).Coherent := by
  refine ⟨hdb.members, fun id key hkey workspace hworkspace => ?_⟩
  -- a key that is left is bound to a workspace that is left
  simp only [Db.withoutWorkspaces, Table.get?_deleteWhere] at hkey
  obtain ⟨hkey, hkept⟩ := Option.filter_eq_some_iff.mp hkey
  obtain ⟨ws, hws, htenant⟩ := hdb.bound id key hkey workspace hworkspace
  refine ⟨ws, ?_, htenant⟩
  simp only [hworkspace, Option.any_some] at hkept
  simp only [Db.withoutWorkspaces, OrderedMap.get?_filter, hws]
  exact Option.filter_eq_some_iff.mpr ⟨rfl, hkept⟩

theorem Db.Coherent.withoutTenant (hdb : db.Coherent) (tenant : Uuid) :
    (db.withoutTenant tenant).Coherent := by
  refine ⟨fun t user role hrole => ?_, fun id key hkey => ?_⟩
  · simp only [Db.role, Db.withoutTenant, OrderedMap.get?_filter] at hrole
    exact hdb.members t user role (Option.filter_eq_some_iff.mp hrole).1
  · simp only [Db.withoutTenant, Table.get?_deleteWhere] at hkey
    exact hdb.bound id key (Option.filter_eq_some_iff.mp hkey).1

theorem Db.Coherent.withoutUser (hdb : db.Coherent) (user : Uuid)
    {keys : Table Uuid ApiKey ApiKey.clash} {p : Uuid → ApiKey → Bool} {n : Nat}
    (hkeys : db.keys.updateWhere p (fun key => { key with userId := none }) = .ok (keys, n)) :
    (db.withoutUser user keys).Coherent := by
  refine ⟨fun t u role hrole => ?_, fun id key hkey => ?_⟩
  · simp only [Db.role, Db.withoutUser, OrderedMap.get?_filter] at hrole
    obtain ⟨hold, hne⟩ := Option.filter_eq_some_iff.mp hrole
    have hne : u ≠ user := of_decide_eq_true hne
    simp only [Db.withoutUser, Table.get?_delete, if_neg hne]
    exact hdb.members t u role hold
  · have hkey : keys.get? id = some key := hkey
    rw [Table.get?_updateWhere hkeys] at hkey
    obtain ⟨row, hrow, rfl⟩ := Option.map_eq_some_iff.mp hkey
    have hbound := hdb.bound id row hrow
    split_ifs
    · exact hbound
    · exact hbound

theorem Db.Coherent.deletion (hdb : db.Coherent) {d : Deletion} {r : Unit}
    (hcode : (d.code h).alone db = .ok (r, db')) : db'.Coherent := by
  cases d with
  | workspace forked actor workspace =>
      obtain ⟨_, -, hok⟩ := (quiet_requireCurrentTenantAdmin actor).alone_bind_eq_ok hcode
      obtain ⟨_, -, hok⟩ := (quiet_getWorkspaceTenant workspace).alone_bind_eq_ok hok
      obtain ⟨-, hok⟩ := Script.alone_failIf_bind_eq_ok.mp hok
      rw [deleteWorkspace, Script.alone_read_bind] at hok
      obtain ⟨row, -, hok⟩ := Script.alone_orFail_bind_eq_ok.mp hok
      rw [Script.alone_acquire_bind, Script.alone_read_bind] at hok
      obtain ⟨-, hok⟩ := Script.alone_failIf_bind_eq_ok.mp hok
      obtain ⟨-, hok⟩ := Script.alone_failIf_bind_eq_ok.mp hok
      rw [Script.alone_update] at hok
      cases hok
      exact hdb.withoutWorkspaces _
  | user shred user confirmed =>
      simp only [Deletion.code, deleteUser] at hcode
      split_ifs at hcode
      · cases hcode
      rw [Script.alone_read_bind] at hcode
      obtain ⟨row, -, hok⟩ := Script.alone_orFail_bind_eq_ok.mp hcode
      rw [Script.alone_read_bind] at hok
      obtain ⟨-, hok⟩ := Script.alone_failIf_bind_eq_ok.mp hok
      obtain ⟨_, db₁, hrevoke, hok⟩ := Script.alone_bind_eq_ok.mp hok
      have hwithin : Script.Within (Statement h [.keys])
          (revokeMatching h shred fun key => decide (key.userId = some user)) :=
        within_revokeMatching List.mem_cons_self _ _
      have hdb₁ : db₁.Coherent := hdb.alone hwithin hrevoke fun _ _ hpart => by simp at hpart
      rw [Script.alone_update] at hok
      obtain ⟨keys, hkeys, hok⟩ := Except.bind_eq_ok.mp hok
      cases hok
      exact hdb₁.withoutUser user (Except.mapError_eq_ok hkeys)
  | tenant retired forked tenant confirmed =>
      by_cases hrefused : tenant ≠ confirmed ∨ tenant = infrastructureTenantId
      · rw [Deletion.code, deleteTenant, if_pos hrefused] at hcode
        cases hcode
      rw [Deletion.code, deleteTenant, if_neg hrefused, Script.alone_acquire_bind, lockMembership,
        Script.alone_acquire_bind, Script.alone_read_bind] at hcode
      cases hrow : db.tenants.get? tenant with
      | none =>
          simp only [hrow] at hcode
          split_ifs at hcode
          · cases hcode
            exact hdb
          · cases hcode
      | some row =>
          simp only [hrow] at hcode
          obtain ⟨-, hok⟩ := Script.alone_failIf_bind_eq_ok.mp hcode
          obtain ⟨-, hok⟩ := Script.alone_failIf_bind_eq_ok.mp hok
          rw [Script.alone_update] at hok
          cases hok
          exact (hdb.withoutWorkspaces _).withoutTenant tenant

/-- **Step lemma.** -/
theorem Db.Coherent.change (hdb : db.Coherent) (c : Change) : (db.change h c).Coherent := by
  cases c with
  | op op =>
      cases hcode : (op.code h).alone db with
      | error e => simpa only [Db.change, Db.after, hcode] using hdb
      | ok r =>
          simp only [Db.change, Db.after, hcode]
          exact hdb.op hcode
  | setup s => exact hdb.setup s
  | deletion d =>
      cases hcode : (d.code h).alone db with
      | error e => simpa only [Db.change, Db.after, hcode] using hdb
      | ok r =>
          simp only [Db.change, Db.after, hcode]
          exact hdb.deletion hcode

/-- **Run lemma.** Every database reached is coherent. -/
theorem run_coherent (h : Externals) (clock : Instant) (changes : List Change) :
    (run (Db.change h) (.empty clock) changes).Coherent := by
  have hmeet : StepsMeet (Db.change h) (fun _ _ => True) (.empty clock) changes :=
    StepsMeet.of_forall (fun _ _ => trivial) _ _
  exact run_invariant Db.Coherent (fun _ c hdb _ => hdb.change c) (Db.empty_coherent clock) hmeet

end Deletions

end Yorishiro.Tenancy
