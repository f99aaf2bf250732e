import Yorishiro.Tenancy.Revocation

/-!
# Delegation never widens

A key is issued with another one by `create_delegated_api_key`, by
`create_delegated_tenant_api_key` and by `rotate`; the issuer is the key of the caller. One
spec lemma for each says what the caller's credential was worth and which row is stored.

`ApiKey.Narrower` compares grants in their five dimensions. Every key is narrower than its
issuer, and within what the issuer was worth when it was issued; grants of stored keys do not
change, so this composes along chains of any length (`delegation_narrows`).
-/

set_option autoImplicit false

namespace Yorishiro.Tenancy

open Yorishiro.Lib
open Yorishiro.Lib.Fence
open Yorishiro.Lib.Transition
open Yorishiro.Queue (Instant)

/-! ## Comparing grants -/

/-- The grant of a key is no wider than another one's. -/
structure ApiKey.Narrower (child parent : ApiKey) : Prop where
  tenant : child.tenantId = parent.tenantId
  scope : child.scope ≤ parent.scope
  audit : child.audit = true → parent.audit = true
  expires : ∀ limit, parent.expiresAt = some limit →
    ∃ expiry, child.expiresAt = some expiry ∧ expiry ≤ limit
  workspace : ∀ workspace, parent.workspaceId = some workspace →
    child.workspaceId = some workspace

namespace ApiKey.Narrower

theorem refl (key : ApiKey) : key.Narrower key :=
  ⟨rfl, le_rfl, fun h => h, fun limit h => ⟨limit, h, le_rfl⟩, fun _ h => h⟩

theorem trans {a b c : ApiKey} (hab : a.Narrower b) (hbc : b.Narrower c) : a.Narrower c where
  tenant := hab.tenant.trans hbc.tenant
  scope := hab.scope.trans hbc.scope
  audit := fun h => hbc.audit (hab.audit h)
  expires := by
    intro limit hlimit
    obtain ⟨middle, hmiddle, hle⟩ := hbc.expires limit hlimit
    obtain ⟨expiry, hexpiry, hle'⟩ := hab.expires middle hmiddle
    exact ⟨expiry, hexpiry, hle'.trans hle⟩
  workspace := fun w hw => hab.workspace w (hbc.workspace w hw)

/-- Grants of stored keys do not change, so the comparison stays. -/
theorem becomes {child child' parent parent' : ApiKey} (h : child.Narrower parent)
    (hchild : child.Becomes child') (hparent : parent.Becomes parent') :
    child'.Narrower parent' where
  tenant := by rw [hchild.tenant, hparent.tenant, h.tenant]
  scope := by
    rw [hchild.scope, hparent.scope]
    exact h.scope
  audit := by
    rw [hchild.audit, hparent.audit]
    exact h.audit
  expires := by
    rw [hchild.expires, hparent.expires]
    exact h.expires
  workspace := by
    rw [hchild.workspace, hparent.workspace]
    exact h.workspace

end ApiKey.Narrower

/-! ## What the checks establish -/

/-- What an identity is worth comes from its stored key. -/
theorem current_eq_some {db : Db} {actor current : AuthContext}
    (hcurrent : db.current actor = some current) :
    ∃ key, db.keys.get? actor.apiKeyId = some key ∧ key.backs actor db.clock = true ∧
      db.worth (key.identity actor.apiKeyId actor.workspaceId) = some current := by
  obtain ⟨key, hkey, hworth⟩ := Option.bind_eq_some_iff.mp hcurrent
  obtain ⟨hstored, hbacks⟩ := Option.filter_eq_some_iff.mp hkey
  exact ⟨key, hstored, hbacks, hworth⟩

theorem ApiKey.backs_iff {key : ApiKey} {presented : AuthContext} {time : Instant} :
    key.backs presented time = true ↔ key.isActive time = true ∧
      key.tenantId = presented.tenantId ∧ key.userId = presented.userId ∧
      ∀ workspace, key.workspaceId = some workspace → workspace = presented.workspaceId := by
  simp only [ApiKey.backs, Bool.and_eq_true, decide_eq_true_eq, Option.all_eq_true, and_assoc]

/-- A key with the given grant may be issued with the key of `actor`. -/
structure Db.Delegates (db : Db) (actor : AuthContext) (scope : ApiKeyScope) (audit : Bool)
    (expiresAt : Option Instant) (key : ApiKey) (current : AuthContext) : Prop where
  worth : db.current actor = some current
  admin : ∃ user, current.userId = some user ∧ db.Administers current.tenantId user
  covers : scope ≤ current.scope
  audited : audit = true → current.audit = true
  stored : db.keys.get? actor.apiKeyId = some key
  lifetime : exceedsLifetime key.expiresAt expiresAt = false

theorem exceedsLifetime_eq_false {limit expiresAt : Option Instant} :
    exceedsLifetime limit expiresAt = false ↔ ∀ l, limit = some l →
      ∃ expiry, expiresAt = some expiry ∧ expiry ≤ l := by
  cases limit with
  | none => simp [exceedsLifetime]
  | some l =>
      cases expiresAt with
      | none => simp [exceedsLifetime]
      | some expiry => simp [exceedsLifetime]

section Delegates

variable {db : Db} {actor current : AuthContext} {scope : ApiKeyScope} {audit : Bool}
  {expiresAt : Option Instant} {key : ApiKey}

/-- The issuer's identity as its key has it, in a workspace of its tenant. -/
theorem Db.Delegates.issuer (hd : db.Delegates actor scope audit expiresAt key current) :
    key.tenantId = actor.tenantId ∧ key.userId = actor.userId ∧
      (∀ workspace, key.workspaceId = some workspace → workspace = actor.workspaceId) ∧
      (∃ ws, db.workspaces.get? actor.workspaceId = some ws ∧ ws.tenantId = key.tenantId) ∧
      scope ≤ key.scope ∧ (audit = true → key.audit = true) := by
  obtain ⟨key', hkey', hbacks, hworth⟩ := current_eq_some hd.worth
  obtain rfl : key = key' := Option.some.inj (hd.stored.symm.trans hkey')
  obtain ⟨-, htenant, huser, hworkspace⟩ := ApiKey.backs_iff.mp hbacks
  obtain ⟨-, -, -, -, hcuser, haudit, -, hattributed⟩ := worth_identity_eq_some.mp hworth
  obtain ⟨user, hu, -⟩ := hd.admin
  obtain ⟨role, access, -, haccess, hscope⟩ := hattributed user (hcuser.symm.trans hu)
  refine ⟨htenant, huser, hworkspace, (Db.access_eq_some.mp haccess).1, ?_, fun h => ?_⟩
  · exact hd.covers.trans (hscope.le.trans (min_le_left _ _))
  · rw [← haudit]
    exact hd.audited h

/-- A row within what the issuer may delegate, in its tenant and binding. -/
theorem Db.Delegates.narrower (hd : db.Delegates actor scope audit expiresAt key current)
    {child : ApiKey} (htenant : child.tenantId = key.tenantId) (hscope : child.scope = scope)
    (haudit : child.audit = audit) (hexpires : child.expiresAt = expiresAt)
    (hworkspace : ∀ workspace, key.workspaceId = some workspace →
      child.workspaceId = some workspace) : child.Narrower key where
  tenant := htenant
  scope := by
    obtain ⟨-, -, -, -, hle, -⟩ := hd.issuer
    rw [hscope]
    exact hle
  audit := by
    obtain ⟨-, -, -, -, -, hkey⟩ := hd.issuer
    rw [haudit]
    exact hkey
  expires := by
    rw [hexpires]
    exact exceedsLifetime_eq_false.mp hd.lifetime
  workspace := hworkspace

end Delegates

/-! ## The issuing operations -/

section Issue

variable {h : Externals} {db db' : Db}

theorem storeKey_eq_ok {fresh : NewKey} {row : Instant → ApiKey} {key : ApiKey}
    (hok : (storeKey fresh row).alone db = .ok (key, db')) :
    key = row db.clock ∧ db.keys.get? fresh.id = none ∧ db'.keys.get? fresh.id = some key := by
  rw [storeKey, now, Script.alone_read_bind] at hok
  obtain ⟨_, db₁, hinsert, hend⟩ := Script.alone_bind_eq_ok.mp hok
  rw [insertKey, Script.alone_update] at hinsert
  obtain ⟨_, -, hinsert⟩ := Except.bind_eq_ok.mp hinsert
  obtain ⟨keys, hkeys, hinsert⟩ := Except.bind_eq_ok.mp hinsert
  cases hinsert
  cases hend
  have hstored := Except.mapError_eq_ok hkeys
  refine ⟨rfl, (Table.insert_eq_ok hstored).1, ?_⟩
  rw [Table.get?_insert hstored, if_pos rfl]

/-- The answer has the id and the plaintext that were drawn, and the row is stored. -/
structure Issued (h : Externals) (fresh : NewKey) (created : CreatedApiKey) (row : ApiKey) (db' : Db) :
    Prop where
  id : created.id = fresh.id
  plaintext : created.plaintext = (generateKey fresh.material).2
  stored : db'.keys.get? created.id = some row
  hash : row.keyHash = h.hashKey created.plaintext

theorem requireIssuerGrant_eq_ok {actor : AuthContext} {scope : ApiKeyScope} {audit : Bool}
    {expiresAt : Option Instant} {r : Unit}
    (hok : (requireIssuerGrant (some actor) scope audit expiresAt).alone db = .ok (r, db')) :
    ∃ key current, db.Delegates actor scope audit expiresAt key current := by
  obtain ⟨current, hcontext, hok⟩ := (quiet_currentContext actor).alone_bind_eq_ok hok
  obtain ⟨_, hgrant, hok⟩ := (quiet_requireKeyGrant _ _ _).alone_bind_eq_ok hok
  rw [Script.alone_read_bind] at hok
  obtain ⟨key, hkey, hok⟩ := Script.alone_orFail_bind_eq_ok.mp hok
  obtain ⟨hcurrent, -⟩ := currentContext_eq_ok.mp hcontext
  obtain ⟨⟨hadmin, hscope, haudit⟩, -⟩ := requireKeyGrant_eq_ok.mp hgrant
  refine ⟨key, current, hcurrent, hadmin, hscope, haudit, hkey, ?_⟩
  rw [Script.failIf] at hok
  split_ifs at hok with hexceeds
  · cases hok
  · exact Bool.eq_false_iff.mpr hexceeds

theorem createNamedApiKey_eq_ok {fresh : NewKey} {workspace : Uuid} {scope : ApiKeyScope}
    {user : Option Uuid} {audit : Bool} {name : String} {issuer : Option AuthContext}
    {expiresAt : Option Instant} {created : CreatedApiKey}
    (hok : (createNamedApiKey h fresh workspace scope user audit name issuer expiresAt).alone db =
      .ok (created, db')) :
    (∀ actor, issuer = some actor →
        ∃ key current, db.Delegates actor scope audit expiresAt key current) ∧
      ∃ ws name', db.workspaces.get? workspace = some ws ∧
        Issued h fresh created (newKeyRow h fresh.material ws.tenantId (some workspace) user name'
          scope audit expiresAt db.clock) db' := by
  obtain ⟨name', -, hok⟩ := Script.alone_ofExcept_bind_eq_ok.mp hok
  obtain ⟨_, -, hok⟩ := (quiet_requireFutureExpiry expiresAt).alone_bind_eq_ok hok
  rw [Script.alone_read_bind] at hok
  obtain ⟨ws, hws, hok⟩ := Script.alone_orFail_bind_eq_ok.mp hok
  obtain ⟨_, -, hok⟩ := (quiet_requireAttributedKeyGrant _ _ _).alone_bind_eq_ok hok
  obtain ⟨_, -, hok⟩ := (quiet_requireBoundGrant _ _ _ _ _ _).alone_bind_eq_ok hok
  obtain ⟨_, hissuer, hok⟩ := (quiet_requireIssuerGrant _ _ _ _).alone_bind_eq_ok hok
  obtain ⟨key, db₁, hstore, hok⟩ := Script.alone_bind_eq_ok.mp hok
  obtain ⟨grant, -, hok⟩ := (quiet_grantMetadata key).alone_bind_eq_ok hok
  cases hok
  obtain ⟨rfl, -, hstored⟩ := storeKey_eq_ok hstore
  refine ⟨fun actor hactor => ?_, ws, name', hws, rfl, rfl, hstored, rfl⟩
  subst hactor
  exact requireIssuerGrant_eq_ok hissuer

theorem createDelegatedTenantApiKey_eq_ok {fresh : NewKey} {actor : AuthContext}
    {scope : ApiKeyScope} {audit : Bool} {name : String} {expiresAt : Option Instant}
    {created : CreatedApiKey}
    (hok : (createDelegatedTenantApiKey h fresh actor scope audit name expiresAt).alone db =
      .ok (created, db')) :
    ∃ key current name', db.Delegates actor scope audit expiresAt key current ∧
      key.workspaceId = none ∧
        Issued h fresh created (newKeyRow h fresh.material actor.tenantId none actor.userId name'
          scope audit expiresAt db.clock) db' := by
  obtain ⟨name', -, hok⟩ := Script.alone_ofExcept_bind_eq_ok.mp hok
  obtain ⟨_, -, hok⟩ := (quiet_requireFutureExpiry expiresAt).alone_bind_eq_ok hok
  obtain ⟨_, -, hok⟩ := (quiet_requireCurrentTenantAdmin actor).alone_bind_eq_ok hok
  obtain ⟨current, hcontext, hok⟩ := (quiet_currentContext actor).alone_bind_eq_ok hok
  obtain ⟨_, hgrant, hok⟩ := (quiet_requireKeyGrant _ _ _).alone_bind_eq_ok hok
  rw [Script.alone_read_bind] at hok
  obtain ⟨key, hkey, hok⟩ := Script.alone_orFail_bind_eq_ok.mp hok
  obtain ⟨hunbound, hok⟩ := Script.alone_failIf_bind_eq_ok.mp hok
  obtain ⟨hlifetime, hok⟩ := Script.alone_failIf_bind_eq_ok.mp hok
  obtain ⟨_, -, hok⟩ := (quiet_requireAttributedKeyGrant _ _ _).alone_bind_eq_ok hok
  obtain ⟨row, db₁, hstore, hok⟩ := Script.alone_bind_eq_ok.mp hok
  obtain ⟨grant, -, hok⟩ := (quiet_grantMetadata row).alone_bind_eq_ok hok
  cases hok
  obtain ⟨rfl, -, hstored⟩ := storeKey_eq_ok hstore
  obtain ⟨hcurrent, -⟩ := currentContext_eq_ok.mp hcontext
  obtain ⟨⟨hadmin, hscope, haudit⟩, -⟩ := requireKeyGrant_eq_ok.mp hgrant
  refine ⟨key, current, name', ?_, Option.not_isSome_iff_eq_none.mp hunbound, rfl, rfl, hstored,
    rfl⟩
  exact ⟨hcurrent, hadmin, hscope, haudit, hkey, Bool.eq_false_iff.mpr hlifetime⟩

/-- A revocation and its note leave the other keys alone. -/
theorem replaced_get?_ne {tenant id by_ l : Uuid} {shred : KeyMaterial} {x : Unit} {n : Nat}
    {db₁ : Db} (hdelete : (deleteForTenant h tenant id shred).alone db = .ok (x, db₁))
    (hreplace : (updateKey id (fun _ => true) fun key =>
      { key with replacedById := some by_ }).alone db₁ = .ok (n, db')) (hl : l ≠ id) :
    db'.keys.get? l = db.keys.get? l := by
  obtain ⟨row, -, -, hreplaces, -⟩ := deleteForTenant_eq_ok hdelete
  obtain ⟨keys, hkeys, rfl⟩ := updateKey_eq_ok hreplace
  rw [← hreplaces.get?_ne hl]
  rcases Table.updateRow_eq_ok hkeys with ⟨row', -, -, -, hreplaces'⟩ | ⟨-, -, rfl⟩
  · exact hreplaces'.get?_ne hl
  · rfl

theorem rotate_eq_ok {fresh : NewKey} {shred : KeyMaterial} {actor : AuthContext} {id : Uuid}
    {created : CreatedApiKey}
    (hok : (rotate h fresh shred actor id).alone db = .ok (created, db')) :
    ∃ old key current, db.keys.get? id = some old ∧ old.tenantId = actor.tenantId ∧
      db.Delegates actor old.scope old.audit old.expiresAt key current ∧
      (∀ workspace, key.workspaceId = some workspace → old.workspaceId = some workspace) ∧
      Issued h fresh created (newKeyRow h fresh.material old.tenantId old.workspaceId old.userId
        old.name old.scope old.audit old.expiresAt db.clock) db' := by
  obtain ⟨_, -, hok⟩ := (quiet_requireCurrentTenantAdmin actor).alone_bind_eq_ok hok
  rw [Script.alone_read_bind] at hok
  obtain ⟨old, hold, hok⟩ := Script.alone_orFail_bind_eq_ok.mp hok
  obtain ⟨hold, htenant⟩ := Option.filter_eq_some_iff.mp hold
  rw [now, Script.alone_read_bind] at hok
  obtain ⟨-, hok⟩ := Script.alone_failIf_bind_eq_ok.mp hok
  rw [Script.alone_read_bind] at hok
  obtain ⟨key, hkey, hok⟩ := Script.alone_orFail_bind_eq_ok.mp hok
  obtain ⟨hbinding, hok⟩ := Script.alone_failIf_bind_eq_ok.mp hok
  obtain ⟨current, hcontext, hok⟩ := (quiet_currentContext actor).alone_bind_eq_ok hok
  obtain ⟨_, hgrant, hok⟩ := (quiet_requireKeyGrant _ _ _).alone_bind_eq_ok hok
  obtain ⟨hlifetime, hok⟩ := Script.alone_failIf_bind_eq_ok.mp hok
  obtain ⟨_, -, hok⟩ := (quiet_requireAttributedKeyGrant _ _ _).alone_bind_eq_ok hok
  obtain ⟨_, -, hok⟩ := (quiet_requireBoundGrant _ _ _ _ _ _).alone_bind_eq_ok hok
  obtain ⟨row, db₁, hstore, hok⟩ := Script.alone_bind_eq_ok.mp hok
  obtain ⟨_, db₂, hdelete, hok⟩ := Script.alone_bind_eq_ok.mp hok
  obtain ⟨_, db₃, hreplace, hok⟩ := Script.alone_bind_eq_ok.mp hok
  obtain ⟨grant, -, hok⟩ := (quiet_grantMetadata row).alone_bind_eq_ok hok
  cases hok
  obtain ⟨rfl, hfresh, hstored⟩ := storeKey_eq_ok hstore
  obtain ⟨hcurrent, -⟩ := currentContext_eq_ok.mp hcontext
  obtain ⟨⟨hadmin, hscope, haudit⟩, -⟩ := requireKeyGrant_eq_ok.mp hgrant
  -- the id of the new key was free, so it is not the one that is revoked
  have hne : fresh.id ≠ id := by
    rintro rfl
    rw [hfresh] at hold
    cases hold
  refine ⟨old, key, current, hold, of_decide_eq_true htenant, ⟨hcurrent, hadmin, hscope, haudit,
    hkey, Bool.eq_false_iff.mpr hlifetime⟩, fun workspace hworkspace => ?_, rfl, rfl, ?_, rfl⟩
  · by_contra hne
    exact hbinding (by simp [hworkspace, hne])
  · exact (replaced_get?_ne hdelete hreplace hne).trans hstored

end Issue

/-! ## Links -/

/-- The identity a key is issued with. -/
def Op.issuer : Op → Option AuthContext
  | .createDelegatedApiKey _ issuer .. => some issuer
  | .createDelegatedTenantApiKey _ issuer .. => some issuer
  | .rotate _ _ actor _ => some actor
  | _ => none

/-- A call issues the key `child` with the identity `actor`. -/
def Call.Issues (call : Call) (actor : AuthContext) (child : Uuid) : Prop :=
  call.op.issuer = some actor ∧ ∃ created, call.result = .key created ∧ created.id = child

/-- **What an issue leaves.** The caller was worth `current` then, by the stored key `parent`;
the new key `key` is narrower than `parent`, and within `current`. -/
structure Call.Link (call : Call) (actor : AuthContext) (child : Uuid) (parent key : ApiKey) :
    Prop where
  issuer : call.before.keys.get? actor.apiKeyId = some parent
  stored : call.after.keys.get? child = some key
  narrower : key.Narrower parent
  effective : ∃ current, call.before.current actor = some current ∧ key.scope ≤ current.scope

section Links

variable {h : Externals}

/-- The link of a key whose row was written within what the caller may delegate. -/
theorem Call.Link.of_delegates {call : Call} {actor current : AuthContext} {scope : ApiKeyScope}
    {audit : Bool} {expiresAt : Option Instant} {parent row : ApiKey} {fresh : NewKey}
    {created : CreatedApiKey}
    (hd : call.before.Delegates actor scope audit expiresAt parent current)
    (hnarrower : row.Narrower parent) (hscope : row.scope = scope)
    (hissued : Issued h fresh created row call.after) :
    ∃ parent key, call.Link actor created.id parent key := by
  refine ⟨parent, row, hd.stored, hissued.stored, hnarrower, current, hd.worth, ?_⟩
  rw [hscope]
  exact hd.covers

/-- **Every issue is a link.** One case for each issuing operation. -/
theorem Call.Ran.link {call : Call} (hran : call.Ran h) {actor : AuthContext} {child : Uuid}
    (hissues : call.Issues actor child) : ∃ parent key, call.Link actor child parent key := by
  obtain ⟨op, result, db, db'⟩ := call
  obtain ⟨hissuer, created, hresult, rfl⟩ := hissues
  simp only at hissuer hresult
  cases op with
  | createDelegatedApiKey fresh issuer scope audit name expiresAt =>
      cases hissuer
      obtain ⟨created', db₁, hcreate, hend⟩ := Script.alone_bind_eq_ok.mp hran
      cases hend
      cases hresult
      obtain ⟨hdelegates, ws, name', hws, hissued⟩ := createNamedApiKey_eq_ok hcreate
      obtain ⟨parent, current, hd⟩ := hdelegates actor rfl
      obtain ⟨-, -, hbound, ⟨ws', hws', htenant⟩, -⟩ := hd.issuer
      obtain rfl : ws = ws' := Option.some.inj (hws.symm.trans hws')
      have hnarrower : (newKeyRow h fresh.material ws.tenantId (some actor.workspaceId) actor.userId
          name' scope audit expiresAt db.clock).Narrower parent :=
        hd.narrower htenant rfl rfl rfl fun workspace hworkspace =>
          congrArg some (hbound workspace hworkspace).symm
      exact Call.Link.of_delegates hd hnarrower rfl hissued
  | createDelegatedTenantApiKey fresh issuer scope audit name expiresAt =>
      cases hissuer
      obtain ⟨created', db₁, hcreate, hend⟩ := Script.alone_bind_eq_ok.mp hran
      cases hend
      cases hresult
      obtain ⟨parent, current, name', hd, hunbound, hissued⟩ :=
        createDelegatedTenantApiKey_eq_ok hcreate
      obtain ⟨htenant, -⟩ := hd.issuer
      have hnarrower : (newKeyRow h fresh.material actor.tenantId none actor.userId name' scope
          audit expiresAt db.clock).Narrower parent := by
        refine hd.narrower htenant.symm rfl rfl rfl fun workspace hworkspace => ?_
        rw [hunbound] at hworkspace
        cases hworkspace
      exact Call.Link.of_delegates hd hnarrower rfl hissued
  | rotate fresh shred caller id =>
      cases hissuer
      obtain ⟨created', db₁, hrotate, hend⟩ := Script.alone_bind_eq_ok.mp hran
      cases hend
      cases hresult
      obtain ⟨old, parent, current, -, hold, hd, hbinding, hissued⟩ := rotate_eq_ok hrotate
      obtain ⟨htenant, -⟩ := hd.issuer
      have hnarrower : (newKeyRow h fresh.material old.tenantId old.workspaceId old.userId old.name
          old.scope old.audit old.expiresAt db.clock).Narrower parent :=
        hd.narrower (hold.trans htenant.symm) rfl rfl rfl hbinding
      exact Call.Link.of_delegates hd hnarrower rfl hissued
  | _ => cases hissuer

end Links

/-! ## Chains -/

/-- Keys that were issued, directly or not, with the key `root`. -/
inductive Chain (calls : List Call) (root : Uuid) : Uuid → Prop where
  | root : Chain calls root root
  | issue {call : Call} {actor : AuthContext} {child : Uuid} (hcall : call ∈ calls)
      (hparent : Chain calls root actor.apiKeyId) (hissues : call.Issues actor child) :
      Chain calls root child

/-- **Delegation never widens**, in every run from any database. Each key that was issued with
another one has a narrower grant than its issuer, with a scope within what the issuer was worth
at the time; and every key of a chain, of any length, is narrower than the key the chain starts
with. -/
theorem delegation_narrows (h : Externals) (db : Db) (labels : List Label) :
    (∀ call ∈ (run (Trace.step h) (.start db) labels).calls, ∀ actor child,
      call.Issues actor child → ∃ parent key, call.Link actor child parent key) ∧
      ∀ root key, (run (Trace.step h) (.start db) labels).db.keys.get? root = some key →
        ∀ id, Chain (run (Trace.step h) (.start db) labels).calls root id →
          ∃ row, (run (Trace.step h) (.start db) labels).db.keys.get? id = some row ∧
            row.Narrower key := by
  have hordered := run_ordered (keysKept h) db labels
  refine ⟨fun call hcall actor child hissues => (hordered.ran call hcall).link hissues, ?_⟩
  intro root key hkey id hchain
  induction hchain with
  | root => exact ⟨key, hkey, .refl key⟩
  | @issue call actor child hcall _ hissues ih =>
      obtain ⟨row, hrow, hnarrower⟩ := ih
      obtain ⟨parent, issued, hlink⟩ := (hordered.ran call hcall).link hissues
      obtain ⟨issued', hissued', hchild⟩ := hordered.later call hcall child issued hlink.stored
      -- the issuer's row is kept from before the call to the end of the run
      have hafter : KeysKept call.before call.after := (keysKept h).op (hordered.ran call hcall)
      obtain ⟨parent', hparent', hbecomes⟩ :=
        hafter.trans (hordered.later call hcall) actor.apiKeyId parent hlink.issuer
      obtain rfl : row = parent' := Option.some.inj (hrow.symm.trans hparent')
      exact ⟨issued', hissued', (hlink.narrower.becomes hchild hbecomes).trans hnarrower⟩

end Yorishiro.Tenancy
