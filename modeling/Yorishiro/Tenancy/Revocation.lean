import Yorishiro.Tenancy.Runs

/-!
# Revocation is final

Keys stay stored, with the grant they were issued with, and a revocation stays as it is:
`keysKept` derives this from what a statement can do. A removal revokes every key of the
member in its transaction, so these keys authenticate nobody in any later state, whatever
becomes of the user (`removed_keys_dead`).
-/

set_option autoImplicit false

namespace Yorishiro.Tenancy

open Yorishiro.Lib
open Yorishiro.Lib.Fence
open Yorishiro.Lib.Transition
open Yorishiro.Queue (Instant)

/-! ## Stored keys -/

/-- What becomes of a stored key: the grant stays, and a revocation does. -/
structure ApiKey.Becomes (key key' : ApiKey) : Prop where
  tenant : key'.tenantId = key.tenantId
  workspace : key'.workspaceId = key.workspaceId
  user : key'.userId = key.userId
  scope : key'.scope = key.scope
  audit : key'.audit = key.audit
  expires : key'.expiresAt = key.expiresAt
  revoked : ∀ time, key.revokedAt = some time → key'.revokedAt = some time

theorem ApiKey.Becomes.refl (key : ApiKey) : key.Becomes key :=
  ⟨rfl, rfl, rfl, rfl, rfl, rfl, fun _ h => h⟩

theorem ApiKey.Becomes.trans {a b c : ApiKey} (hab : a.Becomes b) (hbc : b.Becomes c) :
    a.Becomes c where
  tenant := hbc.tenant.trans hab.tenant
  workspace := hbc.workspace.trans hab.workspace
  user := hbc.user.trans hab.user
  scope := hbc.scope.trans hab.scope
  audit := hbc.audit.trans hab.audit
  expires := hbc.expires.trans hab.expires
  revoked := fun time h => hbc.revoked time (hab.revoked time h)

/-- No key is lost. -/
def KeysKept (db db' : Db) : Prop :=
  ∀ id key, db.keys.get? id = some key → ∃ key', db'.keys.get? id = some key' ∧ key.Becomes key'

theorem KeysKept.refl (db : Db) : KeysKept db db := fun _ key hkey => ⟨key, hkey, .refl key⟩

theorem KeysKept.of_eq {db db' : Db} (h : db'.keys = db.keys) : KeysKept db db' := by
  intro id key hkey
  rw [← h] at hkey
  exact ⟨key, hkey, .refl key⟩

theorem KeysKept.trans {u v w : Db} (huv : KeysKept u v) (hvw : KeysKept v w) : KeysKept u w := by
  intro id key hkey
  obtain ⟨key₁, hkey₁, hbecomes₁⟩ := huv id key hkey
  obtain ⟨key₂, hkey₂, hbecomes₂⟩ := hvw id key₁ hkey₁
  exact ⟨key₂, hkey₂, hbecomes₁.trans hbecomes₂⟩

/-- An update of one row that keeps what it has to keep. -/
theorem KeysKept.of_updateRow {db : Db} {id : Uuid} {p : ApiKey → Bool} {f : ApiKey → ApiKey}
    {keys : Table Uuid ApiKey ApiKey.clash} {n : Nat}
    (hf : ∀ key, p key = true → key.Becomes (f key))
    (hok : db.keys.updateRow id p f = .ok (keys, n)) : KeysKept db { db with keys := keys } := by
  intro l key hkey
  rcases Table.updateRow_eq_ok hok with ⟨row, hrow, hp, -, hreplaces⟩ | ⟨-, -, rfl⟩
  · by_cases hl : l = id
    · subst hl
      obtain rfl : row = key := Option.some.inj (hrow.symm.trans hkey)
      exact ⟨f row, hreplaces.get?_self, hf row hp⟩
    · exact ⟨key, (hreplaces.get?_ne hl).trans hkey, .refl key⟩
  · exact ⟨key, hkey, .refl key⟩

/-- **Keys are kept by everything.** -/
theorem keysKept (h : Externals) : Kept h KeysKept where
  refl := KeysKept.refl
  trans := fun _ _ _ => KeysKept.trans
  setup := fun s db => .of_eq (s.apply_adds db).keys
  statement := by
    intro parts db db' hs
    cases hs with
    | insertKey _ key hrevoked hok =>
        intro l row hrow
        exact ⟨row, Table.get?_insert_of_some hok hrow, .refl row⟩
    | revokeKey _ id tenant time hash hok =>
        refine .of_updateRow (fun key hp => ?_) hok
        refine ⟨rfl, rfl, rfl, rfl, rfl, rfl, fun t ht => ?_⟩
        simp [ht] at hp
    | replaceKey _ id by_ hok =>
        refine .of_updateRow (fun key _ => ?_) hok
        exact ⟨rfl, rfl, rfl, rfl, rfl, rfl, fun _ ht => ht⟩
    | setRole => exact .refl _
    | dropRole => exact .of_eq rfl
    | grants => exact .of_eq rfl
    | insertUser => exact .of_eq rfl
    | insertInvite => exact .of_eq rfl
    | updateInvite => exact .of_eq rfl
    | redeem => exact .of_eq rfl
    | disable => exact .of_eq rfl

/-! ## What a revocation does -/

/-- The row of a revoked key. -/
def ApiKey.revokedBy (h : Externals) (time : Instant) (shred : KeyMaterial) (key : ApiKey) : ApiKey :=
  { key with revokedAt := some time, keyHash := h.hashKey (generateKey shred).2 }

section Revoke

variable {h : Externals} {db db' : Db}

theorem deleteForTenant_eq_ok {tenant id : Uuid} {shred : KeyMaterial} {r : Unit}
    (hok : (deleteForTenant h tenant id shred).alone db = .ok (r, db')) :
    ∃ key, db.keys.get? id = some key ∧ key.revokedAt = none ∧
      Table.Replaces db.keys db'.keys id (key.revokedBy h db.clock shred) ∧
      db' = { db with keys := db'.keys } := by
  rw [deleteForTenant, now, Script.alone_read_bind] at hok
  obtain ⟨changed, db₁, hupdate, hrest⟩ := Script.alone_bind_eq_ok.mp hok
  obtain ⟨keys, hkeys, rfl⟩ := updateKey_eq_ok hupdate
  rw [Script.failIf] at hrest
  split_ifs at hrest with hchanged
  · cases hrest
  · cases hrest
    rcases Table.updateRow_eq_ok hkeys with ⟨key, hkey, hp, -, hreplaces⟩ | ⟨-, hzero, -⟩
    · refine ⟨key, hkey, ?_, hreplaces, rfl⟩
      simp only [Bool.and_eq_true, Option.isNone_iff_eq_none] at hp
      exact hp.2
    · exact absurd hzero hchanged

/-- The keys with the given ids are revoked, and only the keys change. -/
structure Db.Revokes (h : Externals) (shred : Uuid → KeyMaterial) (ids : List Uuid) (db db' : Db) :
    Prop where
  row : ∀ id, db'.keys.get? id = (db.keys.get? id).map fun key =>
    if id ∈ ids then key.revokedBy h db.clock (shred id) else key
  rest : db' = { db with keys := db'.keys }

theorem revokeAll_eq_ok {shred : Uuid → KeyMaterial} {keys : List (Uuid × ApiKey)} {r : Unit}
    (hnodup : (keys.map Prod.fst).Nodup)
    (hok : (revokeAll h shred keys).alone db = .ok (r, db')) :
    db.Revokes h shred (keys.map Prod.fst) db' := by
  -- over the keys that are left, from the database the others have left
  induction keys generalizing db with
  | nil =>
      cases hok
      exact ⟨fun id => by simp, rfl⟩
  | cons e keys ih =>
      obtain ⟨id, key⟩ := e
      obtain ⟨hnot, htail⟩ := List.nodup_cons.mp hnodup
      obtain ⟨_, db₁, hfirst, hrest⟩ := Script.alone_bind_eq_ok.mp hok
      obtain ⟨row, hrow, -, hreplaces, heq⟩ := deleteForTenant_eq_ok hfirst
      have hih := ih htail hrest
      have hclock : db₁.clock = db.clock := by rw [heq]
      refine ⟨fun l => ?_, ?_⟩
      · rw [hih.row l, hclock]
        by_cases hl : l = id
        · subst hl
          have hmem : l ∈ ((l, key) :: keys).map Prod.fst := List.mem_cons_self
          rw [hreplaces.get?_self, hrow, Option.map_some, Option.map_some, if_neg hnot, if_pos hmem]
        · rw [hreplaces.get?_ne hl]
          refine congrArg (fun f => (db.keys.get? l).map f) (funext fun row => ?_)
          exact if_congr (List.mem_cons.trans (or_iff_right hl)).symm rfl rfl
      · rw [hih.rest, heq]

/-- The ids `revokeMatching` finds. -/
def Db.unrevokedIds (db : Db) (condition : ApiKey → Bool) : List Uuid :=
  (db.keys.rows.entries.filter fun e => condition e.2 && e.2.revokedAt.isNone).map Prod.fst

theorem Db.mem_unrevokedIds {condition : ApiKey → Bool} {id : Uuid} :
    id ∈ db.unrevokedIds condition ↔
      ∃ key, db.keys.get? id = some key ∧ condition key = true ∧ key.revokedAt = none := by
  simp only [Db.unrevokedIds, List.mem_map, List.mem_filter, Bool.and_eq_true,
    Option.isNone_iff_eq_none]
  constructor
  · rintro ⟨⟨id', key⟩, ⟨hmem, hcondition, hrevoked⟩, rfl⟩
    exact ⟨key, (OrderedMap.mem_entries_iff db.keys.rows _ _).mp hmem, hcondition, hrevoked⟩
  · rintro ⟨key, hkey, hcondition, hrevoked⟩
    exact ⟨(id, key), ⟨(OrderedMap.mem_entries_iff db.keys.rows _ _).mpr hkey, hcondition,
      hrevoked⟩, rfl⟩

theorem Db.nodup_unrevokedIds (db : Db) (condition : ApiKey → Bool) :
    (db.unrevokedIds condition).Nodup :=
  (db.keys.rows.nodup_keys).sublist (List.filter_sublist.map Prod.fst)

theorem revokeMatching_eq_ok {shred : Uuid → KeyMaterial} {condition : ApiKey → Bool} {r : Unit}
    (hok : (revokeMatching h shred condition).alone db = .ok (r, db')) :
    db.Revokes h shred (db.unrevokedIds condition) db' := by
  rw [revokeMatching, Script.alone_read_bind] at hok
  exact revokeAll_eq_ok (db.nodup_unrevokedIds condition) hok

/-- Keys that were unrevoked and meet the condition are revoked now. -/
theorem Db.Revokes.revoked {shred : Uuid → KeyMaterial} {condition : ApiKey → Bool}
    (hrevokes : db.Revokes h shred (db.unrevokedIds condition) db') {id : Uuid} {key : ApiKey}
    (hkey : db.keys.get? id = some key) (hcondition : condition key = true) :
    ∃ key' time, db'.keys.get? id = some key' ∧ key'.revokedAt = some time := by
  have hrow := hrevokes.row id
  rw [hkey, Option.map_some] at hrow
  cases hrevoked : key.revokedAt with
  | none =>
      rw [if_pos (Db.mem_unrevokedIds.mpr ⟨key, hkey, hcondition, hrevoked⟩)] at hrow
      exact ⟨_, db.clock, hrow, rfl⟩
  | some time =>
      have hnot : id ∉ db.unrevokedIds condition := by
        intro hmem
        obtain ⟨key', hkey', -, hunrevoked⟩ := Db.mem_unrevokedIds.mp hmem
        obtain rfl : key = key' := Option.some.inj (hkey.symm.trans hkey')
        rw [hrevoked] at hunrevoked
        cases hunrevoked
      rw [if_neg hnot] at hrow
      exact ⟨key, time, hrow, hrevoked⟩

/-! ## Removals -/

/-- The keys of a user in a tenant. -/
def ApiKey.attributedTo (tenant user : Uuid) (key : ApiKey) : Bool :=
  decide (key.tenantId = tenant) && decide (key.userId = some user)

/-- The database without a membership and the user's grants in the tenant. -/
def Db.withoutMember (db : Db) (tenant user : Uuid) : Db :=
  ({ db with
    grants := db.grants.filter fun k _ => !(decide ((ofLex k).2 = user) &&
      (db.workspaces.get? (ofLex k).1).any fun ws => decide (ws.tenantId = tenant)) } : Db).dropRole
    tenant user

theorem removeMemberInTransaction_eq_ok {shred : Uuid → KeyMaterial} {tenant user : Uuid} {r : Unit}
    (hok : (removeMemberInTransaction h shred tenant user).alone db = .ok (r, db')) :
    (db.withoutMember tenant user).Revokes h shred
      ((db.withoutMember tenant user).unrevokedIds (ApiKey.attributedTo tenant user)) db' := by
  obtain ⟨_, -, hok⟩ := (quiet_protectOwner tenant user none).alone_bind_eq_ok hok
  exact revokeMatching_eq_ok hok

/-- The operation removes the user from the tenant. -/
def Op.Removes (tenant user : Uuid) : Op → Prop
  | .removeMember _ t u => t = tenant ∧ u = user
  | .removeMemberAs _ actor u => actor.tenantId = tenant ∧ u = user
  | _ => False

theorem Op.Removes.revoked {op : Op} {tenant user : Uuid} (hop : op.Removes tenant user)
    {r : Result} (hcode : (op.code h).alone db = .ok (r, db')) {id : Uuid} {key : ApiKey}
    (hkey : db.keys.get? id = some key) (htenant : key.tenantId = tenant)
    (huser : key.userId = some user) :
    ∃ key' time, db'.keys.get? id = some key' ∧ key'.revokedAt = some time := by
  have hattributed : key.attributedTo tenant user = true := by
    simp [ApiKey.attributedTo, htenant, huser]
  have hremoved : ∀ {shred : Uuid → KeyMaterial} {x : Unit} {db₁ : Db},
      (removeMemberInTransaction h shred tenant user).alone db = .ok (x, db₁) →
        ∃ key' time, db₁.keys.get? id = some key' ∧ key'.revokedAt = some time :=
    fun hremove => (removeMemberInTransaction_eq_ok hremove).revoked hkey hattributed
  cases op with
  | removeMember shred t u =>
      obtain ⟨rfl, rfl⟩ := hop
      obtain ⟨_, db₁, hremove, hend⟩ := Script.alone_bind_eq_ok.mp hcode
      cases hend
      exact hremoved hremove
  | removeMemberAs shred actor u =>
      obtain ⟨rfl, rfl⟩ := hop
      obtain ⟨_, db₁, hremove, hend⟩ := Script.alone_bind_eq_ok.mp hcode
      cases hend
      obtain ⟨_, -, hremove⟩ := (quiet_requireCurrentTenantAdmin actor).alone_bind_eq_ok hremove
      obtain ⟨_, -, hremove⟩ := (quiet_getMembershipRole _ _).alone_bind_eq_ok hremove
      obtain ⟨_, -, hremove⟩ := (quiet_requireOwnerIf _ _).alone_bind_eq_ok hremove
      exact hremoved hremove
  | _ => exact hop.elim

end Revoke

/-! ## Dead keys -/

/-- The key is stored as revoked. -/
def Db.RevokedKey (db : Db) (id : Uuid) : Prop :=
  ∃ key time, db.keys.get? id = some key ∧ key.revokedAt = some time

/-- The key can be used by nobody, on either backend. -/
structure Db.DeadKey (h : Externals) (db : Db) (id : Uuid) : Prop where
  inactive : ∀ key time, db.keys.get? id = some key → key.isActive time = false
  authenticate : ∀ presented requested ctx db',
    (authenticate h presented requested).alone db = .ok (ctx, db') → ctx.apiKeyId ≠ id
  authenticateSqlite : ∀ presented requested ctx db',
    (authenticateSqlite h presented requested).alone db = .ok (ctx, db') → ctx.apiKeyId ≠ id

section Dead

variable {h : Externals} {db db' : Db}

/-- Whoever is admitted has the id of the credential. -/
theorem admitCredential_apiKeyId {hash : Digest} {requested : Option Uuid} {ctx : AuthContext}
    (hok : (admitCredential ((db.keyByHash hash).map fun e => e.2.credential e.1)
      requested).alone db = .ok (ctx, db')) :
    ∃ key, db.keys.get? ctx.apiKeyId = some key ∧ key.revokedAt = none := by
  obtain ⟨⟨id, key, hfound, workspace, -, hworth⟩, -⟩ := admitCredential_eq_ok.mp hok
  obtain ⟨hkey, -, husable⟩ := keyByHash_eq_some.mp hfound
  obtain ⟨-, hid, -⟩ := worth_identity_eq_some.mp hworth
  rw [hid]
  exact ⟨key, hkey, (usable_iff.mp husable).1⟩

theorem Db.RevokedKey.dead {id : Uuid} (hrevoked : db.RevokedKey id) : db.DeadKey h id := by
  obtain ⟨key, time, hkey, hat⟩ := hrevoked
  have hother : ∀ ctx : AuthContext, (∃ row, db.keys.get? ctx.apiKeyId = some row ∧
      row.revokedAt = none) → ctx.apiKeyId ≠ id := by
    rintro ctx ⟨row, hrow, hunrevoked⟩ rfl
    obtain rfl : key = row := Option.some.inj (hkey.symm.trans hrow)
    rw [hat] at hunrevoked
    cases hunrevoked
  refine ⟨fun row now hrow => ?_, fun presented requested ctx db' hok => ?_,
    fun presented requested ctx db' hok => ?_⟩
  · obtain rfl : key = row := Option.some.inj (hkey.symm.trans hrow)
    simp [ApiKey.isActive, hat]
  · rw [authenticate, Script.alone_read_bind, authenticateApiKey_head?] at hok
    exact hother ctx (admitCredential_apiKeyId hok)
  · rw [authenticateSqlite, Script.alone_bind, alone_findSqliteAuthContext] at hok
    exact hother ctx (admitCredential_apiKeyId hok)

theorem Db.RevokedKey.kept {id : Uuid} (hrevoked : db.RevokedKey id) (hkept : KeysKept db db') :
    db'.RevokedKey id := by
  obtain ⟨key, time, hkey, hat⟩ := hrevoked
  obtain ⟨key', hkey', hbecomes⟩ := hkept id key hkey
  exact ⟨key', time, hkey', hbecomes.revoked time hat⟩

end Dead

/-! ## Main result -/

/-- **A removal kills the member's keys for good**, in every run from any database: a key of
the member that was there when the user was removed is dead in every later state. More
generally, a key that is revoked in some state is dead in every later one. -/
theorem removed_keys_dead (h : Externals) (db : Db) (labels : List Label) :
    (∀ call ∈ (run (Trace.step h) (.start db) labels).calls, ∀ tenant user,
      call.op.Removes tenant user → ∀ id key, call.before.keys.get? id = some key →
        key.tenantId = tenant → key.userId = some user →
          (run (Trace.step h) (.start db) labels).db.DeadKey h id) ∧
      ∀ later id, (run (Trace.step h) (.start db) labels).db.RevokedKey id →
        (run (Trace.step h) (.start db) (labels ++ later)).db.DeadKey h id := by
  have hordered := run_ordered (keysKept h) db labels
  constructor
  · intro call hcall tenant user hremoves id key hkey htenant huser
    have hrevoked : call.after.RevokedKey id := by
      exact hremoves.revoked (hordered.ran call hcall) hkey htenant huser
    exact (hrevoked.kept (hordered.later call hcall)).dead
  · intro later id hrevoked
    rw [run_append]
    exact (hrevoked.kept (run_kept (keysKept h) _ later)).dead

end Yorishiro.Tenancy
