import Yorishiro.Tenancy.Delegation

/-!
# Owner authority and key rotation

Membership changes that touch ownership ask for an owner; issuing and rotating keys asks for
an administrator. A delegated key is attributed to its caller. A rotated key keeps the
attribution of the key it replaces, and its plaintext goes to the caller, so an administrator
who rotates an owner's key receives a key of that owner (`rotate_hands_over_owner`). As long
as no rotation is of an owner's key, callers who are no owners receive no owner's key
(`owner_keys_stay`).
-/

set_option autoImplicit false

namespace Yorishiro.Tenancy

open Yorishiro.Lib
open Yorishiro.Lib.Fence
open Yorishiro.Lib.Transition
open Yorishiro.Queue (Instant)

/-! ## Callers -/

/-- The operator's own commands. -/
def Op.byOperator : Op → Bool
  | .createApiKey .. => true
  | .createTenantApiKey .. => true
  | .revoke .. => true
  | .addMember .. => true
  | .removeMember .. => true
  | .grantWorkspace .. => true
  | .revokeGrant .. => true
  | .createInvite .. => true
  | .disableByOperator .. => true
  | _ => false

/-- The identity the caller acts with. -/
def Op.actor : Op → Option AuthContext
  | .createDelegatedApiKey _ issuer .. => some issuer
  | .createDelegatedTenantApiKey _ issuer .. => some issuer
  | .rotate _ _ actor _ => some actor
  | .revokeForTenant actor .. => some actor
  | .addMemberByEmail actor .. => some actor
  | .updateMemberAccess actor .. => some actor
  | .transferOwnership actor _ => some actor
  | .removeMemberAs _ actor _ => some actor
  | .grantAs actor .. => some actor
  | .revokeAs _ actor .. => some actor
  | .createInviteAs _ actor .. => some actor
  | .reissueInviteAs _ actor .. => some actor
  | .revokeInviteAs actor _ => some actor
  | .acceptAuthenticatedUser actor _ => some actor
  | .disableAs _ actor _ => some actor
  | _ => none

/-- The key is attributed to an owner of its tenant. -/
def Db.ownerKey (db : Db) (id : Uuid) : Bool :=
  (db.keys.get? id).any fun key =>
    key.userId.any fun user => decide (db.role key.tenantId user = some .owner)

/-- A step of a caller who does not act with an owner's key. -/
def Trace.Unprivileged (t : Trace) : Label → Prop
  | .op op =>
      op.byOperator = false ∧ ∀ actor, op.actor = some actor → t.db.ownerKey actor.apiKeyId = false
  | .setup _ => True

/-- A rotation is not of an owner's key. -/
def Trace.SparesOwners (t : Trace) : Label → Prop
  | .op (.rotate _ _ _ id) => t.db.ownerKey id = false
  | _ => True

/-- The plaintext a caller receives. -/
def Result.plaintext : Result → Option String
  | .key created => some created.plaintext
  | .tenantKey _ plaintext => some plaintext
  | _ => none

/-- A plaintext the caller receives opens no key of an owner of the tenant, unless the owner
is the caller. -/
def Call.OwnerSafe (h : Externals) (call : Call) : Prop :=
  ∀ plaintext, call.result.plaintext = some plaintext → ∀ id key user,
    call.after.keys.get? id = some key → key.keyHash = h.hashKey plaintext →
      key.userId = some user → call.before.role key.tenantId user = some .owner →
        ∃ actor, call.op.actor = some actor ∧ actor.userId = some user

/-! ## Rotation hands over owners' keys -/

/-- A tenant with an owner and an administrator, each with a key. -/
def staffed : Db :=
  (run (Trace.step .plain) (.start (.empty 0))
    [.setup (.tenant 1 "acme"), .setup (.user 10 ⟨"owner@acme", none, none⟩),
      .setup (.user 11 ⟨"admin@acme", none, none⟩), .setup (.workspace 20 ⟨1, "main"⟩),
      .op (.addMember 1 10 .owner), .op (.addMember 1 11 .admin),
      .op (.createTenantApiKey ⟨30, ⟨"own", "one"⟩⟩ 1 .migration (some 10) false "owner"),
      .op (.createTenantApiKey ⟨31, ⟨"adm", "two"⟩⟩ 1 .migration (some 11) false "admin")]).db

/-- The administrator rotates the owner's key. -/
def seizure : Label :=
  .op (.rotate ⟨32, ⟨"new", "three"⟩⟩ ⟨"shred", "four"⟩ ⟨31, 20, 1, .migration, some 11, false⟩ 30)

/-- **An administrator obtains an owner's key.** The caller is no owner, and the call succeeds
with a key of the owner. -/
theorem rotate_hands_over_owner :
    StepsMeet (Trace.step .plain) Trace.Unprivileged (.start staffed) [seizure] ∧
      ∃ call ∈ (run (Trace.step .plain) (.start staffed) [seizure]).calls,
        ¬call.OwnerSafe .plain := by
  refine ⟨⟨⟨rfl, fun actor hactor => ?_⟩, trivial⟩, ?_⟩
  · cases hactor
    decide
  · have hlength : (run (Trace.step .plain) (.start staffed) [seizure]).calls.length = 1 := by
      decide
    obtain ⟨call, hcalls⟩ := List.length_eq_one_iff.mp hlength
    -- what the call returned and stored, evaluated
    have hfacts : ∀ c ∈ (run (Trace.step .plain) (.start staffed) [seizure]).calls,
        c.result.plaintext = some "ysr_new_three" ∧
          (c.after.keys.get? 32).map (fun key => (key.keyHash, key.userId, key.tenantId)) =
            some (Externals.plain.hashKey "ysr_new_three", some 10, 1) ∧
          c.before.role 1 10 = some .owner ∧ c.op.actor.bind (·.userId) = some 11 := by
      decide
    have hcall : call ∈ (run (Trace.step .plain) (.start staffed) [seizure]).calls := by
      rw [hcalls]
      exact List.mem_singleton_self call
    obtain ⟨hplaintext, hkey, hrole, hactor⟩ := hfacts call hcall
    obtain ⟨key, hget, heq⟩ := Option.map_eq_some_iff.mp hkey
    obtain ⟨hhash, hrest⟩ := Prod.mk.inj heq
    obtain ⟨huser, htenant⟩ := Prod.mk.inj hrest
    refine ⟨call, hcall, fun hsafe => ?_⟩
    rw [← htenant] at hrole
    obtain ⟨actor, hcaller, howner⟩ := hsafe _ hplaintext 32 key 10 hget hhash huser hrole
    rw [hcaller, Option.bind_some, howner] at hactor
    exact absurd (Option.some.inj hactor) (by decide)

/-! ## Runs that spare them -/

section Runs

variable {h : Externals}

/-- Digests are unique. -/
theorem key_of_hash {db : Db} {id id' : Uuid} {key key' : ApiKey}
    (hkey : db.keys.get? id = some key) (hkey' : db.keys.get? id' = some key')
    (hhash : key.keyHash = key'.keyHash) : key = key' := by
  by_contra hne
  have hids : id ≠ id' := by
    rintro rfl
    exact hne (Option.some.inj (hkey.symm.trans hkey'))
  have hclash := Table.clash_eq_false (fun a b => by simp [ApiKey.clash, eq_comm]) hids hkey hkey'
  simp [ApiKey.clash, hhash] at hclash

/-- The plaintext of a new key opens that key only. -/
theorem Issued.ownerSafe {call : Call} {fresh : NewKey} {created : CreatedApiKey} {row : ApiKey}
    (hissued : Issued h fresh created row call.after) (hresult : call.result = .key created)
    (hrow : ∀ user, row.userId = some user → call.before.role row.tenantId user = some .owner →
      ∃ actor, call.op.actor = some actor ∧ actor.userId = some user) : call.OwnerSafe h := by
  intro plaintext hplaintext id key user hkey hhash huser hrole
  rw [hresult] at hplaintext
  cases hplaintext
  obtain rfl : key = row := key_of_hash hkey hissued.stored (hhash.trans hissued.hash.symm)
  exact hrow user huser hrole

theorem ownerKey_eq_false {db : Db} {id : Uuid} {key : ApiKey} {user : Uuid}
    (hkey : db.keys.get? id = some key) (huser : key.userId = some user)
    (hid : db.ownerKey id = false) : db.role key.tenantId user ≠ some .owner := by
  simpa [Db.ownerKey, hkey, huser] using hid

/-- **Step lemma.** -/
theorem call_ownerSafe {call : Call} (hran : call.Ran h)
    (hcaller : (Trace.start call.before).Unprivileged (.op call.op))
    (hspares : (Trace.start call.before).SparesOwners (.op call.op)) : call.OwnerSafe h := by
  obtain ⟨op, result, db, db'⟩ := call
  -- a result without a plaintext is safe
  have hnone : ∀ {α : Type} {p : Tx α} {f : α → Result}, (∀ a, (f a).plaintext = none) →
      (p >>= fun a => pure (f a)).alone db = .ok (result, db') →
        Call.OwnerSafe h ⟨op, result, db, db'⟩ := by
    intro α p f hf hok plaintext hplaintext
    obtain ⟨a, db₁, -, hend⟩ := Script.alone_bind_eq_ok.mp hok
    cases hend
    rw [hf a] at hplaintext
    cases hplaintext
  cases op with
  | createDelegatedApiKey fresh issuer scope audit name expiresAt =>
      obtain ⟨created, db₁, hcreate, hend⟩ := Script.alone_bind_eq_ok.mp hran
      cases hend
      obtain ⟨-, ws, name', -, hissued⟩ := createNamedApiKey_eq_ok hcreate
      exact hissued.ownerSafe rfl fun user huser _ => ⟨issuer, rfl, huser⟩
  | createDelegatedTenantApiKey fresh issuer scope audit name expiresAt =>
      obtain ⟨created, db₁, hcreate, hend⟩ := Script.alone_bind_eq_ok.mp hran
      cases hend
      obtain ⟨-, -, name', -, -, hissued⟩ := createDelegatedTenantApiKey_eq_ok hcreate
      exact hissued.ownerSafe rfl fun user huser _ => ⟨issuer, rfl, huser⟩
  | rotate fresh shred actor id =>
      obtain ⟨created, db₁, hrotate, hend⟩ := Script.alone_bind_eq_ok.mp hran
      cases hend
      obtain ⟨old, -, -, hold, -, -, -, hissued⟩ := rotate_eq_ok hrotate
      refine hissued.ownerSafe rfl fun user huser hrole => ?_
      have hnot : db.role old.tenantId user ≠ some .owner := ownerKey_eq_false hold huser hspares
      exact absurd hrole hnot
  | revokeForTenant actor id shred => exact hnone (fun _ => rfl) hran
  | addMemberByEmail actor email role => exact hnone (fun _ => rfl) hran
  | updateMemberAccess actor user role => exact hnone (fun _ => rfl) hran
  | transferOwnership actor successor => exact hnone (fun _ => rfl) hran
  | removeMemberAs shred actor user => exact hnone (fun _ => rfl) hran
  | grantAs actor workspace user role => exact hnone (fun _ => rfl) hran
  | revokeAs shred actor workspace user => exact hnone (fun _ => rfl) hran
  | createInviteAs fresh actor email role expiresAt => exact hnone (fun _ => rfl) hran
  | reissueInviteAs token actor id expiresAt => exact hnone (fun _ => rfl) hran
  | revokeInviteAs actor id => exact hnone (fun _ => rfl) hran
  | acceptExistingUser token email password => exact hnone (fun _ => rfl) hran
  | acceptAuthenticatedUser actor token => exact hnone (fun _ => rfl) hran
  | registerUser fresh token password displayName => exact hnone (fun _ => rfl) hran
  | disableAs shred actor confirmed => exact hnone (fun _ => rfl) hran
  | _ => cases hcaller.1

/-- **Callers who are no owners receive no owner's key**, in every run of theirs in which no
rotation is of an owner's key. -/
theorem owner_keys_stay (h : Externals) (db : Db) (labels : List Label)
    (hrun : StepsMeet (Trace.step h) (fun t label => t.Unprivileged label ∧ t.SparesOwners label)
      (.start db) labels) :
    ∀ call ∈ (run (Trace.step h) (.start db) labels).calls, call.OwnerSafe h := by
  refine run_invariant (fun t => ∀ call ∈ t.calls, call.OwnerSafe h) (fun t label ht hcond => ?_)
    (List.forall_mem_nil _) hrun
  cases label with
  | setup s => exact ht
  | op op =>
      cases hcode : (op.code h).alone t.db with
      | error e => simpa only [Trace.step, hcode] using ht
      | ok r =>
          simp only [Trace.step, hcode]
          intro call hcall
          rcases List.mem_append.mp hcall with hold | hnew
          · exact ht call hold
          · rw [List.mem_singleton.mp hnew]
            refine call_ownerSafe hcode hcond.1 ?_
            cases op with
            | rotate => exact hcond.2
            | _ => trivial

end Runs

/-- The administrator issues a key and rotates it. -/
def routine : List Label :=
  [.op (.createDelegatedTenantApiKey ⟨33, ⟨"sub", "five"⟩⟩ ⟨31, 20, 1, .migration, some 11, false⟩
      .write false "sub" none),
    .op (.rotate ⟨34, ⟨"sub", "six"⟩⟩ ⟨"shred", "seven"⟩ ⟨31, 20, 1, .migration, some 11, false⟩ 33)]

/-- Both calls succeed and hand over keys of the administrator only. -/
theorem owner_keys_stay_routine :
    (run (Trace.step .plain) (.start staffed) routine).calls.length = 2 ∧
      ∀ call ∈ (run (Trace.step .plain) (.start staffed) routine).calls,
        call.OwnerSafe .plain := by
  refine ⟨by decide, owner_keys_stay .plain staffed routine ?_⟩
  have hadmin : ∀ t : Trace, t.db.ownerKey 31 = false → ∀ op : Op, op.byOperator = false →
      (op.actor.map (·.apiKeyId)) = some 31 → t.Unprivileged (.op op) := by
    intro t hkey op hop hactor
    refine ⟨hop, fun actor hsome => ?_⟩
    rw [hsome, Option.map_some] at hactor
    rw [Option.some.inj hactor]
    exact hkey
  refine ⟨⟨hadmin _ (by decide) _ rfl rfl, trivial⟩,
    ⟨hadmin _ (by decide) _ rfl rfl, ?_⟩, trivial⟩
  change Db.ownerKey _ 33 = false
  decide

end Yorishiro.Tenancy
