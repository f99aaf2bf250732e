import Yorishiro.Schema.Sequence
import Yorishiro.Tenancy.FirstAccount

/-!
# First logins of OAuth identities

A first login provisions a user with a tenant, a workspace, a schema and the ownership, all in
one transaction. `ProvisionedRows` says which rows such a commit adds; `Script.Effects` gives
it of the statements of `provision` together, whatever each of them sees. In any interleaving
an identity has one user at most, every user with an identity came with all of its rows, and
the user a callback resolves its identity to has that identity.
-/

set_option autoImplicit false

namespace Yorishiro.Tenancy

open Yorishiro.Lib
open Yorishiro.Lib.Fence
open Yorishiro.Lib.JsonSchema (Dialect)
open Yorishiro.Lib.Transition
open Yorishiro.Metaschema (MetaSchemaDefinition)
open Yorishiro.Schema (versionLockKey)

/-- **What a first login leaves.** None of the rows was there before; the user has no password,
the workspace is the tenant's and active, its schema is stored and active, and the user owns
the tenant. -/
structure ProvisionedRows (d d' : Deployment) (user : Uuid) (identity : Identity)
    (tenant workspace schema : Uuid) : Prop where
  newUser : d.base.users.get? user = none
  userRow : ∃ row, d'.base.users.get? user = some row ∧ row.passwordHash = none
  newIdentity : d.identities.get? user = none
  identityRow : d'.identities.get? user = some identity
  others : ∀ u, u ≠ user → d'.identities.get? u = d.identities.get? u
  newTenant : d.base.tenants.get? tenant = none
  tenantRow : ∃ row, d'.base.tenants.get? tenant = some row ∧ row.disabledAt = none
  newWorkspace : d.base.workspaces.get? workspace = none
  workspaceRow : ∃ row, d'.base.workspaces.get? workspace = some row ∧ row.tenantId = tenant
  active : ∃ row, d'.settings.get? workspace = some row ∧ row.schemaPending = false ∧
    row.schemaId = some schema
  schemaRow : ∃ row, (d'.schemasOf workspace).get? schema = some row ∧ row.status = .active
  owner : d'.base.role tenant user = some .owner

/-- The rows that a commit provisions for a user. -/
def Provisioned (d d' : Deployment) (user : Uuid) (identity : Identity) : Prop :=
  ∃ tenant workspace schema, ProvisionedRows d d' user identity tenant workspace schema

/-- Nothing changes but the keys. -/
def KeysOnly (d d' : Deployment) : Prop :=
  ∃ keys, d' = { d with base := { d.base with keys := keys } }

theorem KeysOnly.refl (d : Deployment) : KeysOnly d d := ⟨d.base.keys, rfl⟩

theorem KeysOnly.trans (d d' d'' : Deployment) (h : KeysOnly d d') (h' : KeysOnly d' d'') :
    KeysOnly d d'' := by
  obtain ⟨keys, rfl⟩ := h
  obtain ⟨keys', rfl⟩ := h'
  exact ⟨keys', rfl⟩

theorem KeysOnly.identities {d d' : Deployment} (h : KeysOnly d d') :
    d'.identities = d.identities := by
  obtain ⟨keys, rfl⟩ := h
  rfl

/-! ## Identities -/

theorem findByOauthIdentity_eq_some {identity : Identity} {d : Deployment} {user : Uuid}
    (h : findByOauthIdentity identity d = some user) :
    d.identities.get? user = some identity := by
  obtain ⟨⟨id, row⟩, hfind, rfl⟩ := Option.map_eq_some_iff.mp h
  have hrow : decide (row = identity) = true :=
    List.find?_some (p := fun e : Uuid × Identity => decide (e.2 = identity)) hfind
  obtain rfl : row = identity := of_decide_eq_true hrow
  exact (d.identities.rows.mem_entries_iff id row).mp (List.mem_of_find?_eq_some hfind)

/-- The unique index: an identity has one user at most. -/
theorem identity_unique (d : Deployment) {u v : Uuid} {identity : Identity}
    (hu : d.identities.get? u = some identity) (hv : d.identities.get? v = some identity) :
    u = v := by
  by_contra hne
  have hsymm : ∀ a b, Identity.clash a b = Identity.clash b a := by
    intro a b
    simp [Identity.clash, eq_comm]
  have hclash := Table.clash_eq_false hsymm hne hu hv
  simp [Identity.clash] at hclash

/-! ## What the statements of a first login do -/

section Effects

open Script

theorem effects_createOauthUser (id : Uuid) (email : String) (displayName : Option String)
    (identity : Identity) (taken : YorishiroError) :
    (createOauthUser id email displayName identity taken).Effects fun d a d' => a = id ∧
      ∃ users identities, d.base.users.insert id ⟨email, none, displayName⟩ = .ok users ∧
        d.identities.insert id identity = .ok identities ∧
        d' = { d with base := { d.base with users := users }, identities := identities } := by
  refine effects_update fun d b d' hok => ?_
  obtain ⟨users, husers, hok⟩ := Except.bind_eq_ok.mp hok
  obtain ⟨identities, hidentities, hok⟩ := Except.bind_eq_ok.mp hok
  cases hok
  exact ⟨rfl, users, identities, Except.mapError_eq_ok husers,
    Except.mapError_eq_ok hidentities, rfl⟩

theorem quiet_requireTenantRoom (limit : TenantLimit) : Quiet (requireTenantRoom limit) := by
  unfold requireTenantRoom
  split
  · exact within_pure _
  · exact (within_acquire _).bind fun _ => (within_read _).bind fun _ => within_failIf _ _

/-- A statement with a known effect, and the result that the function returns for it. -/
theorem Effects.returns {α β : Type} {p : Work α} {a : α} {S : Deployment → Deployment → Prop}
    (hp : p.Effects fun d b d' => b = a ∧ S d d') (b : β) :
    (p >>= fun _ => pure b).Effects fun d c d' => c = b ∧ S d d' :=
  hp.bind (fun _ => effects_pure b) fun _ _ _ _ _ hS hpure => ⟨hpure.1, hpure.2 ▸ hS.2⟩

theorem effects_createTenant (id : Uuid) (name : String) (effectiveMax : Option Int) :
    (createTenant id name effectiveMax).Effects fun d a d' => a = id ∧
      d.base.tenants.get? id = none ∧ d' = d.addTenant id name := by
  refine (quiet_requireTenantRoom _).effects_bind fun _ => Effects.returns (a := ()) ?_ id
  refine effects_update fun d b d' hok => ?_
  split_ifs at hok with htaken
  cases hok
  exact ⟨rfl, Option.not_isSome_iff_eq_none.mp htaken, rfl⟩

theorem effects_createWorkspace (id tenant : Uuid) (name : String) (maxEntities : Option Int)
    (schemaId : Option Uuid) :
    (createWorkspace id tenant name maxEntities schemaId).Effects fun d a d' => a = id ∧
      d.base.workspaces.get? id = none ∧ d' = { d with
        base := { d.base with workspaces := d.base.workspaces.insert id ⟨tenant, name⟩ }
        settings := d.settings.insert id ⟨schemaId.isNone, schemaId, maxEntities⟩ } := by
  have hread : ∀ f : Deployment → Option (Option Int), Quiet (read f : Work (Option (Option Int))) :=
    fun f => within_read f
  have hfound : ∀ (e : YorishiroError) (o : Option (Option Int)), Quiet (orFail e o : Work (Option Int)) :=
    fun e o => within_orFail e o
  refine ((quiet_lockMembership tenant).zoom _ _).effects_bind fun _ =>
    ((quiet_requireActive tenant).zoom _ _).effects_bind fun _ => (hread _).effects_bind fun _ =>
    (hfound _ _).effects_bind fun manual => (quiet_requireWorkspaceRoom _ _).effects_bind fun _ =>
    Effects.returns (effects_insertWorkspace id tenant name maxEntities schemaId) id

theorem effects_createSchema (env : Dialect) (display : ℚ → String) (id tenant workspace : Uuid)
    (definition : MetaSchemaDefinition) :
    (createSchema env display id tenant workspace definition).Effects fun d a d' => a = id ∧
      ∃ schemas settings row, schemas.get? id = some row ∧ row.status = .active ∧
        d' = { d with
          schemas := d.schemas.insert workspace schemas
          settings := d.settings.insert workspace settings } := by
  have hvalid : Quiet (ofExcept (Metaschema.validateDefinition env display definition) : Work _) :=
    within_ofExcept _
  have hlock : Quiet (acquire (versionLockKey workspace definition.name) : Work Unit) :=
    within_acquire _
  refine hvalid.effects_bind fun _ => hlock.effects_bind fun _ =>
    effects_update fun d b d' hok => ?_
  split at hok
  · cases hok
  · rename_i settings _
    obtain ⟨⟨schemas, settings', row, _⟩, hcreate, hok⟩ := Except.bind_eq_ok.mp hok
    cases hok
    obtain ⟨hinserted, -, -, hactive⟩ := Schema.createSchema_eq_ok hcreate
    exact ⟨rfl, schemas, settings', row, hinserted.get?_self, hactive, rfl⟩

theorem effects_activateWorkspace (workspace schema : Uuid) :
    (activateWorkspace workspace schema).Effects fun d a d' => a = workspace ∧
      ∃ row : Schema.Workspace, d' = { d with
        settings := d.settings.insert workspace
          { row with schemaPending := false, schemaId := some schema } } := by
  refine effects_update fun d b d' hok => ?_
  split at hok
  · cases hok
  · rename_i row _
    cases hok
    exact ⟨rfl, row, rfl⟩

theorem effects_addOwner (tenant user : Uuid) :
    (onBase (addMemberInTransaction tenant user .owner)).Effects fun d _ d' =>
      ∃ htenant, d' = { d with base := d.base.setRole tenant user .owner htenant } := by
  have hupsert : (addMemberInTransaction tenant user .owner).Effects fun db _ db' =>
      ∃ htenant, db' = db.setRole tenant user .owner htenant := by
    refine (quiet_protectOwner _ _ _).effects_bind fun _ => Effects.mono (effects_update (a := ())
      fun db b db' hok => ?_) fun _ _ _ h => h.2
    split_ifs at hok with hrefs
    cases hok
    exact ⟨rfl, hrefs.1, rfl⟩
  have hzoom := hupsert.zoom Deployment.base (fun base d => { d with base := base })
    (fun _ => rfl) (fun _ _ => rfl) fun _ _ _ => rfl
  refine hzoom.mono fun d _ d' hd => ?_
  obtain ⟨db', ⟨htenant, rfl⟩, rfl⟩ := hd
  exact ⟨htenant, rfl⟩

/-- **What `provision` does**, whatever its statements see. -/
theorem effects_provision (env : Provisioner) (fresh : NewAccount) (identity : Identity)
    (email : String) (displayName : Option String) (maxTenants : Option Int) :
    (provision env fresh identity email displayName maxTenants).Effects fun d login d' =>
      login.userId = fresh.user ∧
        ProvisionedRows d d' fresh.user identity fresh.tenant fresh.workspace fresh.schema := by
  have hsteps := (effects_createOauthUser fresh.user email displayName identity
    (emailTaken email)).seq fun user =>
    (effects_createTenant fresh.tenant (tenantNameFromEmail email) maxTenants).seq fun tenant =>
    (effects_createWorkspace fresh.workspace tenant "default" none none).seq fun workspace =>
    (effects_createSchema env.dialect env.display fresh.schema tenant workspace
      env.generalNotes).seq fun schema =>
    (effects_activateWorkspace workspace schema).seq fun workspace =>
    (effects_addOwner tenant user).seq fun _ =>
    effects_pure (⟨user, workspace, MembershipRole.owner.maxScope⟩ : ProvisionedLogin)
  refine Effects.mono hsteps fun d login d' hd => ?_
  obtain ⟨_, d₁, ⟨rfl, users, identities, husers, hidentities, rfl⟩, _, d₂,
    ⟨rfl, htenant, rfl⟩, _, d₃, ⟨rfl, hworkspace, rfl⟩, _, d₄,
    ⟨rfl, schemas, settings, row, hschema, hactive, rfl⟩, _, d₅, ⟨rfl, ws, rfl⟩, _, d₆,
    ⟨hmember, rfl⟩, rfl, rfl⟩ := hd
  have huser : users.get? fresh.user = some ⟨email, none, displayName⟩ := by
    rw [Table.get?_insert husers, if_pos rfl]
  have hidentity : identities.get? fresh.user = some identity := by
    rw [Table.get?_insert hidentities, if_pos rfl]
  have hothers : ∀ u, u ≠ fresh.user → identities.get? u = d.identities.get? u := by
    intro u hu
    rw [Table.get?_insert hidentities, if_neg hu]
  refine ⟨rfl, ?_⟩
  exact
    { newUser := (Table.insert_eq_ok husers).1
      userRow := ⟨_, huser, rfl⟩
      newIdentity := (Table.insert_eq_ok hidentities).1
      identityRow := hidentity
      others := hothers
      newTenant := htenant
      tenantRow := ⟨⟨tenantNameFromEmail email, none⟩, OrderedMap.get?_insert_self _ _ _, rfl⟩
      newWorkspace := hworkspace
      workspaceRow := ⟨_, OrderedMap.get?_insert_self _ _ _, rfl⟩
      active := ⟨{ ws with schemaPending := false, schemaId := some fresh.schema },
        OrderedMap.get?_insert_self _ _ _, rfl, rfl⟩
      schemaRow := ⟨row, by rwa [Deployment.schemasOf, OrderedMap.get?_insert_self], hactive⟩
      owner := OrderedMap.get?_insert_self _ _ _ }

/-- A known user signs in as itself. -/
theorem effects_resolveExistingLogin (user : Uuid) :
    (onBase (resolveExistingLogin user)).Effects fun d login d' => login.userId = user ∧ d' = d := by
  have hresult : (resolveExistingLogin user).Effects fun db login db' =>
      login.userId = user ∧ db' = db := by
    have hlist : Quiet (listWorkspacesForUser user) :=
      Within.bind (quiet_loginOptions user) fun _ => within_pure _
    refine hlist.effects_bind fun _ => (quiet_soleWorkspace _).effects_bind fun _ =>
      (quiet_getWorkspaceTenant _).effects_bind fun _ =>
      (quiet_workspaceAccess _ _ _).effects_bind fun _ => (effects_orFail _ _).bind
        (fun _ => effects_pure _) fun _ _ _ _ _ hfound hpure => ?_
    rw [hpure.1, hpure.2, hfound.2]
    exact ⟨rfl, rfl⟩
  have hzoom := hresult.zoom Deployment.base (fun base d => { d with base := base })
    (fun _ => rfl) (fun _ _ => rfl) fun _ _ _ => rfl
  refine hzoom.mono fun d login d' hd => ?_
  obtain ⟨db, ⟨hlogin, rfl⟩, rfl⟩ := hd
  exact ⟨hlogin, rfl⟩

theorem Statement.keysOnly {h : Externals} {id : Uuid} {d : Deployment} {db' : Db}
    (hs : Statement h [.newKey id] d.base db') : KeysOnly d { d with base := db' } := by
  generalize hd : d.base = db at hs
  subst hd
  cases hs with
  | insertKey => exact ⟨_, rfl⟩
  | revokeKey => exact ⟨_, rfl⟩
  | replaceKey => exact ⟨_, rfl⟩
  | _ => simp_all

theorem effects_signIn (h : Externals) (fresh : NewKey) (user : Uuid) (requested : Option Uuid) :
    (onBase (signIn h fresh user requested)).Effects fun d outcome d' =>
      outcome.user = user ∧ KeysOnly d d' := by
  have hresult : (signIn h fresh user requested).Effects fun _ outcome _ => outcome.user = user := by
    refine Effects.bind (effects_true _) (fun state => ?_) fun _ _ _ _ _ _ hS => hS
    cases state with
    | recovery reason memberships workspaces => exact fun _ => rfl
    | selected workspace =>
        exact Effects.bind (effects_true _) (fun key => effects_pure _) fun _ _ _ _ _ _ hpure => by
          rw [hpure.1]
          rfl
  have hzoom := hresult.zoom Deployment.base (fun base d => { d with base := base })
    (fun _ => rfl) (fun _ _ => rfl) fun _ _ _ => rfl
  have hkeys : Within KeysOnly (onBase (signIn h fresh user requested)) :=
    Within.zoom _ _ (fun _ _ hs => hs.keysOnly) (within_signIn user requested)
  refine (hzoom.and (hkeys.effects KeysOnly.refl KeysOnly.trans)).mono fun d outcome d' hd => ?_
  obtain ⟨⟨_, huser, -⟩, honly⟩ := hd
  exact ⟨huser, honly⟩

end Effects

/-! ## The discipline -/

/-- The commit of a login resolved the identity to a user that has it now: one that it
provisioned, or one that was there, and then it wrote no row but that of a key. -/
def Entry.Resolves (e : Entry Job Deployment Outcome) (identity : Identity) : Prop :=
  ∃ user, e.result.resolved = some user ∧ e.after.identities.get? user = some identity ∧
    (Provisioned e.before e.after user identity ∨ KeysOnly e.before e.after)

/-- **What is known of the logins** of a deployment that began as `start`. -/
structure LoginRecord (start : Deployment) (w : DeploymentState) : Prop where
  together : ∀ user identity, w.db.identities.get? user = some identity →
    start.identities.get? user = some identity ∨
      ∃ e ∈ w.log, Provisioned e.before e.after user identity
  resolved : ∀ e ∈ w.log, ∀ identity, e.job.identity = some identity → Entry.Resolves e identity

/-- Every identity of `d` is in `d'`, with the same user. -/
def KeepsIdentities (d d' : Deployment) : Prop :=
  ∀ user identity, d.identities.get? user = some identity →
    d'.identities.get? user = some identity

/-- The identities stay. -/
def SameIdentities (d d' : Deployment) : Prop := d'.identities = d.identities

theorem SameIdentities.refl (d : Deployment) : SameIdentities d d := rfl

theorem SameIdentities.trans (d d' d'' : Deployment) (h : SameIdentities d d')
    (h' : SameIdentities d' d'') : SameIdentities d d'' := Eq.trans h' h

/-- Identities stay with their users, whatever locks are taken. -/
def loginDiscipline (start : Deployment) : Discipline Job String Deployment Outcome where
  inv := LoginRecord start
  onward := fun w w' => KeepsIdentities w.db w'.db
  keeps := fun _ _ _ => True
  met := fun _ _ _ => True
  onward_refl := fun _ _ _ h => h
  onward_trans := fun _ _ _ huv hvw user identity h => hvw user identity (huv user identity h)
  keeps_refl := fun _ _ => trivial
  keeps_trans := fun _ _ _ _ _ _ => trivial

section Commits

variable {start : Deployment} {job : Job} {pt : WorkPoint}

/-- A commit, by what it does to the identities. -/
theorem LoginRecord.commit {w : DeploymentState} (hw : LoginRecord start w) {r : Outcome}
    {seen : List Deployment} {a : Deployment}
    (hidentities : ∀ user identity, a.identities.get? user = some identity →
      w.db.identities.get? user = some identity ∨ Provisioned w.db a user identity)
    (hresolves : ∀ identity, job.identity = some identity →
      Entry.Resolves ⟨job, r, seen, w.db, a⟩ identity) :
    LoginRecord start (w.commit job r seen a) := by
  refine ⟨fun user identity hidentity => ?_, fun e he identity hjob => ?_⟩
  · rcases hidentities user identity hidentity with hold | hnew
    · rcases hw.together user identity hold with hstart | ⟨e, he, hrows⟩
      · exact Or.inl hstart
      · exact Or.inr ⟨e, List.mem_append_left _ he, hrows⟩
    · exact Or.inr ⟨_, List.mem_append_right _ (List.mem_singleton_self _), hnew⟩
  · rcases List.mem_append.mp he with hold | hnew
    · exact hw.resolved e hold identity hjob
    · obtain rfl := List.mem_singleton.mp hnew
      exact hresolves identity hjob

/-- Jobs that sign no identity in leave the identities alone. -/
theorem commits_of_sameIdentities {r : Outcome} (hjob : job.identity = none)
    (hpending : ∀ d d', pt.pending d = .ok d' → SameIdentities d d') :
    (loginDiscipline start).Commits job r pt := by
  intro w hw a ha
  have hsame : a.identities = w.db.identities := hpending w.db a ha
  refine ⟨hw.inv.commit (fun user identity h => Or.inl (hsame ▸ h)) fun identity h => ?_,
    fun user identity h => ?_, fun _ _ => trivial⟩
  · rw [hjob] at h
    cases h
  · change a.identities.get? user = some identity
    rw [hsame]
    exact h

/-- **A login under way.** On any database that has kept the identities it is going to write
no row but that of a key, for a user that has the identity there, or to provision the user. -/
structure SigningIn (start : Deployment) (identity : Identity) (user : Uuid) (pt : WorkPoint) :
    Prop where
  inv : LoginRecord start pt.state
  does : ∀ d d', KeepsIdentities pt.state.db d → pt.pending d = .ok d' →
    (KeysOnly d d' ∧ d.identities.get? user = some identity) ∨
      ∃ tenant workspace schema, ProvisionedRows d d' user identity tenant workspace schema

theorem SigningIn.commits {identity : Identity} {user : Uuid}
    (hpt : SigningIn start identity user pt) {r : Outcome} (hjob : job.identity = some identity)
    (hr : r.resolved = some user) : (loginDiscipline start).Commits job r pt := by
  intro w hw a ha
  rcases hpt.does w.db a hw.onward ha with ⟨honly, hknown⟩ | ⟨tenant, workspace, schema, hrows⟩
  · have hsame : a.identities = w.db.identities := honly.identities
    refine ⟨hw.inv.commit (fun u i h => Or.inl (hsame ▸ h)) fun i hi => ?_, fun u i h => ?_,
      fun _ _ => trivial⟩
    · cases hjob.symm.trans hi
      exact ⟨user, hr, hsame ▸ hknown, Or.inr honly⟩
    · change a.identities.get? u = some i
      rw [hsame]
      exact h
  · have hprovisioned : Provisioned w.db a user identity := ⟨tenant, workspace, schema, hrows⟩
    refine ⟨hw.inv.commit (fun u i h => ?_) fun i hi => ?_, fun u i h => ?_, fun _ _ => trivial⟩
    · by_cases hu : u = user
      · subst hu
        cases hrows.identityRow.symm.trans h
        exact Or.inr hprovisioned
      · rw [hrows.others u hu] at h
        exact Or.inl h
    · cases hjob.symm.trans hi
      exact ⟨user, hr, hrows.identityRow, Or.inl hprovisioned⟩
    · change a.identities.get? u = some i
      have hu : u ≠ user := by
        rintro rfl
        rw [hrows.newIdentity] at h
        cases h
      rw [hrows.others u hu]
      exact h

end Commits

/-! ## Transactions -/

section Jobs

variable {start : Deployment} {job : Job} {pt : WorkPoint} {env : Provisioner}
  {maxTenants : Option Int}

theorem wp_findOrCreate_login {fresh : NewAccount} {provider : String} {who : CallbackIdentity}
    (hpending : pt.pending = .ok) :
    (findOrCreate env fresh provider who maxTenants).wp (loginDiscipline start) job
      (fun login pt' => SigningIn start ⟨provider, who.subjectId⟩ login.userId pt') pt := by
  unfold findOrCreate
  rw [Script.wp_bind, Script.wp_acquire]
  intro w₁ hw₁
  rw [Script.wp_bind, Script.wp_read]
  intro w₂ hw₂ v hv _
  obtain rfl : w₂.db = v := Except.ok.inj (by rw [← hv, hpending])
  cases hfound : findByOauthIdentity ⟨provider, who.subjectId⟩ w₂.db with
  | some user =>
      have hknown := findByOauthIdentity_eq_some hfound
      refine Script.wp_effects (effects_resolveExistingLogin user) hw₂.inv
        fun login held seen pending w _ hw hdoes => ⟨hw.inv, fun d d' hkept hd => ?_⟩
      obtain ⟨u, hu, huser, hsame⟩ := hdoes d d' hd
      obtain rfl : d = u := Except.ok.inj (by rw [← hu, hpending])
      rw [huser, hsame]
      exact Or.inl ⟨KeysOnly.refl d, hkept user _ (hw.onward user _ hknown)⟩
  | none =>
      rw [Script.wp_bind, Script.wp_orFail]
      intro email _
      refine Script.wp_effects (effects_provision env fresh _ email who.displayName maxTenants)
        hw₂.inv fun login held seen pending w _ hw hdoes => ⟨hw.inv, fun d d' _ hd => ?_⟩
      obtain ⟨u, hu, huser, hrows⟩ := hdoes d d' hd
      obtain rfl : d = u := Except.ok.inj (by rw [← hu, hpending])
      rw [huser]
      exact Or.inr ⟨_, _, _, hrows⟩

theorem wp_callback_login {fresh : NewAccount} {key : NewKey} {who : CallbackIdentity}
    {requested : Option Uuid} (hpending : pt.pending = .ok) :
    (callback env fresh key who requested maxTenants).wp (loginDiscipline start) job
      (fun outcome pt' => SigningIn start ⟨"oidc", who.subjectId⟩ outcome.user pt') pt := by
  rw [callback, Script.wp_bind, Script.wp_read]
  intro w₁ hw₁ v hv _
  obtain rfl : w₁.db = v := Except.ok.inj (by rw [← hv, hpending])
  cases hfound : findByOauthIdentity ⟨"oidc", who.subjectId⟩ w₁.db with
  | some user =>
      have hknown := findByOauthIdentity_eq_some hfound
      refine Script.wp_effects (effects_signIn env.externals key user requested) hw₁.inv
        fun outcome held seen pending w _ hw hdoes => ⟨hw.inv, fun d d' hkept hd => ?_⟩
      obtain ⟨u, hu, huser, honly⟩ := hdoes d d' hd
      obtain rfl : d = u := Except.ok.inj (by rw [← hu, hpending])
      rw [huser]
      exact Or.inl ⟨honly, hkept user _ (hw.onward user _ hknown)⟩
  | none =>
      rw [Script.wp_bind]
      exact Script.wp_mono (wp_findOrCreate_login hpending) fun _ _ hpt => hpt

/-- A transaction whose statements leave the identities alone. -/
theorem wp_sameIdentities {α : Type} {p : Work α}
    (hp : Script.Within SameIdentities p)
    (hinv : LoginRecord start pt.state)
    (hpending : ∀ d d', pt.pending d = .ok d' → SameIdentities d d') :
    p.wp (loginDiscipline start) job
      (fun _ pt' => ∀ d d', pt'.pending d = .ok d' → SameIdentities d d') pt := by
  refine Script.wp_within SameIdentities.refl SameIdentities.trans hp hinv
    fun _ _ _ _ _ _ _ _ hdoes d d' hd => ?_
  obtain ⟨v, hv, hsame⟩ := hdoes d d' hd
  exact SameIdentities.trans d v d' (hpending d v hv) hsame

theorem sameIdentities_createTenant (id : Uuid) (name : String) (effectiveMax : Option Int) :
    Script.Within SameIdentities
      (createTenant id name effectiveMax) := by
  refine Script.Within.bind (quiet_requireTenantRoom _).within fun _ =>
    (Script.within_update fun d _ d' hok => ?_).bind fun _ => Script.within_pure _
  split_ifs at hok
  cases hok
  rfl

theorem sameIdentities_setup (h : Externals) (fresh : NewAccount) (account : Signup) :
    Script.Within SameIdentities
      (setupFirstAccount h fresh maxTenants account) := by
  unfold setupFirstAccount
  split_ifs
  · exact Script.within_fail _
  · refine (Script.within_acquire _).bind fun _ => (Script.within_read _).bind fun _ =>
      (Script.within_failIf _ _).bind fun _ => (sameIdentities_createTenant _ _ _).bind fun _ => ?_
    exact Script.Within.mono ((sameAccounts_createWorkspace _ _ _ _ _).bind fun _ =>
      (sameAccounts_registerOwner _ _ _).bind fun _ => Script.within_pure _)
      fun _ _ hsame => hsame.identities

/-- Every transaction keeps to the discipline. -/
theorem loginDiscipline_verified (env : Provisioner) (maxTenants : Option Int)
    (start : Deployment) : Verified (loginDiscipline start) (Job.code env maxTenants) := by
  intro job w hw
  have hnothing : ∀ d d' : Deployment, (Except.ok d : Except YorishiroError Deployment) = .ok d' →
      SameIdentities d d' := by
    intro d d' hd
    cases hd
    exact SameIdentities.refl d
  cases job with
  | op call =>
      refine (Script.wp_bind _ _).mpr (Script.wp_mono (wp_sameIdentities ?_ hw hnothing)
        fun r pt' hpt' => commits_of_sameIdentities rfl hpt')
      exact (sameAccounts_onBase (op_within call)).mono fun _ _ hsame => hsame.identities
  | setup fresh account =>
      exact (Script.wp_bind _ _).mpr (Script.wp_mono
        (wp_sameIdentities (sameIdentities_setup _ _ _) hw hnothing)
        fun r pt' hpt' => commits_of_sameIdentities rfl hpt')
  | signup fresh account =>
      refine (Script.wp_bind _ _).mpr (Script.wp_mono (wp_sameIdentities ?_ hw hnothing)
        fun r pt' hpt' => commits_of_sameIdentities rfl hpt')
      refine (sameIdentities_createTenant _ _ _).bind fun _ => ?_
      exact Script.Within.mono ((sameAccounts_registerOwner _ _ _).bind fun _ =>
        Script.within_pure _) fun _ _ hsame => hsame.identities
  | findOrCreate fresh provider who =>
      exact (Script.wp_bind _ _).mpr (Script.wp_mono (wp_findOrCreate_login rfl)
        fun login pt' hpt' => hpt'.commits rfl rfl)
  | callback fresh key who requested =>
      exact (Script.wp_bind _ _).mpr (Script.wp_mono (wp_callback_login rfl)
        fun outcome pt' hpt' => hpt'.commits rfl rfl)

theorem loginDiscipline_tame (start : Deployment) : Tame (loginDiscipline start) elapse :=
  fun _ _ hw => ⟨⟨hw.together, hw.resolved⟩, fun _ _ h => h, fun _ _ => trivial⟩

end Jobs

/-! ## Main result -/

/-- What a step does to what is committed: nothing, or one commit with its entry in the log,
or time passes. -/
inductive CommitsWhole (w : DeploymentState) : DeploymentState → Prop where
  | none : CommitsWhole w w
  | commit (job : Job) (r : Outcome) (seen : List Deployment) (after : Deployment) :
      CommitsWhole w (w.commit job r seen after)
  | time (n : Nat) : CommitsWhole w { w with db := elapse n w.db }

/-- **First logins provision exactly once.** In any interleaving, from any deployment `d`: an
identity has one user at most; a user with an identity was there at the start, or was
committed together with its tenant, workspace, active schema and ownership; a committed login
resolved its identity to a user that has it; and a step that is no commit leaves every row. -/
theorem first_login_provisions_once (env : Provisioner) (maxTenants : Option Int)
    (d : Deployment) (inputs : List (Event Job Nat)) (next : Event Job Nat) :
    let s := run (deploymentStep env maxTenants) (Server.init d) inputs
    (∀ u v identity, s.state.db.identities.get? u = some identity →
      s.state.db.identities.get? v = some identity → u = v) ∧
    LoginRecord d s.state ∧ CommitsWhole s.state (deploymentStep env maxTenants s next).state := by
  have hinit : LoginRecord d ⟨d, []⟩ :=
    ⟨fun _ _ h => Or.inl h, fun _ he => by cases he⟩
  have hsound := Server.sound_run (loginDiscipline_verified env maxTenants d)
    (loginDiscipline_tame d) hinit (Server.stepsMeet (fun _ _ _ => trivial) _ inputs)
  refine ⟨fun u v identity => identity_unique _, hsound.inv, ?_⟩
  rcases Server.step_state (Job.code env maxTenants) elapse _ next with
    heq | ⟨t, x, r, a, -, -, -, -, heq⟩ | ⟨n, -, heq⟩
  · exact heq ▸ .none
  · exact heq ▸ .commit x.job r x.seen a
  · exact heq ▸ .time n

/-- Two callbacks of one identity, statement by statement in turn. -/
def twoCallbacks : List (Event Job Nat) :=
  let who : CallbackIdentity := ⟨"alice", some "alice@acme", none⟩
  [.start 0 (.callback founder ⟨40, ⟨"", ""⟩⟩ who none),
    .start 1 (.callback newcomer ⟨41, ⟨"", ""⟩⟩ who none)] ++
    (List.replicate 30 [.step 0, .step 1]).flatten

/-- Both resolve to the user that the first one provisions. -/
example :
    let w := (run (deploymentStep .plain (some 2)) (Server.init (.empty 0)) twoCallbacks).state
    w.log.map (fun e => e.result.resolved) = [some 10, some 10] ∧ countTenants w.db = 1 := by
  set_option maxRecDepth 4096 in
  decide

end Yorishiro.Tenancy
