import Yorishiro.Tenancy.Authority

/-!
# What a credential is worth under the lock

`currentContext` reads the key, the time, the tenant, the role, the workspace and the grant, one
statement after the other, and other transactions commit in between. Under the membership lock of
the tenant its answer is nevertheless what the credential is worth in the database the last
statement sees (`checks_currentContext`), at a time that one of the statements has read; and it
is worth that in any later database, as long as the lock is kept (`Upholds.current`).
-/

set_option autoImplicit false

namespace Yorishiro.Tenancy

open Yorishiro.Lib
open Yorishiro.Lib.Fence
open Yorishiro.Queue (Instant)

variable {home : Uuid → Uuid} {tenant : Uuid} {db db' : Db} {seen : List Db}

/-! ## Later databases -/

/-- The database at another time. -/
def Db.atTime (db : Db) (time : Instant) : Db := { db with clock := time }

theorem Upholds.accessForRole (hup : Upholds home tenant db db') {workspace user : Uuid}
    {role : MembershipRole} (hhome : home workspace = tenant)
    (hrole : db.role tenant user = some role) :
    db'.accessForRole workspace user role = db.accessForRole workspace user role := by
  unfold Db.accessForRole
  rw [hup.grant workspace user hhome (Option.isSome_of_eq_some hrole)]

theorem Upholds.access (hup : Upholds home tenant db db') (hdb : db.Homed home)
    {workspace user : Uuid} {access : WorkspaceAccess}
    (haccess : db.access tenant workspace user = some access) :
    db'.access tenant workspace user = some access := by
  obtain ⟨⟨ws, hws, htenant⟩, hactive, role, hrole, hgrant⟩ := Db.access_eq_some.mp haccess
  have hhome : home workspace = tenant := (hdb workspace ws hws).symm.trans htenant
  refine Db.access_eq_some.mpr ⟨⟨ws, hup.workspace workspace ws hws htenant, htenant⟩,
    hup.active hactive, role, (hup.role user).trans hrole, ?_⟩
  rw [hup.accessForRole hhome hrole]
  exact hgrant

theorem worth_eq_some {ctx c : AuthContext} : db.worth ctx = some c ↔
    db.active ctx.tenantId = true ∧ (ctx.userId = none ∧ c = ctx ∨
      ∃ user access, ctx.userId = some user ∧
        db.access ctx.tenantId ctx.workspaceId user = some access ∧
        c = { ctx with scope := min ctx.scope access.maxScope }) := by
  unfold Db.worth
  split_ifs with hactive
  · cases huser : ctx.userId with
    | none => simp [hactive, eq_comm]
    | some user => simp [hactive, eq_comm]
  · simp [hactive]

/-- A credential stays worth what it is worth. -/
theorem Upholds.worth {ctx c : AuthContext} (hup : Upholds home ctx.tenantId db db')
    (hdb : db.Homed home) (hworth : db.worth ctx = some c) : db'.worth ctx = some c := by
  rw [worth_eq_some] at hworth ⊢
  obtain ⟨hactive, hend⟩ := hworth
  refine ⟨hup.active hactive, hend.imp_right ?_⟩
  rintro ⟨user, access, huser, haccess, hc⟩
  exact ⟨user, access, huser, hup.access hdb haccess, hc⟩

/-- The user of what is worth something is a member. -/
theorem worth_role {ctx c : AuthContext} (hworth : db.worth ctx = some c) {user : Uuid}
    (huser : ctx.userId = some user) : (db.role ctx.tenantId user).isSome = true := by
  rw [worth_eq_some] at hworth
  obtain ⟨-, ⟨hnone, -⟩ | ⟨user', access, huser', haccess, -⟩⟩ := hworth
  · rw [huser] at hnone
    cases hnone
  · obtain rfl : user = user' := Option.some.inj (huser.symm.trans huser')
    obtain ⟨-, -, role, hrole, -⟩ := Db.access_eq_some.mp haccess
    exact Option.isSome_of_eq_some hrole

theorem current_atTime {presented c : AuthContext} {time : Instant} :
    (db.atTime time).current presented = some c ↔
      ∃ key, db.keys.get? presented.apiKeyId = some key ∧ key.backs presented time = true ∧
        db.worth (key.identity presented.apiKeyId presented.workspaceId) = some c := by
  simp only [Db.current, Option.bind_eq_some_iff, Option.filter_eq_some_iff, and_assoc]
  rfl

theorem backs_iff {key : ApiKey} {presented : AuthContext} {time : Instant} :
    key.backs presented time = true ↔ key.isActive time = true ∧
      key.tenantId = presented.tenantId ∧ key.userId = presented.userId ∧
      ∀ id, key.workspaceId = some id → id = presented.workspaceId := by
  simp only [ApiKey.backs, Bool.and_eq_true, decide_eq_true_eq, and_assoc]
  cases key.workspaceId with
  | none => simp
  | some id => simp

/-- A key with the same grant backs the same, and gives the same identity. -/
theorem ApiKey.Becomes.backs {key key' : ApiKey} (hbecomes : key.Becomes key')
    (hrevoked : key'.revokedAt = key.revokedAt) (presented : AuthContext) (time : Instant) :
    key'.backs presented time = key.backs presented time := by
  unfold ApiKey.backs ApiKey.isActive
  rw [hrevoked, hbecomes.expires, hbecomes.tenant, hbecomes.user, hbecomes.workspace]

theorem ApiKey.Becomes.identity {key key' : ApiKey} (hbecomes : key.Becomes key')
    (id workspace : Uuid) : key'.identity id workspace = key.identity id workspace := by
  unfold ApiKey.identity
  rw [hbecomes.tenant, hbecomes.user, hbecomes.scope, hbecomes.audit]

/-- A key that was there and is worth something later is still there. -/
theorem Upholds.current_of_worth {presented c : AuthContext} {key : ApiKey} {time : Instant}
    (hup : Upholds home presented.tenantId db db')
    (hhome : home presented.workspaceId = presented.tenantId)
    (hkey : db.keys.get? presented.apiKeyId = some key) (hbacks : key.backs presented time = true)
    (hworth : db'.worth (key.identity presented.apiKeyId presented.workspaceId) = some c) :
    (db'.atTime time).current presented = some c := by
  obtain ⟨-, htenant, -, hbound⟩ := Iff.mp backs_iff hbacks
  have hbacked : db.Backed home presented.tenantId key :=
    { own := htenant
      workspace := fun id hid => by
        rw [hbound id hid]
        exact hhome
      -- what the key is worth later says that its user is a member
      user := fun user huser => by
        have hmember : (db'.role key.tenantId user).isSome = true := worth_role hworth huser
        rwa [htenant, hup.role] at hmember }
  obtain ⟨key', hkey', hbecomes, hrevoked⟩ := hup.key _ key hkey hbacked
  rw [current_atTime]
  refine ⟨key', hkey', ?_, ?_⟩
  · rwa [hbecomes.backs hrevoked]
  · rwa [hbecomes.identity]

/-- **A presented credential stays worth what it is worth.** -/
theorem Upholds.current {presented c : AuthContext} {time : Instant}
    (hup : Upholds home presented.tenantId db db') (hdb : db.Homed home)
    (hhome : home presented.workspaceId = presented.tenantId)
    (hcurrent : (db.atTime time).current presented = some c) :
    (db'.atTime time).current presented = some c := by
  rw [current_atTime] at hcurrent
  obtain ⟨key, hkey, hbacks, hworth⟩ := hcurrent
  obtain ⟨-, htenant, -, -⟩ := Iff.mp backs_iff hbacks
  have hup' : Upholds home (key.identity presented.apiKeyId presented.workspaceId).tenantId db db' := by
    change Upholds home key.tenantId db db'
    rwa [htenant]
  exact hup.current_of_worth hhome hkey hbacks (hup'.worth hdb hworth)

/-! ## Reads under the lock -/

/-- How the database moves while one has the membership lock of a tenant. -/
def Moves (home : Uuid → Uuid) (tenant : Uuid) (db db' : Db) : Prop :=
  (authority home).inv db' ∧ (authority home).keeps (membershipLock tenant) db db'

theorem Moves.homed (hmoves : Moves home tenant db db') : db'.Homed home := hmoves.1

theorem Moves.upholds (hmoves : Moves home tenant db db') : Upholds home tenant db db' :=
  hmoves.2 tenant rfl

theorem checks_requireActive (Q : Unit → List Db → Db → Prop)
    (hQ : ∀ db', Moves home tenant db db' → db'.active tenant = true → Q () (seen ++ [db']) db') :
    (requireActive tenant).Checks (Moves home tenant) seen db Q := by
  unfold requireActive
  rw [Script.checks_bind, Script.checks_read]
  intro db₁ h₁
  rw [Script.checks_bind, Script.checks_orFail]
  intro row hrow
  obtain ⟨hget, hdisabled⟩ := Option.filter_eq_some_iff.mp hrow
  exact hQ db₁ h₁ (Db.active_iff.mpr ⟨row, hget, Option.isNone_iff_eq_none.mp hdisabled⟩)

theorem checks_workspaceAccess (workspace user : Uuid) :
    (workspaceAccess tenant workspace user).Checks (Moves home tenant) seen db
      fun access _ db' => ∀ a, access = some a → db'.access tenant workspace user = some a := by
  unfold workspaceAccess getWorkspaceTenant
  rw [Script.checks_bind, Script.checks_bind, Script.checks_read]
  intro db₁ h₁
  rw [Script.checks_orFail]
  intro t ht
  obtain ⟨ws, hws, rfl⟩ := Option.map_eq_some_iff.mp ht
  by_cases htenant : ws.tenantId = tenant
  · rw [if_neg (not_not.mpr htenant), Script.checks_bind]
    refine checks_requireActive _ fun db₂ h₂ hactive => ?_
    rw [Script.checks_bind, getMembershipRole, Script.checks_read]
    intro db₃ h₃
    have hhome : home workspace = tenant := (h₁.homed workspace ws hws).symm.trans htenant
    have hws₃ := h₃.upholds.workspace _ _ (h₂.upholds.workspace _ _ hws htenant) htenant
    cases hrole : db₃.role tenant user with
    | none =>
        intro a ha
        cases ha
    | some role =>
        dsimp only
        unfold workspaceAccessForRole
        split_ifs with hadmin
        · -- administrators need no grant, so nothing more is read
          intro a ha
          refine Db.access_eq_some.mpr ⟨⟨ws, hws₃, htenant⟩, h₃.upholds.active hactive, role,
            hrole, ?_⟩
          rw [Db.accessForRole, if_pos hadmin]
          exact ha
        · rw [Script.checks_bind, Script.checks_read]
          intro db₄ h₄ a ha
          refine Db.access_eq_some.mpr ⟨⟨ws, h₄.upholds.workspace _ _ hws₃ htenant, htenant⟩,
            h₄.upholds.active (h₃.upholds.active hactive), role, (h₄.upholds.role user).trans hrole,
            ?_⟩
          rw [Db.accessForRole, if_neg hadmin]
          exact ha
  · rw [if_pos htenant]
    intro a ha
    cases ha

theorem checks_withCurrentMembership (ctx : AuthContext) :
    ctx.withCurrentMembership.Checks (Moves home ctx.tenantId) seen db
      fun c _ db' => db'.worth ctx = some c := by
  unfold AuthContext.withCurrentMembership
  rw [Script.checks_bind]
  refine checks_requireActive _ fun db₁ h₁ hactive => ?_
  cases huser : ctx.userId with
  | none => exact Iff.mpr worth_eq_some ⟨hactive, Or.inl ⟨huser, rfl⟩⟩
  | some user =>
      dsimp only
      rw [Script.checks_bind, getMembershipRole, Script.checks_read]
      intro db₂ h₂
      rw [Script.checks_bind, Script.checks_orFail]
      intro role hrole
      rw [Script.checks_bind]
      refine (checks_workspaceAccess ctx.workspaceId user).mono fun access seen' db' haccess => ?_
      rw [Script.checks_bind, Script.checks_orFail]
      rintro a rfl
      have haccess' := haccess a rfl
      obtain ⟨-, hactive', -⟩ := Db.access_eq_some.mp haccess'
      exact Iff.mpr worth_eq_some ⟨hactive', Or.inr ⟨user, a, huser, haccess', by rw [huser]⟩⟩

/-- **What `currentContext` answers under the lock** is what the credential is worth when the last
of its statements is through, at a time that one of them has read. -/
theorem checks_currentContext {presented : AuthContext}
    (hhome : home presented.workspaceId = presented.tenantId) :
    (currentContext presented).Checks (Moves home presented.tenantId) seen db
      fun c seen' db' => ∃ v ∈ seen', v.clock ≤ db'.clock ∧
        (db'.atTime v.clock).current presented = some c := by
  unfold currentContext now
  rw [Script.checks_bind, Script.checks_read]
  intro db₁ h₁
  rw [Script.checks_bind, Script.checks_read]
  intro db₂ h₂
  rw [Script.checks_bind, Script.checks_orFail]
  intro key hkey
  obtain ⟨hget, hbacks⟩ := Option.filter_eq_some_iff.mp hkey
  obtain ⟨-, htenant, -, -⟩ := Iff.mp backs_iff hbacks
  let identity : AuthContext := key.identity presented.apiKeyId presented.workspaceId
  have hchecks : identity.withCurrentMembership.Checks (Moves home identity.tenantId)
      (seen ++ [db₁] ++ [db₂]) db₂ fun c _ db' => db'.worth identity = some c :=
    checks_withCurrentMembership identity
  rw [show identity.tenantId = presented.tenantId from htenant] at hchecks
  -- the key is that of `db₁`, the time that of `db₂`
  refine (hchecks.frame (P := fun seen' db' => db₂ ∈ seen' ∧ db₂.clock ≤ db'.clock ∧
    Upholds home presented.tenantId db₁ db') ?_ ?_).mono ?_
  · rintro seen' u v ⟨hmem, hclock, hup⟩ hmoves
    have hlater : db₂.clock ≤ v.clock ∧ Upholds home presented.tenantId db₁ v :=
      ⟨hclock.trans hmoves.upholds.clock, hup.trans hmoves.upholds⟩
    exact ⟨⟨hmem, hlater⟩, List.mem_append_left _ hmem, hlater⟩
  · exact ⟨List.mem_append_right _ List.mem_cons_self, le_rfl, h₂.upholds⟩
  · rintro c seen' db' ⟨⟨hmem, hclock, hup⟩, hworth⟩
    exact ⟨db₂, hmem, hclock, hup.current_of_worth hhome hget hbacks hworth⟩

end Yorishiro.Tenancy
