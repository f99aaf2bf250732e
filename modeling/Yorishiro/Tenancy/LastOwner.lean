import Yorishiro.Tenancy.Runs

/-!
# The last owner

Every change of a tenant's memberships is made under the tenant's membership lock, so what a
transaction has read of them by then is still true when it commits. `Protected` says of a
transaction in progress that its changes leave an owner if there is one; every operation
maintains it, and the memberships it reads cannot change under the lock.

`last_owner` is the result: in any interleaving of any operations, a tenant that has an owner
in some state has one in every later state.
-/

set_option autoImplicit false

namespace Yorishiro.Tenancy

open Yorishiro.Lib
open Yorishiro.Lib.Fence
open Yorishiro.Lib.Transition

/-! ## Owners -/

/-- There is an owner among the roles of a tenant. -/
def HasOwner (roles : Uuid → Option MembershipRole) : Prop := ∃ user, roles user = some .owner

section Owners

variable {db : Db} {tenant user : Uuid}

theorem owners_pos_iff : 0 < db.owners tenant ↔ HasOwner (db.role tenant) := by
  simp only [Db.owners, OrderedMap.count, List.countP_pos_iff, Bool.and_eq_true,
    decide_eq_true_eq, HasOwner]
  constructor
  · rintro ⟨⟨k, role⟩, hmem, htenant, hrole⟩
    refine ⟨(ofLex k).2, ?_⟩
    have hget := (OrderedMap.mem_entries_iff db.memberships k role).mp hmem
    subst hrole
    subst htenant
    exact hget
  · rintro ⟨user, hrole⟩
    exact ⟨(toLex (tenant, user), .owner),
      (OrderedMap.mem_entries_iff db.memberships _ _).mpr hrole, rfl, rfl⟩

/-- Of several owners, one is another user. -/
theorem other_owner (hmany : 1 < db.owners tenant) (user : Uuid) :
    ∃ other, other ≠ user ∧ db.role tenant other = some .owner := by
  have hle := OrderedMap.count_le_count_ne db.memberships
    (fun k role => decide ((ofLex k).1 = tenant) && decide (role = .owner)) (toLex (tenant, user))
  have hpos : 0 < db.memberships.count fun k role =>
      (decide ((ofLex k).1 = tenant) && decide (role = .owner)) &&
        !decide (k = toLex (tenant, user)) := by
    unfold Db.owners at hmany
    omega
  simp only [OrderedMap.count, List.countP_pos_iff, Bool.and_eq_true, decide_eq_true_eq,
    Bool.not_eq_true', decide_eq_false_iff_not] at hpos
  obtain ⟨⟨k, role⟩, hmem, ⟨htenant, hrole⟩, hne⟩ := hpos
  have hget := (OrderedMap.mem_entries_iff db.memberships k role).mp hmem
  refine ⟨(ofLex k).2, fun heq => hne ?_, ?_⟩
  · rw [← heq, ← htenant]
    rfl
  · rw [← htenant, ← hrole]
    exact hget

/-- Where one membership is written, one user's role in one tenant changes. -/
theorem role_of_memberships {db' : Db} {written : Option MembershipRole}
    (h : ∀ k, db'.memberships.get? k =
      if k = toLex (tenant, user) then written else db.memberships.get? k) (t : Uuid) :
    db'.role t = if tenant = t then Function.update (db.role t) user written else db.role t := by
  funext u
  simp only [Db.role, h]
  split_ifs with hk ht ht
  · obtain ⟨rfl, rfl⟩ := Prod.mk.inj hk
    rw [Function.update_self]
  · obtain ⟨rfl, -⟩ := Prod.mk.inj hk
    exact absurd rfl ht
  · subst ht
    rw [Function.update_of_ne fun heq => hk (by rw [heq])]
    rfl
  · rfl

theorem role_setRole (t : Uuid) (role : MembershipRole)
    (htenant : (db.tenants.get? tenant).isSome = true) :
    (db.setRole tenant user role htenant).role t =
      if tenant = t then Function.update (db.role t) user (some role) else db.role t :=
  role_of_memberships (fun _ => OrderedMap.get?_insert ..) t

theorem role_dropRole (t : Uuid) :
    (db.dropRole tenant user).role t =
      if tenant = t then Function.update (db.role t) user none else db.role t :=
  role_of_memberships (fun _ => OrderedMap.get?_erase ..) t

end Owners

/-- The roles of the tenant are the same. -/
def SameRoles (tenant : Uuid) (db db' : Db) : Prop := db'.role tenant = db.role tenant

theorem SameRoles.trans {tenant : Uuid} {u v w : Db} (huv : SameRoles tenant u v)
    (hvw : SameRoles tenant v w) : SameRoles tenant u w := Eq.trans hvw huv

theorem Statement.sameRoles {h : Externals} {parts : List Part} {db db' : Db}
    (hs : Statement h parts db db') (hparts : .members ∉ parts) (tenant : Uuid) :
    SameRoles tenant db db' := by
  cases hs with
  | setRole hpart => exact absurd hpart hparts
  | dropRole hpart => exact absurd hpart hparts
  | _ => rfl

theorem Setup.sameRoles (s : Setup) (tenant : Uuid) (db : Db) : SameRoles tenant db (s.apply db) := by
  funext user
  unfold Db.role
  rw [(s.apply_adds db).memberships]

/-! ## The discipline -/

/-- What transactions agree on about a tenant's owners. -/
def ownerDiscipline (tenant : Uuid) : Discipline Op String Db Result where
  inv := fun _ => True
  onward := fun w w' => HasOwner (w.db.role tenant) → HasOwner (w'.db.role tenant)
  keeps := fun name w w' => name = membershipLock tenant → SameRoles tenant w.db w'.db
  met := fun _ _ _ => True
  onward_refl := fun _ h => h
  onward_trans := fun _ _ _ huv hvw h => hvw (huv h)
  keeps_refl := fun _ _ _ => rfl
  keeps_trans := fun _ _ _ _ huv hvw h => (huv h).trans (hvw h)

/-- The changes of the transaction turn the roles of the tenant into `f` of them. -/
def Effect (tenant : Uuid)
    (f : (Uuid → Option MembershipRole) → Uuid → Option MembershipRole) (pt : TxPoint) : Prop :=
  ∀ d d', pt.pending d = .ok d' → d'.role tenant = f (d.role tenant)

/-- **The changes of the transaction leave an owner if there is one**, and it has the lock
unless it does not change the tenant's roles. -/
def Protected (tenant : Uuid) (pt : TxPoint) : Prop :=
  ∃ f, Effect tenant f pt ∧ (f = id ∨ membershipLock tenant ∈ pt.held) ∧
    (HasOwner (pt.state.db.role tenant) → HasOwner (f (pt.state.db.role tenant)))

section Protected

variable {tenant : Uuid}

/-- Under the lock, or without changes, an owner is left in later states too. -/
theorem leaves_owner {f : (Uuid → Option MembershipRole) → Uuid → Option MembershipRole}
    {held : List String} {w w' : State Op Db Result}
    (hheld : f = id ∨ membershipLock tenant ∈ held)
    (hleaves : HasOwner (w.db.role tenant) → HasOwner (f (w.db.role tenant)))
    (hw : (ownerDiscipline tenant).Rely held w w') :
    HasOwner (w'.db.role tenant) → HasOwner (f (w'.db.role tenant)) := by
  rcases hheld with rfl | hlock
  · exact fun h => h
  · rw [hw.keeps _ hlock rfl]
    exact hleaves

theorem Protected.commits {pt : TxPoint} (hpt : Protected tenant pt) (job : Op) (r : Result) :
    (ownerDiscipline tenant).Commits job r pt := by
  obtain ⟨f, heffect, hheld, hleaves⟩ := hpt
  intro w hw a ha
  refine ⟨trivial, fun howner => ?_, fun name hname heq => ?_⟩
  · change HasOwner (a.role tenant)
    rw [heffect w.db a ha]
    exact leaves_owner hheld hleaves hw howner
  · rcases hheld with rfl | hlock
    · exact heffect w.db a ha
    · exact absurd (heq ▸ hlock) hname

/-- Scripts that leave the tenant's roles alone. -/
theorem maintains_sameRoles {job : Op} {α : Type} {p : Tx α}
    (hp : Script.Within (SameRoles tenant) p) :
    Script.Maintains (ownerDiscipline tenant) job (Protected tenant) p := by
  refine Script.maintains_within (R := SameRoles tenant) (fun _ => rfl) (fun _ _ _ => SameRoles.trans)
    (fun _ _ => trivial) (fun pt held seen pending w hpt hsub hw hpending => ?_) hp
  obtain ⟨f, heffect, hheld, hleaves⟩ := hpt
  refine ⟨f, fun d d' hd => ?_, hheld.imp_right fun hlock => hsub hlock,
    leaves_owner hheld hleaves hw⟩
  obtain ⟨v, hv, hsame⟩ := hpending d d' hd
  exact Eq.trans hsame (heffect d v hv)

/-- Scripts that write other tables. -/
theorem maintains_statement {h : Externals} {parts : List Part} {job : Op} {α : Type} {p : Tx α}
    (hp : Script.Within (Statement h parts) p) (hparts : .members ∉ parts) :
    Script.Maintains (ownerDiscipline tenant) job (Protected tenant) p :=
  maintains_sameRoles (hp.mono fun _ _ hs => hs.sameRoles hparts tenant)

theorem maintains_quiet {job : Op} {α : Type} {p : Tx α} (hp : Script.Quiet p) :
    Script.Maintains (ownerDiscipline tenant) job (Protected tenant) p :=
  maintains_sameRoles hp.within

end Protected

/-! ## The check -/

section Check

variable {tenant : Uuid} {job : Op}

/-- The role `next` of the user leaves an owner among `roles` if there is one. -/
def Spares (roles : Uuid → Option MembershipRole) (user : Uuid) (next : Option MembershipRole) :
    Prop :=
  HasOwner roles → HasOwner (Function.update roles user next)

theorem spares_of_other {roles : Uuid → Option MembershipRole} {user other : Uuid}
    (hne : other ≠ user) (howner : roles other = some .owner) (next : Option MembershipRole) :
    Spares roles user next := by
  intro _
  refine ⟨other, ?_⟩
  rw [Function.update_of_ne hne]
  exact howner

theorem spares_of_not_owner {roles : Uuid → Option MembershipRole} {user : Uuid}
    (hrole : roles user ≠ some .owner) (next : Option MembershipRole) :
    Spares roles user next := by
  rintro ⟨other, howner⟩
  refine spares_of_other (fun heq => hrole ?_) howner next ⟨other, howner⟩
  rw [← heq]
  exact howner

theorem spares_owner (roles : Uuid → Option MembershipRole) (user : Uuid) :
    Spares roles user (some .owner) :=
  fun _ => ⟨user, Function.update_self user (some .owner) roles⟩

/-- **The check.** What it lets pass leaves an owner, as seen with the changes made so far; the
lock is kept. -/
theorem wp_protectOwner {t user : Uuid} {next : Option MembershipRole} {pt : TxPoint}
    {f : (Uuid → Option MembershipRole) → Uuid → Option MembershipRole}
    (heffect : Effect tenant f pt) {K : Unit → TxPoint → Prop}
    (hK : ∀ seen w, (ownerDiscipline tenant).Rely pt.held pt.state w →
      (t = tenant → Spares (f (w.db.role tenant)) user next) →
      K () { pt with held := membershipLock t :: pt.held, seen := seen, state := w }) :
    Script.wp (ownerDiscipline tenant) job (protectOwner t user next) K pt := by
  unfold protectOwner losesLastOwner lockMembership
  rw [Script.wp_bind, Script.wp_bind, Script.wp_acquire]
  intro w₁ hw₁
  -- under the lock: what is needed of the states between the statements
  have hlater : ∀ {u v : State Op Db Result}, (ownerDiscipline tenant).Rely pt.held pt.state u →
      (ownerDiscipline tenant).Rely (membershipLock t :: pt.held) u v →
        (ownerDiscipline tenant).Rely pt.held pt.state v :=
    fun hu hv => hu.trans (hv.weaken (List.subset_cons_self _ _))
  split_ifs with hnext
  · refine (Script.wp_failIf _ _).mpr fun _ => hK pt.seen w₁ hw₁ fun _ => ?_
    rw [hnext]
    exact spares_owner _ user
  · rw [Script.wp_bind, getMembershipRole, Script.wp_read]
    intro w₂ hw₂ v₂ hv₂ _
    have hrely₂ := hlater hw₁ hw₂
    have hseen₂ : v₂.role tenant = f (w₂.db.role tenant) := heffect w₂.db v₂ hv₂
    split_ifs with hrole
    · refine (Script.wp_failIf _ _).mpr fun _ => hK _ w₂ hrely₂ fun heq => ?_
      subst heq
      apply spares_of_not_owner
      rw [← hseen₂]
      exact hrole
    · rw [Script.wp_bind, Script.wp_read]
      intro w₃ hw₃ v₃ hv₃ _
      have hseen₃ : v₃.role tenant = f (w₃.db.role tenant) := heffect w₃.db v₃ hv₃
      refine (Script.wp_failIf _ _).mpr fun hmany => hK _ w₃ (hlater hrely₂ hw₃) fun heq => ?_
      subst heq
      have hmany' : 1 < v₃.owners t := by simpa using hmany
      obtain ⟨other, hne, howner⟩ := other_owner hmany' user
      rw [hseen₃] at howner
      exact spares_of_other hne howner next

end Check

/-! ## Operations -/

section Operations

variable {tenant : Uuid} {job : Op} {h : Externals}

/-- The change of one user's role in tenant `t`, as the tenant's roles see it. -/
def changed (tenant t user : Uuid) (next : Option MembershipRole)
    (f : (Uuid → Option MembershipRole) → Uuid → Option MembershipRole)
    (roles : Uuid → Option MembershipRole) : Uuid → Option MembershipRole :=
  if t = tenant then Function.update (f roles) user next else f roles

/-- A change that the check has let pass, in a later state. -/
theorem protected_changed {t user : Uuid} {next : Option MembershipRole} {pt pt' : TxPoint}
    {f : (Uuid → Option MembershipRole) → Uuid → Option MembershipRole} {w : State Op Db Result}
    (hheld : f = id ∨ membershipLock tenant ∈ pt.held)
    (hleaves : HasOwner (pt.state.db.role tenant) → HasOwner (f (pt.state.db.role tenant)))
    (hw : (ownerDiscipline tenant).Rely pt.held pt.state w)
    (hspares : t = tenant → Spares (f (w.db.role tenant)) user next)
    (hheld' : pt'.held = membershipLock t :: pt.held)
    (hw' : (ownerDiscipline tenant).Rely (membershipLock t :: pt.held) w pt'.state)
    (heffect : Effect tenant (changed tenant t user next f) pt') : Protected tenant pt' := by
  refine ⟨_, heffect, ?_, ?_⟩
  · by_cases ht : t = tenant
    · refine Or.inr ?_
      rw [hheld', ht]
      exact List.mem_cons_self
    · refine hheld.imp (fun hid => ?_) fun hlock => ?_
      · funext roles
        simp [changed, ht, hid]
      · rw [hheld']
        exact List.mem_cons_of_mem _ hlock
  · have hleaves' := leaves_owner hheld hleaves hw
    by_cases ht : t = tenant
    · -- the lock of the tenant is held since before `w`
      have hsame : pt'.state.db.role tenant = w.db.role tenant :=
        hw'.keeps _ List.mem_cons_self (by rw [ht])
      intro howner
      simp only [changed, ht, if_true, hsame]
      rw [hsame] at howner
      exact hspares ht (hleaves' howner)
    · simp only [changed, ht, if_false]
      exact leaves_owner hheld hleaves' (hw'.weaken (List.subset_cons_self _ _))

theorem maintains_addMemberInTransaction (t user : Uuid) (role : MembershipRole) :
    Script.Maintains (ownerDiscipline tenant) job (Protected tenant)
      (addMemberInTransaction t user role) := by
  rintro pt ⟨f, heffect, hheld, hleaves⟩
  unfold addMemberInTransaction
  rw [Script.wp_bind]
  refine wp_protectOwner heffect fun seen w hw hspares => ?_
  rw [upsertMembership, Script.wp_update]
  intro w' hw' v _ _ a v' _
  refine protected_changed hheld hleaves hw hspares rfl hw' fun d d' hd => ?_
  obtain ⟨d₁, hd₁, hset⟩ := Except.bind_eq_ok.mp hd
  split_ifs at hset with hrefs
  · cases hset
    rw [role_setRole, changed, heffect d d₁ hd₁]
  · cases hset

theorem maintains_removeMemberInTransaction (shred : Uuid → KeyMaterial) (t user : Uuid) :
    Script.Maintains (ownerDiscipline tenant) job (Protected tenant)
      (removeMemberInTransaction h shred t user) := by
  rintro pt ⟨f, heffect, hheld, hleaves⟩
  unfold removeMemberInTransaction
  rw [Script.wp_bind]
  refine wp_protectOwner heffect fun seen w hw hspares => ?_
  rw [Script.wp_bind, deleteGrants, Script.wp_update]
  intro w₁ hw₁ v₁ _ _ _ _ _
  rw [Script.wp_bind, deleteMembership, Script.wp_update]
  intro w₂ hw₂ v₂ _ _ _ _ _
  have hkeys : Script.Within (Statement h [.keys]) (revokeMatching h shred fun key =>
      decide (key.tenantId = t) && decide (key.userId = some user)) :=
    within_revokeMatching List.mem_cons_self _ _
  apply maintains_statement hkeys (by decide)
  refine protected_changed hheld hleaves hw hspares rfl (hw₁.trans hw₂) fun d d' hd => ?_
  obtain ⟨d₂, hd₂, hdrop⟩ := Except.bind_eq_ok.mp hd
  obtain ⟨d₁, hd₁, hgrants⟩ := Except.bind_eq_ok.mp hd₂
  cases hgrants
  cases hdrop
  rw [role_dropRole, changed, ← heffect d d₁ hd₁]
  rfl

theorem maintains_updateMemberAccess (actor : AuthContext) (user : Uuid) (role : MembershipRole) :
    Script.Maintains (ownerDiscipline tenant) job (Protected tenant)
      (updateMemberAccess h actor user role) :=
  (maintains_quiet (quiet_requireCurrentTenantAdmin actor)).bind fun _ =>
    (maintains_quiet (quiet_touchesOwnership _ _ _)).bind fun _ =>
    (maintains_quiet (quiet_requireOwnerIf _ _)).bind fun _ =>
    (maintains_addMemberInTransaction _ _ _).bind fun _ => maintains_quiet (quiet_keyAccess _ _ _)

theorem maintains_redeemInviteAt (token : String) (time : Queue.Instant) :
    Script.Maintains (ownerDiscipline tenant) job (Protected tenant)
      (redeemInviteAt h token time) := by
  have hinvites : Script.Within (Statement h [.invites]) (redeemInviteAt h token time) :=
    within_redeemInviteAt List.mem_cons_self token time
  exact maintains_statement hinvites (by decide)

theorem maintains_acceptInTransaction (token : String) (user : Uuid × User) :
    Script.Maintains (ownerDiscipline tenant) job (Protected tenant)
      (acceptInTransaction h token user) :=
  (maintains_quiet (quiet_inviteTenant token)).bind fun _ =>
    (maintains_quiet (quiet_lockMembership _)).bind fun _ =>
    (maintains_quiet (Script.within_read _)).bind fun _ =>
    (maintains_redeemInviteAt _ _).bind fun _ => (Script.maintains_orFail _ _).bind fun _ =>
    (Script.maintains_failIf _ _).bind fun _ =>
    (maintains_quiet (quiet_getMembershipRole _ _)).bind fun _ =>
    (Script.maintains_failIf _ _).bind fun _ =>
    (maintains_addMemberInTransaction _ _ _).bind fun _ => Script.maintains_pure _

theorem maintains_registerUser (fresh : NewUser) (token password : String)
    (displayName : Option String) :
    Script.Maintains (ownerDiscipline tenant) job (Protected tenant)
      (registerUser h fresh token password displayName) := by
  have hcreate : ∀ email, Script.Within (Statement h [.users])
      (createUser h fresh email password displayName) := fun email =>
    Script.Within.bind (within_insertUser List.mem_cons_self _ _ _) fun _ => Script.within_pure _
  refine (maintains_quiet (quiet_inviteTenant token)).bind fun _ =>
    (maintains_quiet (quiet_lockMembership _)).bind fun _ =>
    (maintains_quiet (Script.within_read _)).bind fun _ =>
    (maintains_redeemInviteAt _ _).bind fun _ => (Script.maintains_orFail _ _).bind fun invite => ?_
  exact ((maintains_statement (hcreate invite.email) (by decide)).bind fun _ =>
    (maintains_addMemberInTransaction _ _ _).bind fun _ => Script.maintains_pure _).bind fun _ =>
    Script.maintains_pure _

/-- **Every operation maintains protection.** Those that do not write memberships have nothing
to check. -/
theorem maintains_op (op : Op) :
    Script.Maintains (ownerDiscipline tenant) job (Protected tenant) (op.code h) := by
  by_cases hwrites : .members ∈ op.writes
  · cases op with
    | addMember t user role =>
        exact (maintains_addMemberInTransaction _ _ _).bind fun _ => Script.maintains_pure _
    | addMemberByEmail actor email role =>
        exact ((maintains_quiet (quiet_requireTenantAdmin _ _)).bind fun _ =>
          (maintains_quiet (Script.within_read _)).bind fun _ =>
          (Script.maintains_orFail _ _).bind fun _ =>
          (maintains_updateMemberAccess _ _ _).bind fun _ => Script.maintains_pure _).bind fun _ =>
          Script.maintains_pure _
    | updateMemberAccess actor user role =>
        exact (maintains_updateMemberAccess _ _ _).bind fun _ => Script.maintains_pure _
    | transferOwnership actor successor =>
        refine Script.Maintains.bind ?_ fun _ => Script.maintains_pure _
        exact (maintains_quiet (quiet_requireCurrentTenantAdmin actor)).bind fun _ =>
          (Script.maintains_orFail _ _).bind fun _ =>
          (maintains_quiet (quiet_getMembershipRole _ _)).bind fun _ =>
          (Script.maintains_failIf _ _).bind fun _ => (Script.maintains_failIf _ _).bind fun _ =>
          (maintains_quiet (quiet_getMembershipRole _ _)).bind fun _ =>
          (Script.maintains_orFail _ _).bind fun _ =>
          (maintains_addMemberInTransaction _ _ _).bind fun _ =>
          maintains_addMemberInTransaction _ _ _
    | removeMember shred t user =>
        exact (maintains_removeMemberInTransaction _ _ _).bind fun _ => Script.maintains_pure _
    | removeMemberAs shred actor user =>
        refine Script.Maintains.bind ?_ fun _ => Script.maintains_pure _
        exact (maintains_quiet (quiet_requireCurrentTenantAdmin actor)).bind fun _ =>
          (maintains_quiet (quiet_getMembershipRole _ _)).bind fun _ =>
          (maintains_quiet (quiet_requireOwnerIf _ _)).bind fun _ =>
          maintains_removeMemberInTransaction _ _ _
    | acceptExistingUser token email password =>
        refine Script.Maintains.bind ?_ fun _ => Script.maintains_pure _
        exact (maintains_quiet (Script.within_read _)).bind fun _ =>
          (Script.maintains_orFail _ _).bind fun _ =>
          (maintains_acceptInTransaction _ _).bind fun _ => Script.maintains_pure _
    | acceptAuthenticatedUser actor token =>
        refine Script.Maintains.bind ?_ fun _ => Script.maintains_pure _
        exact (maintains_quiet (quiet_inviteTenant token)).bind fun _ =>
          (maintains_quiet (quiet_lockMembership _)).bind fun _ =>
          (maintains_quiet (quiet_lockMembership _)).bind fun _ =>
          (maintains_quiet (quiet_currentContext actor)).bind fun _ =>
          (Script.maintains_orFail _ _).bind fun _ =>
          (maintains_quiet (Script.within_read _)).bind fun _ =>
          (Script.maintains_orFail _ _).bind fun _ =>
          (maintains_acceptInTransaction _ _).bind fun _ => Script.maintains_pure _
    | registerUser fresh token password displayName =>
        exact (maintains_registerUser _ _ _ _).bind fun _ => Script.maintains_pure _
    | _ => simp [Op.writes] at hwrites
  · exact maintains_statement (op_within op) hwrites

end Operations

/-! ## Main result -/

theorem ownerDiscipline_verified (h : Externals) (tenant : Uuid) :
    Verified (ownerDiscipline tenant) (Op.code h) := by
  intro op w _
  refine Script.wp_mono (maintains_op op _ ?_) fun r pt hpt => hpt.commits op r
  refine ⟨id, fun d d' hd => ?_, Or.inl rfl, fun howner => howner⟩
  cases hd
  rfl

theorem ownerDiscipline_tame (tenant : Uuid) : Tame (ownerDiscipline tenant) Setup.apply := by
  intro s w _
  have hsame : SameRoles tenant w.db (s.apply w.db) := s.sameRoles tenant w.db
  refine ⟨trivial, fun howner => ?_, fun _ _ _ => hsame⟩
  change HasOwner ((s.apply w.db).role tenant)
  rw [hsame]
  exact howner

/-- **The last owner stays.** In any interleaving of any operations, from any database, a
tenant that has an owner in some state has one in every later state. -/
theorem last_owner (h : Externals) (db : Db) (tenant : Uuid) (inputs later : List (Event Op Setup))
    (howner : 0 < (run (Server.step (Op.code h) Setup.apply) (Server.init db) inputs).state.db.owners
      tenant) :
    0 < (run (Server.step (Op.code h) Setup.apply) (Server.init db) (inputs ++ later)).state.db.owners
      tenant := by
  have hsound : (run (Server.step (Op.code h) Setup.apply) (Server.init db) inputs).Sound
      (ownerDiscipline tenant) :=
    Server.sound_run (ownerDiscipline_verified h tenant) (ownerDiscipline_tame tenant) trivial
      (Server.stepsMeet (fun _ _ _ => trivial) _ inputs)
  have honward := hsound.onward_run (ownerDiscipline_verified h tenant) (ownerDiscipline_tame tenant)
    (Server.stepsMeet (fun _ _ _ => trivial) _ later)
  rw [run_append]
  exact owners_pos_iff.mpr (honward (owners_pos_iff.mp howner))

/-- A tenant with two owners. -/
def coOwned : Db :=
  (run (Trace.step .plain) (.start (.empty 0))
    [.setup (.tenant 1 "acme"), .setup (.user 10 ⟨"one@acme", none, none⟩),
      .setup (.user 11 ⟨"two@acme", none, none⟩), .op (.addMember 1 10 .owner),
      .op (.addMember 1 11 .owner)]).db

/-- Both owners are being removed, statement by statement in turn. -/
def removals : List (Event Op Setup) :=
  [.start 0 (.removeMember (fun _ => ⟨"", ""⟩) 1 10),
    .start 1 (.removeMember (fun _ => ⟨"", ""⟩) 1 11)] ++
    (List.replicate 10 [.step 0, .step 1]).flatten

/-- One of the removals goes through, and an owner is left. -/
theorem last_owner_removals :
    (run (Server.step (Op.code .plain) Setup.apply) (Server.init coOwned) removals).state.log.length = 1 ∧
      0 < (run (Server.step (Op.code .plain) Setup.apply) (Server.init coOwned)
        ([] ++ removals)).state.db.owners 1 :=
  ⟨by decide, last_owner .plain coOwned 1 [] removals (by decide)⟩

end Yorishiro.Tenancy
