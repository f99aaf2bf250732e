import Yorishiro.Tenancy.InviteHistory
import Yorishiro.Tenancy.LastOwner

/-!
# Invites are single-use

Every operation commits as the discipline of invites allows. A redemption finds the invite by
its token, waits for the tenant's membership lock and marks the invite used in one update; the
token still belongs to the same invite then, so from the update to the commit nobody can
reissue or revoke it, use it, or retire the tenant.

`invites_single_use` states the result for every interleaving.
-/

set_option autoImplicit false

namespace Yorishiro.Tenancy

open Yorishiro.Lib
open Yorishiro.Lib.Fence
open Yorishiro.Lib.Transition
open Yorishiro.Queue (Instant)

/-! ## Guards take the lock -/

section Guards

variable {D : Discipline Op String Db Result} {job : Op} {pt : TxPoint}

theorem wp_requireCurrentTenantAdmin {actor : AuthContext} {K : Unit → TxPoint → Prop}
    (hK : ∀ held seen w, membershipLock actor.tenantId ∈ held → pt.held ⊆ held → pt.seen ⊆ seen →
      D.Rely pt.held pt.state w → K () { pt with held := held, seen := seen, state := w }) :
    Script.wp D job (requireCurrentTenantAdmin actor) K pt := by
  unfold requireCurrentTenantAdmin lockMembership
  rw [Script.wp_bind, Script.wp_acquire]
  intro w hw
  refine Script.wp_quiet (Script.Within.bind (quiet_currentContext actor) fun _ =>
    quiet_requireTenantAdmin _ _) hw.inv fun _ held seen w' hheld hseen hw' => ?_
  exact hK held seen w' (hheld List.mem_cons_self) (fun n hn => hheld (List.mem_cons_of_mem _ hn))
    hseen (hw.trans (hw'.weaken (List.subset_cons_self _ _)))

theorem wp_requireCurrentTenantOwner {actor : AuthContext} {K : Uuid → TxPoint → Prop}
    (hK : ∀ u held seen w, membershipLock actor.tenantId ∈ held → pt.held ⊆ held →
      pt.seen ⊆ seen → D.Rely pt.held pt.state w →
        K u { pt with held := held, seen := seen, state := w }) :
    Script.wp D job (requireCurrentTenantOwner actor) K pt := by
  unfold requireCurrentTenantOwner
  rw [Script.wp_bind]
  refine wp_requireCurrentTenantAdmin fun held seen w hlock hheld hseen hw => ?_
  rw [Script.wp_bind, Script.wp_orFail]
  intro user _
  rw [Script.wp_bind, getMembershipRole, Script.wp_read]
  intro w' hw' v _ _
  split_ifs
  · trivial
  · exact hK user held (seen ++ [v]) w' hlock hheld
      (fun d hd => List.mem_append_left _ (hseen hd)) (hw.trans (hw'.weaken hheld))

theorem wp_addMemberInTransaction {tenant user : Uuid} {role : MembershipRole}
    {K : Unit → TxPoint → Prop} (hinv : D.inv pt.state)
    (hK : ∀ held seen pending w, pt.held ⊆ held → pt.seen ⊆ seen → D.Rely pt.held pt.state w →
      (∀ d d', pending d = .ok d' → ∃ v, ∃ htenant : (v.tenants.get? tenant).isSome = true,
        pt.pending d = .ok v ∧ d' = v.setRole tenant user role htenant) →
      K () { held := held, seen := seen, pending := pending, state := w }) :
    Script.wp D job (addMemberInTransaction tenant user role) K pt := by
  unfold addMemberInTransaction
  rw [Script.wp_bind]
  refine Script.wp_quiet (quiet_protectOwner tenant user (some role)) hinv
    fun _ held seen w hheld hseen hw => ?_
  rw [upsertMembership, Script.wp_update]
  intro w' hw' v _ _ _ _ _
  refine hK held (seen ++ [v]) _ w' hheld (fun d hd => List.mem_append_left _ (hseen hd))
    (hw.trans (hw'.weaken hheld)) fun d d' hd => ?_
  obtain ⟨d₁, hd₁, hset⟩ := Except.bind_eq_ok.mp hd
  split_ifs at hset with hrefs
  · cases hset
    exact ⟨d₁, hrefs.1, hd₁, rfl⟩
  · cases hset

end Guards

/-! ## Operations that leave invites alone -/

/-- Nothing but the tenant `changed` changes of what matters to invites. -/
structure Calm (changed : Option Uuid) (d d' : Db) : Prop where
  invites : d'.invites = d.invites
  tenants : ∀ t, changed ≠ some t → d'.tenants.get? t = d.tenants.get? t
  clock : d'.clock = d.clock
  users : ∀ id row, d.users.get? id = some row → d'.users.get? id = some row

theorem Calm.refl (changed : Option Uuid) (d : Db) : Calm changed d d :=
  ⟨rfl, fun _ _ => rfl, rfl, fun _ _ h => h⟩

theorem Calm.trans {changed : Option Uuid} {d d' d'' : Db} (h : Calm changed d d')
    (h' : Calm changed d' d'') : Calm changed d d'' where
  invites := h'.invites.trans h.invites
  tenants := fun t ht => (h'.tenants t ht).trans (h.tenants t ht)
  clock := h'.clock.trans h.clock
  users := fun id row hrow => h'.users id row (h.users id row hrow)

theorem Statement.calm {h : Externals} {parts : List Part} {d d' : Db}
    (hs : Statement h parts d d') (hinvites : .invites ∉ parts) (htenants : .tenants ∉ parts)
    (changed : Option Uuid) : Calm changed d d' := by
  cases hs with
  | insertUser _ id user hok =>
      exact ⟨rfl, fun _ _ => rfl, rfl, fun l row hrow => Table.get?_insert_of_some hok hrow⟩
  | insertInvite hpart => exact absurd hpart hinvites
  | updateInvite hpart => exact absurd hpart hinvites
  | redeem hpart => exact absurd hpart hinvites
  | disable hpart => exact absurd hpart htenants
  | _ => exact ⟨rfl, fun _ _ => rfl, rfl, fun _ _ h => h⟩

/-- The operation neither issues nor revokes nor redeems an invite. -/
def Op.aside (op : Op) : Prop :=
  op.issuesInvite = none ∧ op.revokesInvite = none ∧ op.presents = none

theorem Op.aside.silent {op : Op} (h : op.aside) (id : Uuid) : op.silent id := by
  refine ⟨fun issued hissues => ?_, ?_⟩
  · rw [h.1] at hissues
    cases hissues
  · rw [h.2.1]
    exact Option.some_ne_none id ∘ Eq.symm

section Aside

variable {h : Externals} {start : Db} {op : Op}

theorem commits_of_calm (hop : op.aside) (changed : Option Uuid) {pt : TxPoint} (r : Result)
    (hpending : ∀ d d', pt.pending d = .ok d' → Calm changed d d')
    (hlock : ∀ t, changed = some t → membershipLock t ∈ pt.held) :
    (inviteDiscipline h start).Commits op r pt := by
  intro w hw a ha
  have hcalm := hpending w.db a ha
  have hget : ∀ id, a.invites.get? id = w.db.invites.get? id := by
    intro id
    rw [hcalm.invites]
  refine allows_commit hw.inv hcalm.clock.ge hcalm.users ?_ ?_ ?_ ?_ ?_
  · exact fun id row hrow => ⟨row, (hget id).trans hrow, rfl⟩
  · exact fun id row hrow hused => ⟨row, (hget id).trans hrow, hused⟩
  · intro _ _ id row' hrow'
    rw [hget id] at hrow'
    exact Or.inl ⟨row', hrow', rfl, Or.inl ⟨hop.silent id, rfl⟩⟩
  · intro _ _ token htoken
    rw [hop.2.2] at htoken
    cases htoken
  · intro _ id row hrow hnot
    refine ⟨(hget id).trans hrow, hcalm.tenants _ fun heq => hnot (hlock _ heq), hop.silent id⟩

/-- Operations that write neither invites nor tenants. -/
theorem wp_aside (hop : op.aside) (hinvites : .invites ∉ op.writes) (htenants : .tenants ∉ op.writes)
    {w : State Op Db Result} (hw : (inviteDiscipline h start).inv w) :
    (op.code h).wp (inviteDiscipline h start) op ((inviteDiscipline h start).Commits op)
      ⟨[], [], .ok, w⟩ := by
  have hwithin : Script.Within (Calm none) (op.code h) :=
    (op_within op).mono fun d d' hs => hs.calm hinvites htenants none
  refine Script.wp_within (Calm.refl none) (fun _ _ _ => Calm.trans) hwithin hw ?_
  intro r held seen pending w' _ _ _ hpending
  refine commits_of_calm hop none r (fun d d' hd => ?_) fun t ht => by cases ht
  obtain ⟨v, hv, hcalm⟩ := hpending d d' hd
  cases hv
  exact hcalm

theorem within_calm_disable (shred : Uuid → KeyMaterial) (tenant : Uuid) :
    Script.Within (Calm (some tenant)) (disableInTransaction h shred tenant) := by
  have hkeys : ∀ condition, Script.Within (Statement h [.keys])
      (revokeMatching h shred condition) :=
    fun condition => within_revokeMatching List.mem_cons_self _ _
  refine (Script.within_read _).bind fun _ => (Script.within_orFail _ _).bind fun row =>
    Script.Within.bind ?_ fun _ => (hkeys _).mono fun d d' hs =>
      hs.calm (by decide) (by decide) (some tenant)
  unfold markDisabled
  split_ifs
  · refine (Script.within_read _).bind fun time => Script.within_update fun d _ d' hok => ?_
    cases hok
    refine ⟨rfl, fun t ht => ?_, rfl, fun _ _ hrow => hrow⟩
    have hne : t ≠ tenant := fun heq => ht (by rw [heq])
    simp only [Db.disable, OrderedMap.get?_updateWhere]
    cases d.tenants.get? t with
    | none => rfl
    | some row => simp [hne]
  · exact Script.within_pure _

/-- Retirement has the lock of the tenant. -/
theorem wp_disable (hop : op.aside) (shred : Uuid → KeyMaterial) (tenant : Uuid) (r : Result)
    {pt : TxPoint} (hpending : pt.pending = .ok) (hlock : membershipLock tenant ∈ pt.held)
    (hinv : (inviteDiscipline h start).inv pt.state) :
    (disableInTransaction h shred tenant).wp (inviteDiscipline h start) op
      (fun _ pt' => (inviteDiscipline h start).Commits op r pt') pt := by
  refine Script.wp_within (Calm.refl _) (fun _ _ _ => Calm.trans) (within_calm_disable shred tenant)
    hinv fun _ held seen pending w hheld _ _ hchanges => ?_
  refine commits_of_calm hop (some tenant) r (fun d d' hd => ?_) fun t ht => ?_
  · obtain ⟨v, hv, hcalm⟩ := hchanges d d' hd
    rw [hpending] at hv
    cases hv
    exact hcalm
  · cases ht
    exact hheld hlock

end Aside

/-! ## Issue and revocation -/

section Issue

variable {h : Externals} {start : Db} {op : Op}

/-- A new row, with the digest of the token the operation issues. -/
theorem commits_of_insert {fresh : NewInvite} (hissues : op.issuesInvite = some (fresh.id, fresh.token))
    (hrevokes : op.revokesInvite = none) (hpresents : op.presents = none) {invite : Invite}
    (hhash : invite.tokenHash = h.hashKey fresh.token) (r : Result) {pt : TxPoint}
    (hpending : ∀ d d', pt.pending d = .ok d' → ∃ invites, d.invites.insert fresh.id invite =
      .ok invites ∧ d' = { d with invites := invites }) :
    (inviteDiscipline h start).Commits op r pt := by
  intro w hw a ha
  obtain ⟨invites, hinsert, rfl⟩ := hpending w.db a ha
  have hget := Table.get?_insert hinsert
  have hother : ∀ id row, w.db.invites.get? id = some row → id ≠ fresh.id := by
    rintro _ row hrow rfl
    rw [(Table.insert_eq_ok hinsert).1] at hrow
    cases hrow
  have hsame : ∀ id row, w.db.invites.get? id = some row → invites.get? id = some row := by
    intro id row hrow
    rw [hget, if_neg (hother id row hrow)]
    exact hrow
  have hsilent : ∀ id, id ≠ fresh.id → op.silent id := by
    refine fun id hne => ⟨fun issued hissued => ?_, ?_⟩
    · rw [hissues] at hissued
      cases hissued
      exact hne.symm
    · rw [hrevokes]
      exact Option.some_ne_none id ∘ Eq.symm
  refine allows_commit hw.inv le_rfl (fun _ _ hrow => hrow) ?_ ?_ ?_ ?_ ?_
  · exact fun id row hrow => ⟨row, hsame id row hrow, rfl⟩
  · exact fun id row hrow hused => ⟨row, hsame id row hrow, hused⟩
  · intro _ _ id row' hrow'
    change invites.get? id = some row' at hrow'
    rw [hget] at hrow'
    split_ifs at hrow' with hid
    · cases hrow'
      rw [hid]
      exact Or.inr ⟨fresh.token, hissues, hhash⟩
    · exact Or.inl ⟨row', hrow', rfl, Or.inl ⟨hsilent id hid, rfl⟩⟩
  · intro _ _ token htoken
    rw [hpresents] at htoken
    cases htoken
  · exact fun _ id row hrow _ => ⟨hsame id row hrow, rfl, hsilent id (hother id row hrow)⟩

theorem wp_createInviteAt {fresh : NewInvite}
    (hissues : op.issuesInvite = some (fresh.id, fresh.token)) (hrevokes : op.revokesInvite = none)
    (hpresents : op.presents = none) (tenant : Uuid) (email : String) (role : MembershipRole)
    (ttl : Int) (time : Instant) {pt : TxPoint} (hpending : pt.pending = .ok)
    (hinv : (inviteDiscipline h start).inv pt.state) :
    (createInviteAt h fresh tenant email role ttl time).wp (inviteDiscipline h start) op
      (fun issued pt' => (inviteDiscipline h start).Commits op (.issued issued) pt') pt := by
  unfold createInviteAt
  rw [Script.wp_bind]
  refine Script.wp_quiet (quiet_lockMembership tenant) hinv fun _ held seen w _ _ hw => ?_
  rw [Script.wp_bind]
  refine Script.wp_quiet (quiet_requireActive tenant) hw.inv fun _ held' seen' w' _ _ _ => ?_
  rw [Script.wp_bind, insertInvite, Script.wp_update]
  intro w₁ _ v _ _ _ _ _
  have hhash : (⟨tenant, email, role, h.hashKey fresh.token, time + ttl, none⟩ : Invite).tokenHash =
      h.hashKey fresh.token := rfl
  refine commits_of_insert hissues hrevokes hpresents hhash _ fun d d' hd => ?_
  obtain ⟨d₁, hd₁, hact⟩ := Except.bind_eq_ok.mp hd
  rw [hpending] at hd₁
  cases hd₁
  obtain ⟨⟨_, d₂⟩, hupdate, rfl⟩ := Except.map_eq_ok hact
  obtain ⟨_, -, hinsert⟩ := Except.bind_eq_ok.mp hupdate
  obtain ⟨invites, hinvites, hend⟩ := Except.bind_eq_ok.mp hinsert
  cases hend
  exact ⟨invites, Except.mapError_eq_ok hinvites, rfl⟩

/-- An update of one invite by its id, of a tenant whose lock is held. -/
theorem commits_of_update {id : Uuid} (hsilent : ∀ l, l ≠ id → op.silent l)
    (hpresents : op.presents = none) {f : Invite → Invite}
    (hf : ∀ row, (f row).tenantId = row.tenantId ∧ (f row).usedAt = row.usedAt) (r : Result)
    {pt : TxPoint} {known : Invite}
    (hknown : pt.state.db.invites.get? id = some known)
    (hlock : membershipLock known.tenantId ∈ pt.held)
    (hpending : ∀ d d', pt.pending d = .ok d' →
      ∃ row invites, d.invites.get? id = some row ∧ Table.Replaces d.invites invites id (f row) ∧
        d' = { d with invites := invites })
    (hstep : ∀ w, (inviteDiscipline h start).Rely pt.held pt.state w → ∀ row,
      w.db.invites.get? id = some row → RowStep h op w.db w.db.clock id (f row)) :
    (inviteDiscipline h start).Commits op r pt := by
  intro w hw a ha
  obtain ⟨row, invites, hrow, hreplaces, rfl⟩ := hpending w.db a ha
  -- the invite is of the tenant it was of
  have hheld : membershipLock row.tenantId ∈ pt.held := by
    obtain ⟨row', hrow', htenant⟩ := hw.onward.invites id known hknown
    obtain rfl : row = row' := Option.some.inj (hrow.symm.trans hrow')
    rw [htenant]
    exact hlock
  refine allows_commit hw.inv le_rfl (fun _ _ hrow => hrow) ?_ ?_ ?_ ?_ ?_
  · intro l row' hrow'
    by_cases hl : l = id
    · subst hl
      obtain rfl : row = row' := Option.some.inj (hrow.symm.trans hrow')
      exact ⟨f row, hreplaces.get?_self, (hf row).1⟩
    · exact ⟨row', (hreplaces.get?_ne hl).trans hrow', rfl⟩
  · intro l row' hrow' hused
    by_cases hl : l = id
    · subst hl
      obtain rfl : row = row' := Option.some.inj (hrow.symm.trans hrow')
      exact ⟨f row, hreplaces.get?_self, (hf row).2 ▸ hused⟩
    · exact ⟨row', (hreplaces.get?_ne hl).trans hrow', hused⟩
  · intro _ _ l row' hrow'
    change invites.get? l = some row' at hrow'
    by_cases hl : l = id
    · subst hl
      rw [hreplaces.get?_self] at hrow'
      cases hrow'
      exact hstep w hw row hrow
    · rw [hreplaces.get?_ne hl] at hrow'
      exact Or.inl ⟨row', hrow', rfl, Or.inl ⟨hsilent l hl, rfl⟩⟩
  · intro _ _ token htoken
    rw [hpresents] at htoken
    cases htoken
  · intro _ l row' hrow' hnot
    have hl : l ≠ id := by
      rintro rfl
      obtain rfl : row = row' := Option.some.inj (hrow.symm.trans hrow')
      exact hnot hheld
    exact ⟨(hreplaces.get?_ne hl).trans hrow', rfl, hsilent l hl⟩

/-- What an update by id is going to change. -/
theorem updateInvite_pending {id : Uuid} {f : Invite → Invite} {d d' : Db}
    (hok : (updateInvite id f).alone d = .ok ((), d')) :
    ∃ row invites, d.invites.get? id = some row ∧ Table.Replaces d.invites invites id (f row) ∧
      d' = { d with invites := invites } := by
  rw [updateInvite, Script.alone_update] at hok
  obtain ⟨⟨invites, n⟩, hinvites, hok⟩ := Except.bind_eq_ok.mp hok
  simp only at hok
  split_ifs at hok with hzero
  · cases hok
  · cases hok
    rcases Table.updateRow_eq_ok (Except.mapError_eq_ok hinvites) with
      ⟨row, hrow, -, -, hreplaces⟩ | ⟨-, hn, -⟩
    · exact ⟨row, invites, hrow, hreplaces, rfl⟩
    · exact absurd hn hzero

/-- What has been read of an invite of the actor's tenant stays true under the lock. -/
theorem wp_managedInvite {tenant id : Uuid} {pt : TxPoint} (hpending : pt.pending = .ok)
    {K : Invite → TxPoint → Prop}
    (hK : ∀ row v w, (inviteDiscipline h start).Rely pt.held pt.state w →
      w.db.invites.get? id = some row → row.tenantId = tenant →
      K row { pt with seen := pt.seen ++ [v], state := w }) :
    (managedInvite tenant id).wp (inviteDiscipline h start) op K pt := by
  unfold managedInvite
  rw [Script.wp_bind, Script.wp_read]
  intro w hw v hv _
  rw [hpending] at hv
  cases hv
  rw [Script.wp_orFail]
  intro row hrow
  obtain ⟨hrow, htenant⟩ := Option.filter_eq_some_iff.mp hrow
  exact hK row w.db w hw hrow (of_decide_eq_true htenant)

theorem wp_reissueInviteAs (token : String) (actor : AuthContext) (id : Uuid) (expiresAt : Instant)
    {w : State Op Db Result} :
    ((Op.reissueInviteAs token actor id expiresAt).code h).wp (inviteDiscipline h start)
      (.reissueInviteAs token actor id expiresAt)
      ((inviteDiscipline h start).Commits (.reissueInviteAs token actor id expiresAt))
      ⟨[], [], .ok, w⟩ := by
  rw [Op.code, Script.wp_bind]
  unfold reissueInviteAs
  rw [Script.wp_bind]
  refine wp_requireCurrentTenantAdmin fun held seen w₁ hlock _ _ _ => ?_
  rw [Script.wp_bind]
  refine wp_managedInvite rfl fun row v w₂ hw₂ hrow htenant => ?_
  rw [Script.wp_bind]
  refine Script.wp_quiet (quiet_requireOwnerIf _ actor) hw₂.inv
    fun _ held' seen' w₃ hheld _ hw₃ => ?_
  rw [Script.wp_bind, Script.wp_failIf]
  intro _
  rw [now, Script.wp_bind, Script.wp_read]
  intro w₄ hw₄ _ _ _
  rw [Script.wp_bind, Script.wp_failIf]
  intro _
  rw [Script.wp_bind, updateInvite, Script.wp_update]
  intro w₅ hw₅ _ _ _ _ _ _
  -- the row may be another by then, of the same tenant
  have hrely := hw₃.trans ((hw₄.trans hw₅).weaken hheld)
  obtain ⟨row', hrow', htenant'⟩ := hrely.onward.invites id row hrow
  have hsilent : ∀ l, l ≠ id → (Op.reissueInviteAs token actor id expiresAt).silent l := by
    refine fun l hl => ⟨fun issued hissued => ?_, ?_⟩
    · cases hissued
      exact hl.symm
    · exact Option.some_ne_none l ∘ Eq.symm
  refine commits_of_update hsilent rfl
    (f := fun row => { row with tokenHash := h.hashKey token, expiresAt := expiresAt })
    (fun row => ⟨rfl, rfl⟩) _ hrow' ?_ (fun d d' hd => ?_) fun _ _ _ _ => ?_
  · rw [htenant', htenant]
    exact hheld hlock
  · apply updateInvite_pending
    rw [updateInvite, Script.alone_update]
    obtain ⟨⟨_, d₁⟩, hok, rfl⟩ := Except.map_eq_ok hd
    exact hok
  · exact Or.inr ⟨token, rfl, rfl⟩

theorem wp_revokeInviteAs (actor : AuthContext) (id : Uuid) {w : State Op Db Result} :
    ((Op.revokeInviteAs actor id).code h).wp (inviteDiscipline h start) (.revokeInviteAs actor id)
      ((inviteDiscipline h start).Commits (.revokeInviteAs actor id)) ⟨[], [], .ok, w⟩ := by
  rw [Op.code, Script.wp_bind]
  unfold revokeInviteAs
  rw [Script.wp_bind]
  refine wp_requireCurrentTenantAdmin fun held seen w₁ hlock _ _ _ => ?_
  rw [Script.wp_bind]
  refine wp_managedInvite rfl fun row v w₂ hw₂ hrow htenant => ?_
  rw [Script.wp_bind, Script.wp_failIf]
  intro _
  rw [now, Script.wp_bind, Script.wp_read]
  intro w₃ hw₃ v₃ hv₃ _
  cases hv₃
  have hsilent : ∀ l, l ≠ id → (Op.revokeInviteAs actor id).silent l := by
    refine fun l hl => ⟨fun issued hissued => ?_, ?_⟩
    · cases hissued
    · exact fun heq => hl (Option.some.inj heq).symm
  split_ifs with hexpired
  · rw [updateInvite, Script.wp_update]
    intro w₄ hw₄ _ _ _ _ _ _
    obtain ⟨row', hrow', htenant'⟩ := (hw₃.trans hw₄).onward.invites id row hrow
    refine commits_of_update hsilent rfl (f := fun row => { row with expiresAt := w₃.db.clock })
      (fun row => ⟨rfl, rfl⟩) _ hrow' ?_ (fun d d' hd => ?_) fun w₅ hw₅ row'' hrow'' => ?_
    · rw [htenant', htenant]
      exact hlock
    · apply updateInvite_pending
      rw [updateInvite, Script.alone_update]
      obtain ⟨⟨_, d₁⟩, hok, rfl⟩ := Except.map_eq_ok hd
      exact hok
    · exact Or.inl ⟨row'', hrow'', rfl, Or.inr ⟨rfl, rfl, (hw₄.trans hw₅).onward.clock⟩⟩
  · -- the invite has expired, and stays as it is
    intro w₄ hw₄ a ha
    cases ha
    have hrely := hw₃.trans hw₄
    refine allows_commit hw₄.inv le_rfl (fun _ _ hrow => hrow) (fun _ row hrow => ⟨row, hrow, rfl⟩)
      (fun _ row hrow hused => ⟨row, hrow, hused⟩) ?_ ?_ ?_
    · intro hfresh _ l row' hrow'
      refine Or.inl ⟨row', hrow', rfl, ?_⟩
      by_cases hl : l = id
      · subst hl
        have hfresh' : FreshTokens h start w₄.log := hfresh.sublist (List.sublist_append_left _ _)
        obtain ⟨hsame, -⟩ := (hrely.keeps _ hlock).kept hfresh' l row hrow (by rw [htenant])
        obtain rfl : row = row' := Option.some.inj (hsame.symm.trans hrow')
        exact Or.inr ⟨rfl, rfl, (not_lt.mp hexpired).trans hw₄.onward.clock⟩
      · exact Or.inl ⟨hsilent l hl, rfl⟩
    · exact fun _ _ token htoken => by cases htoken
    · intro _ l row' hrow' hnot
      refine ⟨hrow', rfl, hsilent l ?_⟩
      rintro rfl
      obtain ⟨row'', hrow'', htenant''⟩ := hrely.onward.invites l row hrow
      obtain rfl : row' = row'' := Option.some.inj (hrow'.symm.trans hrow'')
      exact hnot (htenant'' ▸ htenant ▸ hlock)

end Issue

/-! ## Redemption -/

/-- **A redemption under way.** The redeeming update found the invite; while tokens are fresh,
the lock of its tenant is held and it was not revoked since its last issue. -/
structure Redeeming (h : Externals) (start : Db) (token : String) (id : Uuid) (row : Invite)
    (time : Instant) (held : List String) (seen : List Db) (w : State Op Db Result) : Prop where
  now : ∃ v ∈ seen, v.clock = time
  update : ∃ v ∈ seen, v.invites.get? id = some row ∧ v.active row.tenantId = true
  stored : w.db.invites.get? id = some row
  redeemable : row.redeemable w.db (h.hashKey token) time = true
  locked : FreshTokens h start w.log →
    membershipLock row.tenantId ∈ held ∧ (standing id w.log).revoked = false

theorem Invite.redeemable_iff {row : Invite} {db : Db} {digest : Digest} {time : Instant} :
    row.redeemable db digest time = true ↔ row.tokenHash = digest ∧
      db.active row.tenantId = true ∧ row.usedAt = none ∧ time < row.expiresAt := by
  simp only [Invite.redeemable, Bool.and_eq_true, decide_eq_true_eq, Option.isNone_iff_eq_none,
    and_assoc]

/-- A tenant that is active stays so while its row does. -/
theorem Db.active_of_kept {db db' : Db} {tenant : Uuid}
    (hkept : ∀ row, db.tenants.get? tenant = some row → db'.tenants.get? tenant = some row)
    (hactive : db.active tenant = true) : db'.active tenant = true := by
  unfold Db.active at hactive ⊢
  cases hrow : db.tenants.get? tenant with
  | none => simp [hrow] at hactive
  | some row =>
      rw [hrow] at hactive
      rw [hkept row hrow]
      exact hactive

section Redemption

variable {h : Externals} {start : Db} {op : Op} {token : String} {id : Uuid} {row : Invite}
  {time : Instant} {held : List String} {seen : List Db} {w w' : State Op Db Result}

/-- Under the lock the invite stays redeemable until the commit. -/
theorem Redeeming.later (hr : Redeeming h start token id row time held seen w)
    (hw : (inviteDiscipline h start).Rely held w w') (hfresh : FreshTokens h start w'.log) :
    w'.db.invites.get? id = some row ∧ row.redeemable w'.db (h.hashKey token) time = true ∧
      (standing id w'.log).revoked = false := by
  obtain ⟨hlock, hrevoked⟩ := hr.locked (hfresh.sublist hw.onward.log.sublist)
  obtain ⟨hrow, htenant, hstanding⟩ := (hw.keeps _ hlock).kept hfresh id row hr.stored rfl
  obtain ⟨hdigest, hactive, hunused, hunexpired⟩ := Invite.redeemable_iff.mp hr.redeemable
  have hactive' := Db.active_of_kept htenant hactive
  refine ⟨hrow, Invite.redeemable_iff.mpr ⟨hdigest, hactive', hunused, hunexpired⟩, ?_⟩
  rw [hstanding]
  exact hrevoked

/-- What the redeeming update does: it marks what can be redeemed. -/
structure Marks (h : Externals) (token : String) (time : Instant) (d d' : Db) : Prop where
  rows : ∀ id, d'.invites.get? id = (d.invites.get? id).map fun row =>
    if row.redeemable d (h.hashKey token) time then { row with usedAt := some time } else row
  tenants : d'.tenants = d.tenants
  clock : d'.clock = d.clock
  users : d'.users = d.users

theorem redeemInviteAt_eq_ok {d d' : Db} {taken : Option RedeemedInvite}
    (hok : (redeemInviteAt h token time).alone d = .ok (taken, d')) :
    Marks h token time d d' ∧ ∀ invite, taken = some invite → ∃ id row,
      d.invites.get? id = some row ∧ row.redeemable d (h.hashKey token) time = true ∧
        invite = ⟨row.tenantId, row.email, row.role⟩ := by
  rw [redeemInviteAt, Script.alone_update] at hok
  obtain ⟨⟨invites, n⟩, hinvites, hend⟩ := Except.bind_eq_ok.mp hok
  cases hend
  refine ⟨⟨Table.get?_updateWhere (Except.mapError_eq_ok hinvites), rfl, rfl, rfl⟩,
    fun invite hinvite => ?_⟩
  obtain ⟨⟨id, row⟩, hfound, rfl⟩ := Option.map_eq_some_iff.mp hinvite
  have hredeemable := List.find?_some hfound
  exact ⟨id, row, (OrderedMap.mem_entries_iff _ _ _).mp (List.mem_of_find?_eq_some hfound),
    hredeemable, rfl⟩

/-- **From the token to the marked invite.** Both ways to redeem begin so. -/
theorem wp_redemption {α : Type} {f : RedeemedInvite → Tx α} {K : α → TxPoint → Prop}
    {pt : TxPoint} (hpending : pt.pending = .ok)
    (hK : ∀ id row time held seen pending w, pt.held ⊆ held → pt.seen ⊆ seen →
      (inviteDiscipline h start).Rely pt.held pt.state w →
      Redeeming h start token id row time held seen w →
      (∀ d d', pending d = .ok d' → Marks h token time d d') →
      (f ⟨row.tenantId, row.email, row.role⟩).wp (inviteDiscipline h start) op K
        ⟨held, seen, pending, w⟩) :
    (do
      let tenant ← inviteTenant h token
      lockMembership tenant
      let time ← now
      let invite ← redeemInviteAt h token time
      let invite ← Script.orFail invalidInvite invite
      f invite : Tx α).wp (inviteDiscipline h start) op K pt := by
  rw [Script.wp_bind, inviteTenant, Script.wp_bind, Script.wp_read]
  intro w₁ hw₁ v₁ hv₁ _
  rw [hpending] at hv₁
  cases hv₁
  rw [Script.wp_orFail]
  intro tenant htenant
  obtain ⟨⟨first, known⟩, hfound, rfl⟩ := Option.map_eq_some_iff.mp htenant
  have hknown : w₁.db.invites.get? first = some known :=
    (OrderedMap.mem_entries_iff _ _ _).mp (List.mem_of_find?_eq_some hfound)
  have hmatches := List.find?_some hfound
  have hdigest : known.tokenHash = h.hashKey token := of_decide_eq_true hmatches
  rw [Script.wp_bind, lockMembership, Script.wp_acquire]
  intro w₂ hw₂
  rw [Script.wp_bind, now, Script.wp_read]
  intro w₃ hw₃ v₃ hv₃ _
  rw [hpending] at hv₃
  cases hv₃
  rw [Script.wp_bind, redeemInviteAt, Script.wp_update]
  intro w₄ hw₄ v₄ hv₄ _ taken v' hredeem
  rw [hpending] at hv₄
  cases hv₄
  rw [Script.wp_bind, Script.wp_orFail]
  intro invite htaken
  -- the invite that the update found
  have halone : (redeemInviteAt h token w₃.db.clock).alone w₄.db = .ok (taken, v') := by
    rw [redeemInviteAt, Script.alone_update]
    exact hredeem
  obtain ⟨id, row, hrow, hredeemable, rfl⟩ := (redeemInviteAt_eq_ok halone).2 invite htaken
  obtain ⟨hhash, hactive, -, hunexpired⟩ := Invite.redeemable_iff.mp hredeemable
  have hrely₃ : (inviteDiscipline h start).Rely pt.held w₁ w₃ :=
    hw₂.trans (hw₃.weaken (List.subset_cons_self _ _))
  have hrely : (inviteDiscipline h start).Rely pt.held pt.state w₄ :=
    (hw₁.trans hrely₃).trans (hw₄.weaken (List.subset_cons_self _ _))
  refine hK id row w₃.db.clock _ _ _ w₄ (List.subset_cons_self _ _) (fun d hd => ?_) hrely
    ⟨⟨w₃.db, ?_, rfl⟩, ⟨w₄.db, ?_, hrow, hactive⟩, hrow, hredeemable, fun hfresh => ?_⟩
    fun d d' hd => ?_
  · exact List.mem_append_left _ (List.mem_append_left _ (List.mem_append_left _ hd))
  · exact List.mem_append_left _ (List.mem_append_right _ List.mem_cons_self)
  · exact List.mem_append_right _ List.mem_cons_self
  · -- it is the invite the token was looked up for
    have hlog₁ := (hrely₃.trans (hw₄.weaken (List.subset_cons_self _ _))).onward.log
    have hfacts₁ := hw₁.inv (hfresh.sublist hlog₁.sublist)
    have hfacts₃ := hw₃.inv (hfresh.sublist hw₄.onward.log.sublist)
    have hbound := (hw₄.inv hfresh).bound id row hrow
    have hbound₁ := (hfacts₁.bound first known hknown).subset hlog₁.subset
    rw [hhash, ← hdigest] at hbound
    obtain rfl : id = first := hbound.unique hfresh hbound₁
    -- so it is of the tenant whose lock was taken, and the same since then
    obtain ⟨row₃, hrow₃, htenant₃⟩ := hrely₃.onward.invites id known hknown
    obtain ⟨hsame, -, hstanding⟩ := (hw₄.keeps _ List.mem_cons_self).kept hfresh id row₃ hrow₃
      (by rw [htenant₃])
    obtain rfl : row = row₃ := Option.some.inj (hrow.symm.trans hsame)
    refine ⟨by rw [htenant₃]; exact List.mem_cons_self, ?_⟩
    rw [hstanding]
    refine Bool.eq_false_iff.mpr fun hrevoked => ?_
    exact absurd hunexpired (not_lt.mpr (hfacts₃.revoked id row hrow₃ hrevoked))
  · obtain ⟨d₁, hd₁, hact⟩ := Except.bind_eq_ok.mp hd
    rw [hpending] at hd₁
    cases hd₁
    obtain ⟨⟨taken', d₂⟩, hok, rfl⟩ := Except.map_eq_ok hact
    have hreplay : (redeemInviteAt h token w₃.db.clock).alone d = .ok (taken', d₂) := by
      rw [redeemInviteAt, Script.alone_update]
      exact hok
    exact (redeemInviteAt_eq_ok hreplay).1

/-- What a redemption is going to change in the end: the update, and a membership. -/
structure Admits (h : Externals) (token : String) (row : Invite) (time : Instant) (user : Uuid)
    (d d' : Db) : Prop where
  marks : ∃ d₁, Marks h token time d d₁ ∧ d'.invites = d₁.invites
  tenants : d'.tenants = d.tenants
  clock : d'.clock = d.clock
  users : ∀ id account, d.users.get? id = some account → d'.users.get? id = some account
  member : d'.role row.tenantId user = some row.role

/-- **A redemption commits soundly.** -/
theorem Redeeming.commits (hpresents : op.presents = some token) (hissues : op.issuesInvite = none)
    (hrevokes : op.revokesInvite = none) (hr : Redeeming h start token id row time held seen w)
    (user : Uuid) (r : Result) {pt : TxPoint} (hheld : held ⊆ pt.held) (hseen : seen ⊆ pt.seen)
    (hw : (inviteDiscipline h start).Rely held w pt.state)
    (hpending : ∀ d d', pt.pending d = .ok d' → Admits h token row time user d d')
    (haccount : ∀ w', (inviteDiscipline h start).Rely pt.held pt.state w' → ∀ a,
      pt.pending w'.db = .ok a → ∃ account, a.users.get? user = some account ∧
        account.email = row.email) :
    (inviteDiscipline h start).Commits op r pt := by
  intro w' hw' a ha
  have hadmits := hpending w'.db a ha
  obtain ⟨d₁, hmarks, hinvites⟩ := hadmits.marks
  have hget : ∀ l, a.invites.get? l = (w'.db.invites.get? l).map fun row =>
      if row.redeemable w'.db (h.hashKey token) time then { row with usedAt := some time }
      else row := by
    intro l
    rw [hinvites]
    exact hmarks.rows l
  have hrely := hw.trans (hw'.weaken hheld)
  have hsilent : ∀ l, op.silent l := by
    refine fun l => ⟨fun issued hissued => ?_, ?_⟩
    · rw [hissues] at hissued
      cases hissued
    · rw [hrevokes]
      exact Option.some_ne_none l ∘ Eq.symm
  have hearlier : ∀ {fresh : History}, w'.log <+: fresh → FreshTokens h start fresh →
      FreshTokens h start w'.log := fun hpre hfresh => hfresh.sublist hpre.sublist
  obtain ⟨hdigest, -, hunused, hunexpired⟩ := Invite.redeemable_iff.mp hr.redeemable
  refine allows_commit hw'.inv hadmits.clock.ge hadmits.users ?_ ?_ ?_ ?_ ?_
  · intro l row' hrow'
    refine ⟨_, by rw [hget l, hrow', Option.map_some], ?_⟩
    split_ifs
    · rfl
    · rfl
  · intro l row' hrow' hused
    refine ⟨_, by rw [hget l, hrow', Option.map_some], ?_⟩
    split_ifs
    · rfl
    · exact hused
  · intro _ _ l row' hrow'
    rw [hget l] at hrow'
    obtain ⟨row₀, hrow₀, rfl⟩ := Option.map_eq_some_iff.mp hrow'
    refine Or.inl ⟨row₀, hrow₀, ?_, Or.inl ⟨hsilent l, ?_⟩⟩
    · split_ifs
      · rfl
      · rfl
    · split_ifs
      · rfl
      · rfl
  · intro hfresh hfacts token' htoken'
    rw [hpresents] at htoken'
    cases htoken'
    obtain ⟨hrow, hredeemable, hrevoked⟩ := hr.later hrely (hearlier (List.prefix_append _ _) hfresh)
    obtain ⟨v, hv, hclock⟩ := hr.now
    obtain ⟨v', hv', hupdate⟩ := hr.update
    refine ⟨id, row, user, time, ⟨v, hseen hv, hclock⟩, ⟨v', hseen hv', hupdate⟩, hunused,
      hunexpired, hdigest, fun issued hissued => ?_, hrevoked, hrow, ?_, haccount w' hw' a ha,
      hadmits.member⟩
    · -- the digests agree, and those of the tokens of the run do not collide
      obtain ⟨e, he, hissue⟩ := standing_issued hissued
      have hlast := hfacts.issued id row issued hrow hissued
      refine hfresh.digests ⟨_, List.mem_append_right _ List.mem_cons_self, ?_⟩
        ⟨e, List.mem_append_left _ he, Op.token_of_issues hissue⟩ (hdigest.symm.trans hlast)
      change op.token = some token
      rw [Op.token, hissues, hpresents]
      rfl
    · change a.invites.get? id = _
      rw [hget id, hrow, Option.map_some, if_pos hredeemable]
  · intro hfresh l row' hrow' hnot
    have hfresh' := hearlier (List.prefix_append _ _) hfresh
    obtain ⟨hrow, -⟩ := hr.later hrely hfresh'
    -- another invite has another digest, and so is not marked
    have hl : l ≠ id := by
      rintro rfl
      obtain rfl : row = row' := Option.some.inj (hrow.symm.trans hrow')
      exact hnot (hheld (hr.locked (hfresh'.sublist hrely.onward.log.sublist)).1)
    have hother : row'.redeemable w'.db (h.hashKey token) time = false := by
      refine Bool.eq_false_iff.mpr fun hboth => ?_
      have hclash := Table.clash_eq_false (fun a b => by simp [Invite.clash, eq_comm]) hl hrow' hrow
      rw [Invite.clash, (Invite.redeemable_iff.mp hboth).1, hdigest] at hclash
      simp at hclash
    refine ⟨?_, by rw [hadmits.tenants], hsilent l⟩
    rw [hget l, hrow', Option.map_some, hother]
    rfl

/-- An existing user accepts. -/
theorem wp_acceptInTransaction (hpresents : op.presents = some token)
    (hissues : op.issuesInvite = none) (hrevokes : op.revokesInvite = none) {user : Uuid × User}
    {pt : TxPoint} (hpending : pt.pending = .ok)
    (huser : pt.state.db.users.get? user.1 = some user.2) :
    (acceptInTransaction h token user).wp (inviteDiscipline h start) op
      (fun _ pt' => ∀ r, (inviteDiscipline h start).Commits op r pt') pt := by
  refine wp_redemption hpending fun id row time held seen pending w _ _ hw hr hmarks => ?_
  rw [Script.wp_bind, Script.wp_failIf]
  intro hemail
  rw [Script.wp_bind, getMembershipRole, Script.wp_read]
  intro w₁ hw₁ v₁ _ _
  rw [Script.wp_bind, Script.wp_failIf]
  intro _
  rw [Script.wp_bind]
  refine wp_addMemberInTransaction hw₁.inv fun held' seen' pending' w₂ hheld hseen hw₂ hset r => ?_
  refine hr.commits hpresents hissues hrevokes user.1 r hheld
    (fun d hd => hseen (List.mem_append_left _ hd)) (hw₁.trans hw₂) (fun d d' hd => ?_)
    fun w₃ hw₃ a ha => ?_
  · obtain ⟨v, htenant, hv, rfl⟩ := hset d d' hd
    have hmark := hmarks d v hv
    refine ⟨⟨v, hmark, rfl⟩, hmark.tenants, hmark.clock, fun l account haccount => ?_, ?_⟩
    · change v.users.get? l = some account
      rw [hmark.users]
      exact haccount
    · rw [role_setRole, if_pos rfl, Function.update_self]
  · obtain ⟨v, htenant, hv, rfl⟩ := hset w₃.db a ha
    refine ⟨user.2, ?_, (not_not.mp hemail).symm⟩
    change v.users.get? user.1 = some user.2
    rw [(hmarks w₃.db v hv).users]
    have hrely := hw.onward.trans ((hw₁.trans hw₂).trans (hw₃.weaken hheld)).onward
    exact hrely.users user.1 user.2 huser

/-- An invited user registers. -/
theorem wp_registerUser (fresh : NewUser) (password : String) (displayName : Option String)
    (hpresents : op.presents = some token) (hissues : op.issuesInvite = none)
    (hrevokes : op.revokesInvite = none) {pt : TxPoint} (hpending : pt.pending = .ok) :
    (registerUser h fresh token password displayName).wp (inviteDiscipline h start) op
      (fun _ pt' => ∀ r, (inviteDiscipline h start).Commits op r pt') pt := by
  refine wp_redemption hpending fun id row time held seen pending w _ _ hw hr hmarks => ?_
  rw [Script.wp_bind, registerMember, Script.wp_bind, createUser, Script.wp_bind, insertUser,
    Script.wp_update]
  intro w₁ hw₁ v₁ _ _ _ _ _
  rw [Script.wp_pure, Script.wp_bind]
  refine wp_addMemberInTransaction hw₁.inv fun held' seen' pending' w₂ hheld hseen hw₂ hset r => ?_
  -- the account is inserted between the update and the membership
  have hchanges : ∀ d d', pending' d = .ok d' → ∃ v users,
      ∃ htenant : (v.tenants.get? row.tenantId).isSome = true, Marks h token time d v ∧
        v.users.insert fresh.id ⟨row.email, some (h.hashPassword fresh.salt password), displayName⟩ =
          .ok users ∧ d' = ({ v with users := users } : Db).setRole row.tenantId fresh.id row.role
            htenant := by
    intro d d' hd
    obtain ⟨v', htenant, hv', rfl⟩ := hset d d' hd
    obtain ⟨v, hv, hact⟩ := Except.bind_eq_ok.mp hv'
    obtain ⟨⟨_, v''⟩, hok, rfl⟩ := Except.map_eq_ok hact
    obtain ⟨users, husers, hend⟩ := Except.bind_eq_ok.mp hok
    cases hend
    exact ⟨v, users, htenant, hmarks d v hv, Except.mapError_eq_ok husers, rfl⟩
  refine hr.commits hpresents hissues hrevokes fresh.id r hheld
    (fun d hd => hseen (List.mem_append_left _ hd)) (hw₁.trans hw₂) (fun d d' hd => ?_)
    fun w₃ hw₃ a ha => ?_
  · obtain ⟨v, users, htenant, hmark, husers, rfl⟩ := hchanges d d' hd
    refine ⟨⟨v, hmark, rfl⟩, hmark.tenants, hmark.clock, fun l account haccount => ?_, ?_⟩
    · have hold : v.users.get? l = some account := by
        rw [hmark.users]
        exact haccount
      exact Table.get?_insert_of_some husers hold
    · rw [role_setRole, if_pos rfl, Function.update_self]
  · obtain ⟨v, users, htenant, hmark, husers, rfl⟩ := hchanges w₃.db a ha
    refine ⟨⟨row.email, some (h.hashPassword fresh.salt password), displayName⟩, ?_, rfl⟩
    change users.get? fresh.id = _
    rw [Table.get?_insert husers, if_pos rfl]

end Redemption

/-! ## Every operation -/

section Operations

variable {h : Externals} {start : Db}

/-- The account that proved a login is stored. -/
theorem get?_userByEmail {db : Db} {email : String} {user : Uuid × User}
    (hfound : db.userByEmail email = some user) : db.users.get? user.1 = some user.2 :=
  (OrderedMap.mem_entries_iff _ _ _).mp (List.mem_of_find?_eq_some hfound)

theorem wp_acceptExistingUser (token email password : String) (w : State Op Db Result) :
    ((Op.acceptExistingUser token email password).code h).wp (inviteDiscipline h start)
      (.acceptExistingUser token email password)
      ((inviteDiscipline h start).Commits (.acceptExistingUser token email password))
      ⟨[], [], .ok, w⟩ := by
  rw [Op.code, Script.wp_bind, acceptExistingUser, Script.wp_bind, verifyLogin, Script.wp_read]
  intro w₁ hw₁ v₁ hv₁ _
  cases hv₁
  rw [Script.wp_bind, Script.wp_orFail]
  intro user huser
  have hstored := get?_userByEmail (Option.filter_eq_some_iff.mp huser).1
  rw [Script.wp_bind]
  refine Script.wp_mono (wp_acceptInTransaction rfl rfl rfl rfl hstored) fun invite pt hpt => ?_
  exact hpt _

theorem wp_acceptAuthenticatedUser (actor : AuthContext) (token : String) (w : State Op Db Result) :
    ((Op.acceptAuthenticatedUser actor token).code h).wp (inviteDiscipline h start)
      (.acceptAuthenticatedUser actor token)
      ((inviteDiscipline h start).Commits (.acceptAuthenticatedUser actor token))
      ⟨[], [], .ok, w⟩ := by
  rw [Op.code, Script.wp_bind, acceptAuthenticatedUser, Script.wp_bind, inviteTenant,
    Script.wp_bind, Script.wp_read]
  intro w₁ hw₁ v₁ _ _
  rw [Script.wp_orFail]
  intro target _
  rw [Script.wp_bind, lockMembership, Script.wp_acquire]
  intro w₂ _
  rw [Script.wp_bind, lockMembership, Script.wp_acquire]
  intro w₃ hw₃
  rw [Script.wp_bind]
  refine Script.wp_quiet (quiet_currentContext actor) hw₃.inv fun current held seen w₄ _ _ _ => ?_
  rw [Script.wp_bind, Script.wp_orFail]
  intro userId _
  rw [Script.wp_bind, Script.wp_read]
  intro w₅ hw₅ v₅ hv₅ _
  cases hv₅
  rw [Script.wp_bind, Script.wp_orFail]
  intro user huser
  rw [Script.wp_bind]
  have hstored : w₅.db.users.get? (userId, user).1 = some (userId, user).2 := huser
  refine Script.wp_mono (wp_acceptInTransaction rfl rfl rfl rfl hstored) fun invite pt hpt => ?_
  exact hpt _

theorem Op.aside_of_writes {op : Op} (hinvites : .invites ∉ op.writes) : op.aside := by
  cases op with
  | createInvite => simp [Op.writes] at hinvites
  | createInviteAs => simp [Op.writes] at hinvites
  | reissueInviteAs => simp [Op.writes] at hinvites
  | revokeInviteAs => simp [Op.writes] at hinvites
  | acceptExistingUser => simp [Op.writes] at hinvites
  | acceptAuthenticatedUser => simp [Op.writes] at hinvites
  | registerUser => simp [Op.writes] at hinvites
  | _ => exact ⟨rfl, rfl, rfl⟩

/-- Operations that write invites. -/
theorem wp_invites {op : Op} (hinvites : .invites ∈ op.writes) {w : State Op Db Result} :
    (op.code h).wp (inviteDiscipline h start) op ((inviteDiscipline h start).Commits op)
      ⟨[], [], .ok, w⟩ := by
  cases op with
  | createInvite fresh tenant email role ttl =>
      rw [Op.code, Script.wp_bind, createInvite, Script.wp_bind, now, Script.wp_read]
      intro w₁ hw₁ v _ _
      exact wp_createInviteAt rfl rfl rfl _ _ _ _ _ rfl hw₁.inv
  | createInviteAs fresh actor email role expiresAt =>
      rw [Op.code, Script.wp_bind, createInviteAs, Script.wp_bind]
      refine wp_requireCurrentTenantAdmin fun held seen w₁ _ _ _ hw₁ => ?_
      rw [Script.wp_bind]
      refine Script.wp_quiet (quiet_requireOwnerIf _ actor) hw₁.inv
        fun _ held' seen' w₂ _ _ _ => ?_
      rw [now, Script.wp_bind, Script.wp_read]
      intro w₃ hw₃ v _ _
      rw [Script.wp_bind, Script.wp_failIf]
      intro _
      exact wp_createInviteAt rfl rfl rfl _ _ _ _ _ rfl hw₃.inv
  | reissueInviteAs token actor id expiresAt => exact wp_reissueInviteAs token actor id expiresAt
  | revokeInviteAs actor id => exact wp_revokeInviteAs actor id
  | acceptExistingUser token email password => exact wp_acceptExistingUser token email password w
  | acceptAuthenticatedUser actor token => exact wp_acceptAuthenticatedUser actor token w
  | registerUser fresh token password displayName =>
      rw [Op.code, Script.wp_bind]
      refine Script.wp_mono (wp_registerUser fresh password displayName rfl rfl rfl rfl)
        fun accepted pt hpt => ?_
      exact hpt _
  | _ => simp [Op.writes] at hinvites

/-- Operations that write tenants. -/
theorem wp_tenants {op : Op} (hinvites : .invites ∉ op.writes) (htenants : .tenants ∈ op.writes)
    {w : State Op Db Result} :
    (op.code h).wp (inviteDiscipline h start) op ((inviteDiscipline h start).Commits op)
      ⟨[], [], .ok, w⟩ := by
  have hop := Op.aside_of_writes hinvites
  cases op with
  | disableAs shred actor confirmed =>
      rw [Op.code, Script.wp_bind, Tenancy.disableAs]
      split_ifs
      · trivial
      · rw [Script.wp_bind]
        refine wp_requireCurrentTenantOwner fun _ held seen w₁ hlock _ _ hw₁ => ?_
        exact wp_disable hop shred actor.tenantId .done rfl hlock hw₁.inv
  | disableByOperator shred tenant confirmed =>
      rw [Op.code, Script.wp_bind, Tenancy.disableByOperator]
      split_ifs
      · trivial
      · rw [Script.wp_bind, lockMembership, Script.wp_acquire]
        intro w₁ hw₁
        exact wp_disable hop shred tenant .done rfl List.mem_cons_self hw₁.inv
  | _ => simp [Op.writes] at htenants

/-- **Every operation has its weakest precondition.** -/
theorem inviteDiscipline_verified (h : Externals) (start : Db) :
    Verified (inviteDiscipline h start) (Op.code h) := by
  intro op w hw
  by_cases hinvites : .invites ∈ op.writes
  · exact wp_invites hinvites
  · by_cases htenants : .tenants ∈ op.writes
    · exact wp_tenants hinvites htenants
    · exact wp_aside (Op.aside_of_writes hinvites) hinvites htenants hw

theorem inviteDiscipline_tame (h : Externals) (start : Db) :
    Tame (inviteDiscipline h start) Setup.apply := by
  intro s w hw
  have hadds := s.apply_adds w.db
  have hget : ∀ id, (s.apply w.db).invites.get? id = w.db.invites.get? id := by
    intro id
    rw [hadds.invites]
  refine ⟨fun hfresh => ?_, ?_, fun name _ => ?_⟩
  · have hfacts := hw hfresh
    constructor
    · exact fun id row hrow => hfacts.bound id row ((hget id).symm.trans hrow)
    · exact fun id row token hrow => hfacts.issued id row token ((hget id).symm.trans hrow)
    · intro id row hrow hrevoked
      exact (hfacts.revoked id row ((hget id).symm.trans hrow) hrevoked).trans hadds.clock
    · intro e he id huses
      obtain ⟨row, hrow, hused⟩ := hfacts.used e he id huses
      exact ⟨row, (hget id).trans hrow, hused⟩
    · exact hfacts.once
    · exact hfacts.redeemed
  · exact ⟨List.prefix_rfl, hadds.clock, hadds.users,
      fun id row hrow => ⟨row, (hget id).trans hrow, rfl⟩⟩
  · exact ⟨List.prefix_rfl, fun _ id row hrow _ =>
      ⟨(hget id).trans hrow, hadds.tenants row.tenantId, rfl⟩⟩

/-- The facts hold in every interleaving that draws fresh tokens. -/
theorem run_inviteFacts (h : Externals) (db : Db) (inputs : List (Event Op Setup))
    (hfresh : FreshTokens h db
      (run (Server.step (Op.code h) Setup.apply) (Server.init db) inputs).state.log) :
    InviteFacts h db (run (Server.step (Op.code h) Setup.apply) (Server.init db) inputs).state := by
  have hsound : (run (Server.step (Op.code h) Setup.apply) (Server.init db) inputs).Sound
      (inviteDiscipline h db) :=
    Server.sound_run (inviteDiscipline_verified h db) (inviteDiscipline_tame h db)
      (fun _ => inviteFacts_init h db) (Server.stepsMeet (fun _ _ _ => trivial) _ inputs)
  exact hsound.inv hfresh

end Operations

/-! ## The result -/

/-- **What a step can do to what is committed.** Nothing; add rows, beside the operations; or
commit an operation that came to its end. -/
inductive Advance (s : Server Op String Db YorishiroError Result) (i : Event Op Setup)
    (w : State Op Db Result) : Prop where
  | none (hsame : w = s.state)
  | adds (setup : Setup) (hinput : i = .env setup) (hlog : w.log = s.state.log)
      (hadds : Adds s.state.db w.db)
  | commits (t : Nat) (x : Session Op String Db YorishiroError Result) (r : Result)
      (hinput : i = .step t) (hsession : s.sessions.get? t = some x) (hdone : x.script = .done r)
      (hcommit : w = s.state.commit x.job r x.seen w.db)

theorem step_advance_state (h : Externals) (s : Server Op String Db YorishiroError Result)
    (i : Event Op Setup) : Advance s i (s.step (Op.code h) Setup.apply i).state := by
  rcases Server.step_state (Op.code h) Setup.apply s i with
    heq | ⟨t, x, r, a, hinput, hsession, hdone, -, heq⟩ | ⟨setup, hinput, heq⟩
  · exact .none heq
  · rw [heq]
    exact .commits t x r hinput hsession hdone rfl
  · rw [heq]
    exact .adds setup hinput rfl (setup.apply_adds s.state.db)

/-- **Invites are single-use.** In any interleaving of any operations, from any database: no two
commits use the same invite; a commit of an acceptance or a registration redeemed an invite as
`Redemption` says; and what is committed changes only by an operation that came to its end, so
an attempt that fails at any step leaves everything as it was. -/
theorem invites_single_use (h : Externals) (db : Db) (inputs : List (Event Op Setup))
    (hfresh : FreshTokens h db
      (run (Server.step (Op.code h) Setup.apply) (Server.init db) inputs).state.log) :
    (run (Server.step (Op.code h) Setup.apply) (Server.init db) inputs).state.log.Pairwise
        (fun e e' => ∀ id, Uses id e → ¬Uses id e') ∧
      (∀ l e l', (run (Server.step (Op.code h) Setup.apply) (Server.init db) inputs).state.log =
          l ++ e :: l' → ∀ token, e.job.presents = some token →
        ∃ id row user time, Redemption h l e token id row user time) ∧
      ∀ earlier i later, inputs = earlier ++ i :: later →
        Advance (run (Server.step (Op.code h) Setup.apply) (Server.init db) earlier) i
          (run (Server.step (Op.code h) Setup.apply) (Server.init db) (earlier ++ [i])).state := by
  have hfacts := run_inviteFacts h db inputs hfresh
  refine ⟨hfacts.once, hfacts.redeemed, fun earlier i later _ => ?_⟩
  rw [run_append]
  exact step_advance_state h _ i

/-- A tenant and an invite to come. -/
def inviting : Db := (Setup.tenant 1 "acme").apply (.empty 0)

/-- An invite is issued; then two people register with its token, statement by statement in
turn. -/
def registrations : List (Event Op Setup) :=
  [.start 0 (.createInvite ⟨20, "token"⟩ 1 "new@acme" .member 60)] ++ List.replicate 8 (.step 0) ++
    [.start 1 (.registerUser ⟨30, "salt"⟩ "token" "one" none),
      .start 2 (.registerUser ⟨31, "salt"⟩ "token" "two" none)] ++
    (List.replicate 12 [.step 1, .step 2]).flatten

/-- One of them gets in. -/
theorem invites_single_use_registrations :
    (run (Server.step (Op.code .plain) Setup.apply) (Server.init inviting) registrations).state.log.map
        (fun e => e.job.token) = [some "token", some "token"] ∧
      (run (Server.step (Op.code .plain) Setup.apply) (Server.init inviting)
        registrations).state.log.Pairwise (fun e e' => ∀ id, Uses id e → ¬Uses id e') := by
  have htokens : (run (Server.step (Op.code .plain) Setup.apply) (Server.init inviting)
      registrations).state.log.map (fun e => e.job.token) = [some "token", some "token"] := by
    set_option maxRecDepth 4096 in
    decide
  have honly : ∀ token, (∃ e ∈ (run (Server.step (Op.code .plain) Setup.apply) (Server.init inviting)
      registrations).state.log, e.job.token = some token) → token = "token" := by
    rintro token ⟨e, he, htoken⟩
    have hmem := List.mem_map_of_mem (f := fun e => e.job.token) he
    rw [htokens, htoken] at hmem
    simpa using hmem
  refine ⟨htokens, (invites_single_use .plain inviting registrations ⟨?_, ?_, ?_⟩).1⟩
  · set_option maxRecDepth 4096 in
    decide
  · intro token htoken token' htoken' _
    rw [honly token htoken, honly token' htoken']
  · intro _ _ _ _ id row hrow
    have hnone : inviting.invites = .empty := rfl
    rw [hnone] at hrow
    cases hrow

end Yorishiro.Tenancy
