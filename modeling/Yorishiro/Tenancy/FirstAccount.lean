import Yorishiro.Tenancy.Provisioning
import Yorishiro.Tenancy.Runs

/-!
# Setup and the tenant limit

Setup is for a deployment without tenants, and a deployment has no more tenants than its
limit. The checks run under two locks, `setup` and `create_tenant`: a setup takes both, a
signup or a first login only the second, and that only on a deployment with a limit.

The rule for interleavings gives three facts (`Founded`): tenants stay within the limit, one
setup commits at most, and there are tenants once one has. What a setup has counted under its
own lock alone does not bind the others: a signup may commit before the setup takes
`create_tenant`. `undisturbed` says of a step that this has not happened.
-/

set_option autoImplicit false

namespace Yorishiro.Tenancy

open Yorishiro.Lib
open Yorishiro.Lib.Fence
open Yorishiro.Lib.Transition

/-- How many tenants a deployment may have. -/
def tenantMaximum (maxTenants : Option Int) : Option Nat :=
  (TenantLimit.resolve .postgres maxTenants).maximum

/-- What is committed, and the commits that led there. -/
abbrev DeploymentState := State Job Deployment Outcome

/-- Where a transaction on a deployment stands. -/
abbrev WorkPoint := Point Job String Deployment YorishiroError Outcome

/-- The number of setups that committed. -/
def setups (log : List (Entry Job Deployment Outcome)) : Nat := log.countP fun e => e.job.isSetup

@[simp] theorem setups_append (log : List (Entry Job Deployment Outcome))
    (e : Entry Job Deployment Outcome) :
    setups (log ++ [e]) = setups log + if e.job.isSetup then 1 else 0 := by
  unfold setups
  rw [List.countP_append, List.countP_singleton]

/-- There are no tenants, or as many as there may be. -/
def settled (maxTenants : Option Int) (d : Deployment) : Bool :=
  decide (countTenants d = 0) ||
    (tenantMaximum maxTenants).all fun max => decide (max ≤ countTenants d)

/-- The second count of a setup, that of `create_tenant`. -/
def recounts (job : Job) (seen : List Deployment) : Bool :=
  job.isSetup && decide (seen.length = 1)

/-! ## What statements do to the number of tenants -/

/-- The number of tenants stays. -/
def SameTenants (d d' : Deployment) : Prop := countTenants d' = countTenants d

theorem SameTenants.refl (d : Deployment) : SameTenants d d := rfl

theorem SameTenants.trans (d d' d'' : Deployment) (h : SameTenants d d')
    (h' : SameTenants d' d'') : SameTenants d d'' := Eq.trans h' h

/-- A new tenant is counted, unless it is that of the infrastructure. -/
theorem countTenants_addTenant {d : Deployment} {id : Uuid} (hid : d.base.tenants.get? id = none)
    (hne : id ≠ infrastructureTenantId) (name : String) :
    countTenants (d.addTenant id name) = countTenants d + 1 := by
  have hcount := OrderedMap.count_insert_of_absent hid (⟨name, none⟩ : Tenant)
    fun id _ => decide (id ≠ infrastructureTenantId)
  rw [if_pos (decide_eq_true hne)] at hcount
  exact hcount

section Within

open Script

theorem within_sameTenants {α : Type} {p : Work α} (hp : Within SameAccounts p) :
    Within SameTenants p :=
  hp.mono fun _ _ h => h.tenants

theorem sameTenants_createOauthUser (id : Uuid) (email : String) (displayName : Option String)
    (identity : Identity) (taken : YorishiroError) :
    Within SameTenants (createOauthUser id email displayName identity taken) := by
  refine within_update fun d _ d' hok => ?_
  obtain ⟨_, -, hok⟩ := Except.bind_eq_ok.mp hok
  obtain ⟨_, -, hok⟩ := Except.bind_eq_ok.mp hok
  cases hok
  exact rfl

end Within

/-! ## The discipline -/

/-- **What is known of a deployment** that began with `start` tenants. With `strict`, setups
only ever committed where there were no tenants. -/
structure Founded (maxTenants : Option Int) (start : Nat) (strict : Prop) (w : DeploymentState) :
    Prop where
  room : ∀ max, tenantMaximum maxTenants = some max → countTenants w.db ≤ Nat.max max start
  once : setups w.log ≤ 1
  founded : 0 < setups w.log → 0 < countTenants w.db
  first : strict → ∀ e ∈ w.log, e.job.isSetup = true → countTenants e.before = 0

/-- No tenant goes. While the lock `setup` is taken no setup commits, and while
`create_tenant` is, the number of tenants of a deployment with a limit stays. -/
def firstDiscipline (maxTenants : Option Int) (start : Nat) (strict : Prop) :
    Discipline Job String Deployment Outcome where
  inv := Founded maxTenants start strict
  onward := fun w w' => countTenants w.db ≤ countTenants w'.db
  keeps := fun name w w' =>
    (name = "setup" → setups w'.log = setups w.log) ∧
      (name = "create_tenant" → (tenantMaximum maxTenants).isSome = true →
        countTenants w'.db = countTenants w.db)
  met := fun job seen v => strict → recounts job seen = true → settled maxTenants v = true
  onward_refl := fun _ => le_rfl
  onward_trans := fun _ _ _ => le_trans
  keeps_refl := fun _ _ => ⟨fun _ => rfl, fun _ _ => rfl⟩
  keeps_trans := fun _ _ _ _ huv hvw =>
    ⟨fun hname => (hvw.1 hname).trans (huv.1 hname),
      fun hname hmax => (hvw.2 hname hmax).trans (huv.2 hname hmax)⟩

section Points

variable {maxTenants : Option Int} {start : Nat} {strict : Prop} {job : Job} {pt : WorkPoint}

/-- Nothing is going to change the number of tenants so far. -/
structure Steady (maxTenants : Option Int) (start : Nat) (strict : Prop) (pt : WorkPoint) :
    Prop where
  inv : Founded maxTenants start strict pt.state
  stays : ∀ d d', pt.pending d = .ok d' → SameTenants d d'

/-- A tenant is going to be added, for which there is room. -/
structure Creating (maxTenants : Option Int) (start : Nat) (strict : Prop) (pt : WorkPoint) :
    Prop where
  inv : Founded maxTenants start strict pt.state
  adds : ∀ d d', pt.pending d = .ok d' → countTenants d' = countTenants d + 1
  room : ∀ max, tenantMaximum maxTenants = some max →
    "create_tenant" ∈ pt.held ∧ countTenants pt.state.db < max

/-- The first setup is going to add a tenant. -/
structure Opening (maxTenants : Option Int) (start : Nat) (strict : Prop) (pt : WorkPoint) :
    Prop extends Creating maxTenants start strict pt where
  limited : (tenantMaximum maxTenants).isSome = true
  locked : "setup" ∈ pt.held
  fresh : setups pt.state.log = 0
  empty : strict → countTenants pt.state.db = 0

theorem Creating.locked_create (hpt : Creating maxTenants start strict pt)
    (hmax : (tenantMaximum maxTenants).isSome = true) : "create_tenant" ∈ pt.held := by
  obtain ⟨max, hmax⟩ := Option.isSome_iff_exists.mp hmax
  exact (hpt.room max hmax).1

/-- The number of tenants that the lock keeps. -/
theorem Creating.count_eq (hpt : Creating maxTenants start strict pt) {w : DeploymentState}
    (hw : (firstDiscipline maxTenants start strict).Rely pt.held pt.state w)
    (hmax : (tenantMaximum maxTenants).isSome = true) :
    countTenants w.db = countTenants pt.state.db :=
  (hw.keeps "create_tenant" (hpt.locked_create hmax)).2 rfl hmax

theorem Creating.later (hpt : Creating maxTenants start strict pt) {held : List String}
    {seen : List Deployment} {pending : Deployment → Except YorishiroError Deployment}
    {w : DeploymentState} (hheld : pt.held ⊆ held)
    (hw : (firstDiscipline maxTenants start strict).Rely pt.held pt.state w)
    (hpending : ∀ d d', pending d = .ok d' → ∃ v, pt.pending d = .ok v ∧ SameTenants v d') :
    Creating maxTenants start strict ⟨held, seen, pending, w⟩ := by
  refine ⟨hw.inv, fun d d' hd => ?_, fun max hmax => ?_⟩
  · obtain ⟨v, hv, hsame⟩ := hpending d d' hd
    exact Eq.trans hsame (hpt.adds d v hv)
  · obtain ⟨hlock, hroom⟩ := hpt.room max hmax
    refine ⟨hheld hlock, ?_⟩
    rw [hpt.count_eq hw (by rw [hmax]; rfl)]
    exact hroom

theorem maintains_steady {α : Type} {p : Work α} (hp : Script.Within SameTenants p) :
    Script.Maintains (firstDiscipline maxTenants start strict) job
      (Steady maxTenants start strict) p := by
  refine Script.maintains_within SameTenants.refl SameTenants.trans (fun pt h => h.inv)
    (fun pt held seen pending w hpt _ hw hpending => ?_) hp
  refine ⟨hw.inv, fun d d' hd => ?_⟩
  obtain ⟨v, hv, hsame⟩ := hpending d d' hd
  exact SameTenants.trans d v d' (hpt.stays d v hv) hsame

theorem maintains_creating {α : Type} {p : Work α} (hp : Script.Within SameTenants p) :
    Script.Maintains (firstDiscipline maxTenants start strict) job
      (Creating maxTenants start strict) p :=
  Script.maintains_within SameTenants.refl SameTenants.trans (fun _ h => h.inv)
    (fun _ _ _ _ _ hpt hheld hw hpending => hpt.later hheld hw hpending) hp

theorem maintains_opening {α : Type} {p : Work α} (hp : Script.Within SameTenants p) :
    Script.Maintains (firstDiscipline maxTenants start strict) job
      (Opening maxTenants start strict) p := by
  refine Script.maintains_within SameTenants.refl SameTenants.trans (fun pt h => h.inv)
    (fun pt held seen pending w hpt hheld hw hpending => ?_) hp
  refine ⟨hpt.toCreating.later hheld hw hpending, hpt.limited, hheld hpt.locked, ?_, fun hs => ?_⟩
  · exact ((hw.keeps "setup" hpt.locked).1 rfl).trans hpt.fresh
  · exact (hpt.toCreating.count_eq hw hpt.limited).trans (hpt.empty hs)

/-! ### Commits -/

/-- A commit of another transaction than a setup says nothing new about setups. -/
theorem Founded.commit_other {w : DeploymentState} {r : Outcome} {seen : List Deployment}
    {a : Deployment} (hw : Founded maxTenants start strict w) (hjob : job.isSetup = false)
    (hgrows : countTenants w.db ≤ countTenants a)
    (hroom : ∀ max, tenantMaximum maxTenants = some max → countTenants a ≤ Nat.max max start) :
    Founded maxTenants start strict (w.commit job r seen a) := by
  have hsetups : setups (w.commit job r seen a).log = setups w.log := by
    simp [State.commit, hjob]
  refine ⟨hroom, hsetups ▸ hw.once, fun hpos => ?_, fun hs e he hsetup => ?_⟩
  · exact Nat.lt_of_lt_of_le (hw.founded (hsetups ▸ hpos)) hgrows
  · rcases List.mem_append.mp he with hold | hnew
    · exact hw.first hs e hold hsetup
    · rw [List.mem_singleton.mp hnew] at hsetup
      rw [hjob] at hsetup
      cases hsetup

theorem Steady.commits (hpt : Steady maxTenants start strict pt) (hjob : job.isSetup = false)
    (r : Outcome) : (firstDiscipline maxTenants start strict).Commits job r pt := by
  intro w hw a ha
  have hsame : countTenants a = countTenants w.db := hpt.stays w.db a ha
  have hinv : Founded maxTenants start strict w := hw.inv
  refine ⟨hinv.commit_other hjob hsame.ge fun max hmax => ?_, hsame.ge, fun name _ => ?_⟩
  · rw [hsame]
    exact hinv.room max hmax
  · exact ⟨fun _ => by simp [State.commit, hjob], fun _ _ => hsame⟩

/-- With the new tenant the limit is kept. -/
theorem Creating.within_limit (hpt : Creating maxTenants start strict pt) {w : DeploymentState}
    (hw : (firstDiscipline maxTenants start strict).Rely pt.held pt.state w) {a : Deployment}
    (ha : pt.pending w.db = .ok a) {max : Nat} (hmax : tenantMaximum maxTenants = some max) :
    countTenants a ≤ Nat.max max start := by
  have hadds := hpt.adds w.db a ha
  have hcount := hpt.count_eq hw (by rw [hmax]; rfl)
  have hroom := (hpt.room max hmax).2
  have hle : max ≤ Nat.max max start := Nat.le_max_left max start
  omega

theorem Creating.commits (hpt : Creating maxTenants start strict pt) (hjob : job.isSetup = false)
    (r : Outcome) : (firstDiscipline maxTenants start strict).Commits job r pt := by
  intro w hw a ha
  have hgrows : countTenants w.db ≤ countTenants a := by
    rw [hpt.adds w.db a ha]
    exact Nat.le_succ _
  refine ⟨hw.inv.commit_other hjob hgrows fun max hmax => hpt.within_limit hw ha hmax, hgrows,
    fun name hname => ⟨fun _ => by simp [State.commit, hjob], fun heq hmax => ?_⟩⟩
  exact absurd (hpt.locked_create hmax) (heq ▸ hname)

theorem Opening.commits (hpt : Opening maxTenants start strict pt) (hjob : job.isSetup = true)
    (r : Outcome) : (firstDiscipline maxTenants start strict).Commits job r pt := by
  intro w hw a ha
  have hadds := hpt.adds w.db a ha
  have hfresh : setups w.log = 0 := ((hw.keeps "setup" hpt.locked).1 rfl).trans hpt.fresh
  have hsetups : setups (w.commit job r pt.seen a).log = 1 := by
    simp [State.commit, hjob, hfresh]
  have hinv : Founded maxTenants start strict w := hw.inv
  refine ⟨⟨fun max hmax => hpt.within_limit hw ha hmax, hsetups.le, fun _ => ?_, fun hs e he _ => ?_⟩,
    ?_, fun name hname => ⟨fun heq => ?_, fun heq hmax => ?_⟩⟩
  · change 0 < countTenants a
    omega
  · rcases List.mem_append.mp he with hold | hnew
    · have hzero := List.countP_eq_zero.mp hfresh e hold
      rename_i hsetup
      exact absurd hsetup hzero
    · rw [List.mem_singleton.mp hnew]
      exact (hpt.toCreating.count_eq hw hpt.limited).trans (hpt.empty hs)
  · change countTenants w.db ≤ countTenants a
    omega
  · exact absurd hpt.locked (heq ▸ hname)
  · exact absurd (hpt.toCreating.locked_create hmax) (heq ▸ hname)

end Points

/-! ## Transactions -/

section Jobs

variable {maxTenants : Option Int} {start : Nat} {strict : Prop} {job : Job} {pt : WorkPoint}
  {env : Provisioner}

/-- The insertion of a tenant, once it is known that there is room. -/
theorem wp_insertTenant {K : Unit → WorkPoint → Prop} {id : Uuid} {name : String}
    (hid : id ≠ infrastructureTenantId) (hpt : Steady maxTenants start strict pt)
    (hroom : ∀ w, (firstDiscipline maxTenants start strict).Rely pt.held pt.state w →
      ∀ max, tenantMaximum maxTenants = some max →
        "create_tenant" ∈ pt.held ∧ countTenants w.db < max)
    (hK : ∀ pt', Creating maxTenants start strict pt' → pt.held ⊆ pt'.held →
      (firstDiscipline maxTenants start strict).Rely pt.held pt.state pt'.state → K () pt') :
    (insertTenant id name).wp (firstDiscipline maxTenants start strict) job K pt := by
  rw [insertTenant, Script.wp_update]
  intro w hw _ _ _ _ _ _
  refine hK _ ⟨hw.inv, fun d d' hd => ?_, hroom w hw⟩ (List.Subset.refl _) hw
  obtain ⟨v, hv, hok⟩ := Except.bind_eq_ok.mp hd
  obtain ⟨⟨_, v'⟩, hinsert, rfl⟩ := Except.map_eq_ok hok
  split_ifs at hinsert with htaken
  cases hinsert
  change countTenants (v.addTenant id name) = _
  rw [countTenants_addTenant (Option.not_isSome_iff_eq_none.mp htaken) hid]
  exact congrArg (· + 1) (hpt.stays d v hv)

/-- **What `create_tenant` gives its callers.** A tenant is going to be added, within the
limit; a setup that counts again under the lock knows that there was none. -/
theorem wp_createTenant {K : Uuid → WorkPoint → Prop} {id : Uuid} {name : String}
    (hid : id ≠ infrastructureTenantId) (hpt : Steady maxTenants start strict pt)
    (hK : ∀ pt', Creating maxTenants start strict pt' → pt.held ⊆ pt'.held →
      (firstDiscipline maxTenants start strict).Rely pt.held pt.state pt'.state →
      ((tenantMaximum maxTenants).isSome = true → recounts job pt.seen = true → strict →
        countTenants pt'.state.db = 0) → K id pt') :
    (createTenant id name maxTenants).wp (firstDiscipline maxTenants start strict) job K pt := by
  rw [createTenant, Script.wp_bind]
  cases hmax : tenantMaximum maxTenants with
  | none =>
      rw [requireTenantRoom_none hmax, Script.wp_pure, Script.wp_bind]
      refine wp_insertTenant hid hpt (fun _ _ max h => by rw [hmax] at h; cases h)
        fun pt' hcreating hheld hw => hK pt' hcreating hheld hw fun h => ?_
      rw [hmax] at h
      cases h
  | some max =>
      rw [requireTenantRoom_some hmax, Script.wp_bind, Script.wp_acquire]
      intro w₁ hw₁
      rw [Script.wp_bind, Script.wp_read]
      intro w₂ hw₂ v hv hmet
      rw [Script.wp_failIf]
      intro hroom
      have hsome : (tenantMaximum maxTenants).isSome = true := by rw [hmax]; rfl
      have hlock : "create_tenant" ∈ "create_tenant" :: pt.held := List.mem_cons_self
      have hcount : countTenants v = countTenants w₂.db := hpt.stays w₂.db v hv
      have hrely : (firstDiscipline maxTenants start strict).Rely pt.held pt.state w₂ :=
        hw₁.trans (hw₂.weaken (List.subset_cons_self _ _))
      rw [Script.wp_bind]
      refine wp_insertTenant hid ⟨hw₂.inv, hpt.stays⟩ (fun w hw max' hmax' => ?_)
        fun pt' hcreating hheld hw => ?_
      · cases hmax.symm.trans hmax'
        refine ⟨hlock, ?_⟩
        rw [(hw.keeps "create_tenant" hlock).2 rfl hsome, ← hcount]
        exact Nat.lt_of_not_le hroom
      · refine hK pt' hcreating (fun n hn => hheld (List.mem_cons_of_mem _ hn))
          (hrely.trans (hw.weaken (List.subset_cons_self _ _))) fun _ hrecounts hs => ?_
        rw [(hw.keeps "create_tenant" hlock).2 rfl hsome]
        -- there are none or the limit is reached, and the check has passed
        have hsettled := hmet hs hrecounts
        simp only [settled, hmax, Option.all_some, Bool.or_eq_true, decide_eq_true_eq] at hsettled
        exact hcount.symm.trans (hsettled.resolve_right hroom)

/-- A transaction that creates a tenant and then writes rows of other tables. -/
theorem wp_creates {α : Type} {f : Uuid → Work α} {id : Uuid} {name : String}
    (hid : id ≠ infrastructureTenantId) (hf : ∀ tenant, Script.Within SameTenants (f tenant))
    (hpt : Steady maxTenants start strict pt) :
    (createTenant id name maxTenants >>= f).wp (firstDiscipline maxTenants start strict) job
      (fun _ => Creating maxTenants start strict) pt := by
  rw [Script.wp_bind]
  exact wp_createTenant hid hpt fun pt' hcreating _ _ _ =>
    maintains_creating (hf id) pt' hcreating

theorem wp_setup {fresh : NewAccount} {account : Signup} (hjob : job.isSetup = true)
    (hpt : Steady maxTenants start strict pt) (hseen : pt.seen = []) :
    (setupFirstAccount env.externals fresh maxTenants account).wp
      (firstDiscipline maxTenants start strict) job (fun _ => Opening maxTenants start strict)
      pt := by
  unfold setupFirstAccount
  split_ifs with hnone
  · trivial
  · have hsome : (tenantMaximum maxTenants).isSome = true := by
      cases maxTenants with
      | none => exact absurd rfl hnone
      | some max => rfl
    rw [openDeployment, Script.wp_bind, Script.wp_acquire]
    intro w₁ hw₁
    rw [Script.wp_bind, Script.wp_read]
    intro w₂ hw₂ v hv _
    rw [Script.wp_bind, Script.wp_failIf]
    intro hempty
    have hlock : "setup" ∈ "setup" :: pt.held := List.mem_cons_self
    -- a setup that had committed would have left a tenant
    have hfresh : setups w₂.log = 0 := by
      by_contra hne
      have hpos := hw₂.inv.founded (Nat.pos_of_ne_zero hne)
      have hcount : countTenants v = countTenants w₂.db := hpt.stays w₂.db v hv
      omega
    rw [Script.wp_bind]
    refine wp_createTenant fresh.tenant_ne ⟨hw₂.inv, hpt.stays⟩ fun pt' hcreating hheld hw hnone => ?_
    have hopening : Opening maxTenants start strict pt' := by
      refine ⟨hcreating, hsome, hheld hlock, ?_, hnone hsome ?_⟩
      · exact ((hw.keeps "setup" hlock).1 rfl).trans hfresh
      · simp [recounts, hjob, hseen]
    exact maintains_opening (within_sameTenants ((sameAccounts_createWorkspace _ _ _ _ _).bind
      fun _ => (sameAccounts_registerOwner _ _ _).bind fun _ => Script.within_pure _)) pt' hopening

theorem wp_signup {fresh : NewAccount} {account : Signup}
    (hpt : Steady maxTenants start strict pt) :
    (signupAccount env.externals fresh maxTenants account).wp
      (firstDiscipline maxTenants start strict) job (fun _ => Creating maxTenants start strict)
      pt :=
  wp_creates fresh.tenant_ne (fun _ => within_sameTenants
    ((sameAccounts_registerOwner _ _ _).bind fun _ => Script.within_pure _)) hpt

/-- First logins add a tenant, later ones none. -/
theorem wp_findOrCreate {fresh : NewAccount} {provider : String} {who : CallbackIdentity}
    (hpt : Steady maxTenants start strict pt) :
    (findOrCreate env fresh provider who maxTenants).wp (firstDiscipline maxTenants start strict)
      job (fun _ pt' => Steady maxTenants start strict pt' ∨ Creating maxTenants start strict pt')
      pt := by
  unfold findOrCreate
  rw [Script.wp_bind]
  refine Script.wp_mono (maintains_steady (Script.within_acquire _) pt hpt) fun _ pt₁ hpt₁ => ?_
  rw [Script.wp_bind]
  refine Script.wp_mono (maintains_steady (Script.within_read _) pt₁ hpt₁)
    fun existing pt₂ hpt₂ => ?_
  cases existing with
  | some user =>
      have hquiet := sameAccounts_quiet (quiet_resolveExistingLogin user)
      exact Script.wp_mono (maintains_steady (within_sameTenants hquiet) pt₂ hpt₂) fun _ _ => Or.inl
  | none =>
      rw [Script.wp_bind, Script.wp_orFail]
      intro email _
      rw [provision, Script.wp_bind]
      refine Script.wp_mono (maintains_steady (sameTenants_createOauthUser _ _ _ _ _) pt₂ hpt₂)
        fun user pt₃ hpt₃ => Script.wp_mono (wp_creates fresh.tenant_ne (fun tenant => ?_) hpt₃)
          fun _ _ => Or.inr
      exact within_sameTenants ((sameAccounts_createWorkspace _ _ _ _ _).bind fun _ =>
        (sameAccounts_createSchema _ _ _ _ _ _).bind fun _ =>
        (sameAccounts_activateWorkspace _ _).bind fun _ =>
        (sameAccounts_addOwner env.externals _ _).bind fun _ => Script.within_pure _)

theorem wp_callback {fresh : NewAccount} {key : NewKey} {who : CallbackIdentity}
    {requested : Option Uuid} (hpt : Steady maxTenants start strict pt) :
    (callback env fresh key who requested maxTenants).wp (firstDiscipline maxTenants start strict)
      job (fun _ pt' => Steady maxTenants start strict pt' ∨ Creating maxTenants start strict pt')
      pt := by
  rw [callback, Script.wp_bind]
  refine Script.wp_mono (maintains_steady (Script.within_read _) pt hpt)
    fun existing pt₁ hpt₁ => ?_
  cases existing with
  | some user =>
      exact Script.wp_mono (maintains_steady (within_sameTenants
        (sameAccounts_onBase (within_signIn user requested))) pt₁ hpt₁) fun _ _ => Or.inl
  | none =>
      rw [Script.wp_bind]
      exact Script.wp_mono (wp_findOrCreate hpt₁) fun _ _ hpt₂ => hpt₂

/-- Every transaction keeps to the discipline. -/
theorem firstDiscipline_verified (env : Provisioner) (maxTenants : Option Int) (start : Nat)
    (strict : Prop) : Verified (firstDiscipline maxTenants start strict) (Job.code env maxTenants) := by
  intro job w hw
  have hpt : Steady maxTenants start strict ⟨[], [], .ok, w⟩ := by
    refine ⟨hw, fun d d' hd => ?_⟩
    cases hd
    exact SameTenants.refl d
  cases job with
  | op call =>
      refine (Script.wp_bind _ _).mpr (Script.wp_mono
        (maintains_steady (within_sameTenants (sameAccounts_onBase (op_within call))) _ hpt) fun r pt' hpt' => ?_)
      exact hpt'.commits rfl _
  | setup fresh account =>
      exact (Script.wp_bind _ _).mpr (Script.wp_mono (wp_setup rfl hpt rfl) fun r pt' hpt' =>
        hpt'.commits rfl _)
  | signup fresh account =>
      exact (Script.wp_bind _ _).mpr (Script.wp_mono (wp_signup hpt) fun r pt' hpt' =>
        hpt'.commits rfl _)
  | findOrCreate fresh provider who =>
      refine (Script.wp_bind _ _).mpr (Script.wp_mono (wp_findOrCreate hpt) fun r pt' hpt' => ?_)
      rcases hpt' with hsteady | hcreating
      · exact hsteady.commits rfl _
      · exact hcreating.commits rfl _
  | callback fresh key who requested =>
      refine (Script.wp_bind _ _).mpr (Script.wp_mono (wp_callback hpt) fun r pt' hpt' => ?_)
      rcases hpt' with hsteady | hcreating
      · exact hsteady.commits rfl _
      · exact hcreating.commits rfl _

theorem firstDiscipline_tame (maxTenants : Option Int) (start : Nat) (strict : Prop) :
    Tame (firstDiscipline maxTenants start strict) elapse :=
  fun _ _ hw => ⟨⟨hw.room, hw.once, hw.founded, hw.first⟩, le_rfl, fun _ _ =>
    ⟨fun _ => rfl, fun _ _ => rfl⟩⟩

end Jobs

/-! ## Main results -/

/-- **No tenant came in between.** Where the step is the second count of a setup, under the
lock of `create_tenant`, there are still no tenants, or as many as there may be. -/
def undisturbed (maxTenants : Option Int) (s : DeploymentServer) : Event Job Nat → Bool
  | .step t => (s.sessions.get? t).all fun x =>
      match x.pending s.state.db with
      | .error _ => true
      | .ok v => !(x.script.isStatement && recounts x.job x.seen) || settled maxTenants v
  | _ => true

/-- What setup and the tenant limit promise of a state that a deployment `d` comes to: setups
commit only where no tenant is, one at most, and the limit is kept. -/
structure SetUpOnce (maxTenants : Option Int) (d : Deployment) (w : DeploymentState) : Prop where
  first : ∀ e ∈ w.log, e.job.isSetup = true → countTenants e.before = 0
  once : setups w.log ≤ 1
  limit : ∀ max, maxTenants = some max → countTenants d ≤ max.toNat →
    countTenants w.db ≤ max.toNat

section Runs

variable (env : Provisioner) (maxTenants : Option Int) (d : Deployment)

theorem Founded.init (strict : Prop) : Founded maxTenants (countTenants d) strict ⟨d, []⟩ :=
  ⟨fun max _ => Nat.le_max_right max _, Nat.zero_le _, fun h => absurd h (Nat.lt_irrefl 0),
    fun _ _ he => by cases he⟩

variable {maxTenants d}

theorem Founded.limit {strict : Prop} {w : DeploymentState}
    (hw : Founded maxTenants (countTenants d) strict w) {max : Int} (hmax : maxTenants = some max)
    (hstart : countTenants d ≤ max.toNat) : countTenants w.db ≤ max.toNat := by
  have hroom := hw.room max.toNat (by rw [hmax]; rfl)
  exact hroom.trans (Nat.max_le.mpr ⟨le_rfl, hstart⟩)

theorem meets_of_undisturbed {start : Nat} {s : DeploymentServer} {i : Event Job Nat}
    (h : undisturbed maxTenants s i = true) :
    s.Meets (firstDiscipline maxTenants start True) i := by
  cases i with
  | step t =>
      intro x hx hstatement v hv _ hrecounts
      simpa [undisturbed, hx, hv, hstatement, hrecounts] using h
  | _ => trivial

/-- **One setup, and no more tenants than the limit**, in any interleaving. -/
theorem setup_once_within_limit (inputs : List (Event Job Nat)) :
    setups (run (deploymentStep env maxTenants) (Server.init d) inputs).state.log ≤ 1 ∧
      ∀ max, maxTenants = some max → countTenants d ≤ max.toNat →
        countTenants (run (deploymentStep env maxTenants) (Server.init d) inputs).state.db ≤
          max.toNat := by
  have hsound := Server.sound_run (firstDiscipline_verified env maxTenants (countTenants d) False)
    (firstDiscipline_tame maxTenants (countTenants d) False) (Founded.init maxTenants d False)
    (Server.stepsMeet (fun _ _ _ h => h.elim) _ inputs)
  exact ⟨hsound.inv.once, fun max hmax hstart => hsound.inv.limit hmax hstart⟩

/-- **Setup on an empty deployment.** In any interleaving of setups, signups, first logins and
other operations in which no tenant is committed between a setup's two counts, unless it fills
the deployment, setups commit only where no tenant is, one at most, and the limit is kept. -/
theorem setup_on_empty (inputs : List (Event Job Nat))
    (hundisturbed : StepsMeet (deploymentStep env maxTenants)
      (fun s i => undisturbed maxTenants s i = true) (Server.init d) inputs) :
    SetUpOnce maxTenants d (run (deploymentStep env maxTenants) (Server.init d) inputs).state := by
  have hsound := Server.sound_run (firstDiscipline_verified env maxTenants (countTenants d) True)
    (firstDiscipline_tame maxTenants (countTenants d) True) (Founded.init maxTenants d True)
    (hundisturbed.imp fun _ _ h => meets_of_undisturbed h)
  exact ⟨hsound.inv.first trivial, hsound.inv.once, fun max hmax hstart =>
    hsound.inv.limit hmax hstart⟩

end Runs

/-- The title of a note. -/
def noteTitle : Metaschema.FieldTree :=
  .mk { Metaschema.FieldAttrs.ofType .string with required := true, maxLength := some 200 } none none

/-- A provisioner for examples: plain digests, and notes that have a title. -/
def Provisioner.plain : Provisioner where
  externals := .plain
  dialect := ⟨fun _ => some fun _ => true, fun _ _ => true⟩
  display := fun _ => ""
  generalNotes :=
    { name := "general-notes"
      description := none
      entityTypes := OrderedMap.ofList [("note", ⟨none, OrderedMap.ofList [("title", ⟨noteTitle, rfl⟩)]⟩)]
      relationTypes := .empty }

/-- The ids of two accounts. -/
def founder : NewAccount := ⟨10, "", 1, 20, 30, by decide⟩

@[inherit_doc founder]
def newcomer : NewAccount := ⟨11, "", 2, 21, 31, by decide⟩

/-- A setup, with a signup that begins after `before` of its statements and goes through. -/
def setupAndSignup (before : Nat) : List (Event Job Nat) :=
  .start 0 (.setup founder ⟨"root@acme", "secret", none⟩) :: Event.steps 0 before ++
    .start 1 (.signup newcomer ⟨"user@acme", "secret", none⟩) :: Event.steps 1 12 ++
    Event.steps 0 20

/-- A setup that commits before the signup begins. -/
theorem setup_on_empty_setupFirst :
    (run (deploymentStep .plain (some 2)) (Server.init (.empty 0))
      (setupAndSignup 13)).state.log.length = 2 ∧
    SetUpOnce (some 2) (.empty 0) (run (deploymentStep .plain (some 2)) (Server.init (.empty 0))
      (setupAndSignup 13)).state :=
  ⟨by set_option maxRecDepth 4096 in decide,
    setup_on_empty .plain (setupAndSignup 13) (by decide)⟩

/-- A signup that begins and commits after the first count of a setup: the setup commits too,
on a deployment that has a tenant. -/
theorem not_setUpOnce_signupBetween :
    ¬ SetUpOnce (some 2) (.empty 0) (run (deploymentStep .plain (some 2)) (Server.init (.empty 0))
      (setupAndSignup 2)).state := by
  intro hsetup
  have hlate : ((run (deploymentStep .plain (some 2)) (Server.init (.empty 0))
      (setupAndSignup 2)).state.log.any fun e =>
        e.job.isSetup && decide (countTenants e.before ≠ 0)) = true := by
    decide
  obtain ⟨e, he, hbad⟩ := List.any_eq_true.mp hlate
  obtain ⟨hjob, hcount⟩ := Bool.and_eq_true_iff.mp hbad
  exact of_decide_eq_true hcount (hsetup.first e he hjob)

end Yorishiro.Tenancy
