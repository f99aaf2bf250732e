import Yorishiro.Quota.Database
import Yorishiro.Schema.Sequence

/-!
# Quotas hold under concurrency

Entities are counted and inserted under the lock of their workspace, and workspaces under the
membership lock of their tenant, so nobody adds another one between the count and the commit.
Deletions of entities take no lock: they make room only. Deletions of workspaces share a second
lock with the creations, under which a tenant's count does not shrink.

`quotas_hold` is the result for interleavings. The limits are those of rows that nobody changes
while they are there, and the id of a deleted workspace never comes back (`Onward`), so a limit
that was read is the limit at the commit.
-/

set_option autoImplicit false

namespace Yorishiro.Quota

open Yorishiro.Lib Yorishiro.Lib.Fence Yorishiro.Metaschema
open Yorishiro.Entity hiding checkEntityQuota createWithQuota createRelation
  importRecord importLine importWithQuota resolveSchemaName
open Yorishiro.Schema (getActiveSchema versionLockKey)
open Yorishiro.Tenancy hiding ApiKey Invite Op
open Yorishiro.Lib.Transition

/-! ## How the database moves -/

/-- What is known of a row stays true while it is there. -/
def Stays {α : Type} (o o' : Option α) : Prop := o' = none ∨ o' = o

theorem Stays.refl {α : Type} (o : Option α) : Stays o o := Or.inr rfl

theorem Stays.of_eq {α : Type} {o o' : Option α} (h : o' = o) : Stays o o' := Or.inr h

theorem Stays.trans {α : Type} {o o' o'' : Option α} (h : Stays o o') (h' : Stays o' o'') :
    Stays o o'' := by
  rcases h' with h' | h'
  · exact Or.inl h'
  · exact h'.symm ▸ h

/-- Limits and tenants of drawn ids stay, and so do the drawn ids. -/
structure Onward (d d' : QuotaDb) : Prop where
  issued : d.issued ⊆ d'.issued
  owner : ∀ id ∈ d.issued, Stays (d.ownerOf id) (d'.ownerOf id)
  cap : ∀ id ∈ d.issued, Stays (d.capOf id) (d'.capOf id)
  allowance : d'.deployment.maxWorkspaces = d.deployment.maxWorkspaces

theorem Onward.refl (d : QuotaDb) : Onward d d :=
  ⟨List.Subset.refl _, fun _ _ => .refl _, fun _ _ => .refl _, rfl⟩

theorem Onward.trans {d d' d'' : QuotaDb} (h : Onward d d') (h' : Onward d' d'') :
    Onward d d'' where
  issued := List.Subset.trans h.issued h'.issued
  owner := fun id hid => (h.owner id hid).trans (h'.owner id (h.issued hid))
  cap := fun id hid => (h.cap id hid).trans (h'.cap id (h.issued hid))
  allowance := h'.allowance.trans h.allowance

/-- A limit that is there stays the same. -/
theorem Onward.entityLimit {quotas : Uuid → Quotas} {d d' : QuotaDb} (h : Onward d d') {id : Uuid}
    (hid : id ∈ d.issued) {m : Int} (hm : entityLimit quotas d' id = some m) :
    entityLimit quotas d id = some m := by
  obtain ⟨tenant, howner, hrest⟩ := Option.bind_eq_some_iff.mp hm
  obtain ⟨cap, hcap, hlimit⟩ := Option.bind_eq_some_iff.mp hrest
  have howner' : d'.ownerOf id = d.ownerOf id := by
    rcases h.owner id hid with hnone | heq
    · rw [hnone] at howner
      cases howner
    · exact heq
  have hcap' : d'.capOf id = d.capOf id := by
    rcases h.cap id hid with hnone | heq
    · rw [hnone] at hcap
      cases hcap
    · exact heq
  rw [howner'] at howner
  rw [hcap'] at hcap
  exact Option.bind_eq_some_iff.mpr ⟨tenant, howner, Option.bind_eq_some_iff.mpr
    ⟨cap, hcap, hlimit⟩⟩

/-- The ids of workspaces have been drawn, each has its settings, and entities are in workspaces
that are there. -/
structure Grounded (d : QuotaDb) : Prop where
  issued : ∀ id, d.ownerOf id ≠ none → id ∈ d.issued
  paired : ∀ id, d.capOf id = none ↔ d.ownerOf id = none
  housed : ∀ id, d.ownerOf id = none → d.entityCount id = 0

/-- Workspaces and their limits are left alone. -/
structure SameSpaces (d d' : QuotaDb) : Prop where
  issued : d'.issued = d.issued
  workspaces : d'.deployment.base.workspaces = d.deployment.base.workspaces
  cap : ∀ id, d'.capOf id = d.capOf id
  allowance : d'.deployment.maxWorkspaces = d.deployment.maxWorkspaces

namespace SameSpaces

variable {d d' d'' : QuotaDb}

theorem refl (d : QuotaDb) : SameSpaces d d := ⟨rfl, rfl, fun _ => rfl, rfl⟩

theorem trans (h : SameSpaces d d') (h' : SameSpaces d' d'') : SameSpaces d d'' :=
  ⟨h'.issued.trans h.issued, h'.workspaces.trans h.workspaces,
    fun id => (h'.cap id).trans (h.cap id), h'.allowance.trans h.allowance⟩

theorem owner (h : SameSpaces d d') (id : Uuid) : d'.ownerOf id = d.ownerOf id := by
  unfold QuotaDb.ownerOf
  rw [h.workspaces]

theorem workspaceCount (h : SameSpaces d d') (tenant : Uuid) :
    d'.workspaceCount tenant = d.workspaceCount tenant := by
  unfold QuotaDb.workspaceCount
  rw [h.workspaces]

theorem onward (h : SameSpaces d d') : Onward d d' where
  issued := fun _ hid => h.issued.symm ▸ hid
  owner := fun id _ => .of_eq (h.owner id)
  cap := fun id _ => .of_eq (h.cap id)
  allowance := h.allowance

/-- Where no workspace is, no entity may be added. -/
theorem grounded (h : SameSpaces d d') (hd : Grounded d)
    (hcount : ∀ id, d.capOf id = none → d'.entityCount id ≤ d.entityCount id) : Grounded d' where
  issued := fun id hid => by
    rw [h.owner] at hid
    rw [h.issued]
    exact hd.issued id hid
  paired := fun id => by
    rw [h.owner, h.cap]
    exact hd.paired id
  housed := fun id hid => by
    rw [h.owner] at hid
    have hzero := hd.housed id hid
    have hle := hcount id ((hd.paired id).mpr hid)
    omega

end SameSpaces

/-- The changes add `k` entities to the workspace, and none to one that is not there. -/
structure Adds (workspace : Uuid) (k : Nat) (d d' : QuotaDb) : Prop extends SameSpaces d d' where
  count : d'.entityCount workspace = d.entityCount workspace + k
  housed : ∀ id, d.capOf id = none → d'.entityCount id = d.entityCount id

theorem Adds.refl (workspace : Uuid) (d : QuotaDb) : Adds workspace 0 d d :=
  ⟨.refl d, rfl, fun _ _ => rfl⟩

theorem Adds.trans {workspace : Uuid} {k l : Nat} {d d' d'' : QuotaDb}
    (h : Adds workspace k d d') (h' : Adds workspace l d' d'') : Adds workspace (k + l) d d'' :=
  ⟨h.toSameSpaces.trans h'.toSameSpaces, by rw [h'.count, h.count]; omega, fun id hid =>
    (h'.housed id ((h.cap id).trans hid)).trans (h.housed id hid)⟩

/-! ## What statements change -/

theorem QuotaDb.entityCount_setContent (db : QuotaDb) (workspace l : Uuid) (content : Content) :
    (db.setContent workspace content).entityCount l =
      if l = workspace then content.rows.count fun _ _ => true else db.entityCount l := by
  unfold entityCount contentOf setContent
  rw [OrderedMap.get?_insert]
  split_ifs
  · rfl
  · rfl

theorem sameSpaces_setContent (db : QuotaDb) (workspace : Uuid) (content : Content) :
    SameSpaces db (db.setContent workspace content) := ⟨rfl, rfl, fun _ => rfl, rfl⟩

/-- The entities that a creation in `home` adds to the workspace. -/
def share (home workspace : Uuid) : Nat := if home = workspace then 1 else 0

/-- `INSERT` of an entity adds one, where the workspace is there. -/
theorem insertEntity_effects (workspace home id : Uuid) (row : EntityRow) :
    (insertEntity home id row).Effects fun d _ d' => Adds workspace (share home workspace) d d' := by
  refine (Script.effects_update (a := ()) (S := Adds workspace (share home workspace))
    fun d b d' hok => ⟨rfl, ?_⟩).mono fun _ _ _ h => h.2
  split_ifs at hok with hstored
  obtain ⟨_, hthere, hok⟩ := Except.bind_eq_ok.mp hok
  cases hok
  have hfresh : (d.contentOf home).rows.get? id = none := by simpa using hstored
  have hcap : d.capOf home ≠ none := by
    intro hnone
    unfold requireReferences at hthere
    simp [hnone] at hthere
  refine ⟨sameSpaces_setContent _ _ _, ?_, fun l hl => ?_⟩
  · rw [QuotaDb.entityCount_setContent, OrderedMap.count_insert_of_absent hfresh, share]
    by_cases hhome : home = workspace
    · rw [if_pos hhome.symm, if_pos hhome, hhome]
      rfl
    · rw [if_neg fun heq => hhome heq.symm, if_neg hhome, Nat.add_zero]
  · rw [QuotaDb.entityCount_setContent, if_neg]
    rintro rfl
    exact hcap hl

/-- Limits and tenants of workspaces are left alone. -/
structure SameLimits (d d' : Deployment) : Prop where
  base : d'.base = d.base
  allowance : d'.maxWorkspaces = d.maxWorkspaces
  cap : ∀ id, (d'.settings.get? id).map (·.maxEntities) = (d.settings.get? id).map (·.maxEntities)

theorem SameLimits.adds (workspace : Uuid) (db : QuotaDb) {d : Deployment}
    (h : SameLimits db.deployment d) : Adds workspace 0 db { db with deployment := d } :=
  ⟨⟨rfl, congrArg Db.workspaces h.base, h.cap, h.allowance⟩, rfl, fun _ _ => rfl⟩

theorem sameLimits_createSchema (env : JsonSchema.Dialect) (display : ℚ → String)
    (id tenant workspace : Uuid) (definition : MetaSchemaDefinition) :
    Script.Within SameLimits (Tenancy.createSchema env display id tenant workspace definition) := by
  refine (Script.within_ofExcept _).bind fun _ => (Script.within_acquire _).bind fun _ =>
    Script.within_update fun d _ d' hok => ?_
  split at hok
  · cases hok
  · rename_i row hrow
    obtain ⟨⟨schemas, row', version, changes⟩, hcreate, hok⟩ := Except.bind_eq_ok.mp hok
    cases hok
    have hactive : row' = Schema.markActive row id := (Schema.createSchema_eq_ok hcreate).2.1
    refine ⟨rfl, rfl, fun l => ?_⟩
    rw [OrderedMap.get?_insert]
    split_ifs with hl
    · rw [hl, hrow, hactive]
      rfl
    · rfl

/-- A script whose statements add no entity. -/
abbrev Neutral {α : Type} (workspace : Uuid) (p : QuotaTx α) : Prop :=
  Script.Within (Adds workspace 0) p

theorem neutral_createSchema (workspace : Uuid) (env : JsonSchema.Dialect) (display : ℚ → String)
    (id tenant home : Uuid) (definition : MetaSchemaDefinition) :
    Neutral workspace
      (onDeployment (Tenancy.createSchema env display id tenant home definition)) :=
  Script.Within.zoom _ _ (fun db _ h => h.adds workspace db)
    (sameLimits_createSchema env display id tenant home definition)

theorem neutral_insertRelation (workspace home id : Uuid) (row : RelationRecord) :
    Neutral workspace (insertRelation home id row) := by
  refine Script.within_update fun d _ d' hok => ?_
  split_ifs at hok
  obtain ⟨relations, -, hok⟩ := Except.bind_eq_ok.mp hok
  cases hok
  -- the entities of the workspace are written back as they were
  have hsame : ∀ l, (d.setContent home { d.contentOf home with
      relations := relations }).entityCount l = d.entityCount l := by
    intro l
    rw [QuotaDb.entityCount_setContent]
    split_ifs with hl
    · rw [hl]
      rfl
    · rfl
  exact ⟨sameSpaces_setContent _ _ _, hsame workspace, fun l _ => hsame l⟩

theorem neutral_createRelation (workspace home sourceId targetId : Uuid) (relationType : String)
    (properties : Json) (id : Uuid) :
    Neutral workspace (createRelation home sourceId targetId relationType properties id) :=
  (Script.within_read _).bind fun _ => (Script.within_ofExcept _).bind fun _ =>
    (Script.within_read _).bind fun _ => (Script.within_ofExcept _).bind fun _ =>
    (Script.within_read _).bind fun _ => (Script.within_ofExcept _).bind fun _ =>
    neutral_insertRelation workspace home id _

theorem Neutral.effects {α : Type} {workspace : Uuid} {p : QuotaTx α} (hp : Neutral workspace p) :
    p.Effects fun d _ d' => Adds workspace 0 d d' :=
  Script.Within.effects (.refl workspace) (fun _ _ _ h h' => h.trans h') hp

theorem quiet_checkEntityQuota (home : Uuid) (quota : Option Int) :
    Script.Quiet (checkEntityQuota home quota) := by
  refine Script.Within.bind (Script.within_read _) fun cap => ?_
  split
  · exact Script.within_pure _
  · exact (Script.within_read _).bind fun _ => Script.within_failIf _ _

theorem createChecked_effects (workspace : Uuid) (cx : Context) (input : CreateEntityInput)
    (createdBy : Option Uuid) (id : Uuid) (stamp : Stamp) :
    (createChecked cx input createdBy id stamp).Effects fun d _ d' =>
      Adds workspace (share cx.workspaceId workspace) d d' := by
  refine Script.Quiet.effects_bind (Script.within_read _) fun _ =>
    Script.Quiet.effects_bind (Script.within_failIf _ _) fun _ =>
    Script.Quiet.effects_bind (Script.within_acquire _) fun _ =>
    Script.Quiet.effects_bind (Script.within_read _) fun _ =>
    Script.Quiet.effects_bind (Script.within_ofExcept _) fun _ =>
    Script.Quiet.effects_bind (Script.within_ofExcept _) fun _ =>
    Script.Quiet.effects_bind (Script.within_ofExcept _) fun _ => ?_
  refine (insertEntity_effects workspace _ id _).bind (fun _ => Script.effects_pure id)
    fun d _ d' _ d'' h hsame => ?_
  rw [hsame.2]
  exact h

theorem createWithQuota_effects (workspace : Uuid) (cx : Context) (input : CreateEntityInput)
    (createdBy : Option Uuid) (quota : Option Int) (id : Uuid) (stamp : Stamp) :
    (createWithQuota cx input createdBy quota id stamp).Effects fun d _ d' =>
      Adds workspace (share cx.workspaceId workspace) d d' :=
  Script.Quiet.effects_bind (Script.within_acquire _) fun _ =>
    Script.Quiet.effects_bind (quiet_checkEntityQuota _ _) fun _ =>
    createChecked_effects workspace cx input createdBy id stamp

/-! ## What is to hold of a commit -/

/-- The entities that a commit adds to the workspace. -/
def entitiesAdded (workspace : Uuid) : QuotaJob → QuotaOutcome → Nat
  | .createEntity cx .., _ => share cx.workspaceId workspace
  | .importJsonl cx .., .imported p => if cx.workspaceId = workspace then p.entities else 0
  | _, _ => 0

/-- The workspaces that a commit adds to the tenant. -/
def workspacesAdded (tenant : Uuid) : QuotaJob → Nat
  | .createWorkspace _ owner .. => share owner tenant
  | _ => 0

/-- **A commit is within the quotas.** What creates rows adds as many as it says, and before it
the count was below the limit, by as many; nothing else adds any, and a tenant that has a
workspace keeps one. -/
structure WithinQuotas (quotas : Uuid → Quotas) (workspace tenant : Uuid)
    (e : Entry QuotaJob QuotaDb QuotaOutcome) : Prop where
  entities : 0 < entitiesAdded workspace e.job e.result →
    e.after.entityCount workspace =
      e.before.entityCount workspace + entitiesAdded workspace e.job e.result ∧
    ∀ m, entityLimit quotas e.before workspace = some m →
      (e.before.entityCount workspace + entitiesAdded workspace e.job e.result : Int) ≤ m
  noEntities : entitiesAdded workspace e.job e.result = 0 →
    e.after.entityCount workspace ≤ e.before.entityCount workspace
  workspaces : 0 < workspacesAdded tenant e.job →
    e.after.workspaceCount tenant =
      e.before.workspaceCount tenant + workspacesAdded tenant e.job ∧
    ∀ n, workspaceLimit quotas e.before tenant = some n →
      (e.before.workspaceCount tenant + workspacesAdded tenant e.job : Int) ≤ n
  noWorkspaces : workspacesAdded tenant e.job = 0 →
    e.after.workspaceCount tenant ≤ e.before.workspaceCount tenant
  last : 0 < e.before.workspaceCount tenant → 0 < e.after.workspaceCount tenant

/-- What a commit leaves in order, within the quotas. -/
structure Admitted (quotas : Uuid → Quotas) (workspace tenant : Uuid)
    (e : Entry QuotaJob QuotaDb QuotaOutcome) : Prop
    extends WithinQuotas quotas workspace tenant e where
  known : 0 < entitiesAdded workspace e.job e.result → workspace ∈ e.before.issued
  before : Grounded e.before
  after : Grounded e.after
  onward : Onward e.before e.after

/-- What transactions agree on about one workspace and one tenant. -/
def quotaDiscipline (quotas : Uuid → Quotas) (workspace tenant : Uuid) :
    Discipline QuotaJob String QuotaDb QuotaOutcome where
  inv := fun w => Grounded w.db ∧ ∀ e ∈ w.log, Admitted quotas workspace tenant e
  onward := fun w w' => Onward w.db w'.db
  keeps := fun name w w' =>
    (name = workspace.toString → w'.db.entityCount workspace ≤ w.db.entityCount workspace) ∧
    (name = membershipLock tenant →
      w'.db.workspaceCount tenant ≤ w.db.workspaceCount tenant) ∧
    (name = workspaceCountLockKey tenant →
      w.db.workspaceCount tenant ≤ w'.db.workspaceCount tenant)
  met := fun _ _ _ => True
  onward_refl := fun w => .refl w.db
  onward_trans := fun _ _ _ h h' => h.trans h'
  keeps_refl := fun _ _ => ⟨fun _ => le_refl _, fun _ => le_refl _, fun _ => le_refl _⟩
  keeps_trans := fun _ _ _ _ h h' => ⟨fun heq => (h'.1 heq).trans (h.1 heq),
    fun heq => (h'.2.1 heq).trans (h.2.1 heq), fun heq => (h.2.2 heq).trans (h'.2.2 heq)⟩

/-- Where a transaction of the system stands. -/
abbrev QuotaPoint := Point QuotaJob String QuotaDb YorishiroError QuotaOutcome

/-- A commit that is within the quotas and in order is allowed, under the locks of what it adds
or takes away. -/
theorem admitted_allows {quotas : Uuid → Quotas} {workspace tenant : Uuid} {held : List String}
    {w : State QuotaJob QuotaDb QuotaOutcome} {job : QuotaJob} {r : QuotaOutcome}
    {seen : List QuotaDb} {a : QuotaDb}
    (hinv : (quotaDiscipline quotas workspace tenant).inv w)
    (h : Admitted quotas workspace tenant
      { job := job, result := r, seen := seen, before := w.db, after := a })
    (hentities : workspace.toString ∉ held → entitiesAdded workspace job r = 0)
    (hworkspaces : membershipLock tenant ∉ held → workspacesAdded tenant job = 0)
    (hremoved : workspaceCountLockKey tenant ∉ held →
      w.db.workspaceCount tenant ≤ a.workspaceCount tenant) :
    (quotaDiscipline quotas workspace tenant).Allows held w (w.commit job r seen a) where
  inv := ⟨h.after, fun e he => by
    rcases List.mem_append.mp he with he | he
    · exact hinv.2 e he
    · rw [List.mem_singleton.mp he]
      exact h⟩
  onward := h.onward
  keeps := fun name hname => ⟨fun heq => h.noEntities (hentities (heq ▸ hname)),
    fun heq => h.noWorkspaces (hworkspaces (heq ▸ hname)), fun heq => hremoved (heq ▸ hname)⟩

/-! ## Entities, under the lock of their workspace -/

/-- There is room for `j` entities in the workspace. -/
def Room (quotas : Uuid → Quotas) (workspace : Uuid) (j : Nat) (db : QuotaDb) : Prop :=
  ∀ m, entityLimit quotas db workspace = some m → (db.entityCount workspace + j : Int) ≤ m

/-- A transaction in `home`, a workspace of `owner`, is going to add `k` entities to the
workspace, and has its lock and room for `j` of them. -/
structure Stage (quotas : Uuid → Quotas) (workspace tenant home owner : Uuid) (k j : Nat)
    (pt : QuotaPoint) : Prop where
  inv : (quotaDiscipline quotas workspace tenant).inv pt.state
  adds : ∀ d d', pt.pending d = .ok d' → Adds workspace k d d'
  known : home ∈ pt.state.db.issued
  owned : Stays (some owner) (pt.state.db.ownerOf home)
  room : 0 < j → home = workspace ∧ workspace.toString ∈ pt.held ∧
    Room quotas workspace j pt.state.db

section Stage

variable {quotas : Uuid → Quotas} {workspace tenant home owner : Uuid} {k j l : Nat}
  {pt : QuotaPoint} {job : QuotaJob}

/-- The room is left while the state moves as the lock allows. -/
theorem Stage.move (h : Stage quotas workspace tenant home owner k j pt) {held : List String}
    {seen : List QuotaDb} {pending : QuotaDb → Except YorishiroError QuotaDb}
    {w : State QuotaJob QuotaDb QuotaOutcome} (hheld : pt.held ⊆ held)
    (hw : (quotaDiscipline quotas workspace tenant).Rely pt.held pt.state w)
    (hpending : ∀ d d', pending d = .ok d' → ∃ v, pt.pending d = .ok v ∧ Adds workspace l v d') :
    Stage quotas workspace tenant home owner (k + l) j ⟨held, seen, pending, w⟩ where
  inv := hw.inv
  adds := fun d d' hd => by
    obtain ⟨v, hv, hadds⟩ := hpending d d' hd
    exact (h.adds d v hv).trans hadds
  known := hw.onward.issued h.known
  owned := h.owned.trans (hw.onward.owner home h.known)
  room := fun hj => by
    obtain ⟨rfl, hlock, hroom⟩ := h.room hj
    refine ⟨rfl, hheld hlock, fun m hm => ?_⟩
    have hle := hroom m (hw.onward.entityLimit h.known hm)
    have hcount : w.db.entityCount home ≤ pt.state.db.entityCount home := (hw.keeps _ hlock).1 rfl
    change (w.db.entityCount home + j : Int) ≤ m
    omega

/-- The state moves, and what is to be changed does not. -/
theorem Stage.rely (h : Stage quotas workspace tenant home owner k j pt) (seen : List QuotaDb)
    {held : List String} {w : State QuotaJob QuotaDb QuotaOutcome} (hheld : pt.held ⊆ held)
    (hw : (quotaDiscipline quotas workspace tenant).Rely pt.held pt.state w) :
    Stage quotas workspace tenant home owner k j ⟨held, seen, pt.pending, w⟩ :=
  h.move (l := 0) hheld hw fun _ d' hd => ⟨d', hd, .refl workspace d'⟩

theorem Stage.wp_effects (h : Stage quotas workspace tenant home owner k j pt) {α : Type}
    {p : QuotaTx α} (hp : p.Effects fun d _ d' => Adds workspace l d d') :
    p.wp (quotaDiscipline quotas workspace tenant) job
      (fun _ => Stage quotas workspace tenant home owner (k + l) j) pt :=
  Script.wp_effects hp h.inv fun _ _ _ _ _ hheld hw hpending => h.move hheld hw hpending

/-- What is known of the limit when `max_entities` is read. -/
theorem Stage.limit_read (h : Stage quotas workspace tenant workspace owner k j pt) {v : QuotaDb}
    (hv : pt.pending pt.state.db = .ok v) {m : Int}
    (hm : entityLimit quotas pt.state.db workspace = some m) :
    effectiveLimit (v.capOf workspace).join (quotas owner).entities = some m := by
  obtain ⟨tenant', howner, hrest⟩ := Option.bind_eq_some_iff.mp hm
  obtain ⟨cap, hcap, hlimit⟩ := Option.bind_eq_some_iff.mp hrest
  have howned := h.owned
  rw [howner] at howned
  rcases howned with hnone | heq
  · cases hnone
  · cases heq
    rw [(h.adds _ _ hv).cap, hcap]
    exact hlimit

/-- Under the lock, the check leaves room for one more. -/
theorem wp_checkEntityQuota (h : Stage quotas workspace tenant workspace owner k k pt)
    (hlock : workspace.toString ∈ pt.held) :
    (checkEntityQuota workspace (quotas owner).entities).wp
      (quotaDiscipline quotas workspace tenant) job
      (fun _ => Stage quotas workspace tenant workspace owner k (k + 1)) pt := by
  unfold checkEntityQuota
  rw [Script.wp_bind, Script.wp_read]
  intro w hw v hv _
  have hstage := h.rely (pt.seen ++ [v]) (List.Subset.refl _) hw
  have hlimit := fun m => hstage.limit_read (m := m) hv
  split
  case h_1 hnone =>
    refine { hstage with room := fun _ => ⟨rfl, hlock, fun m hm => ?_⟩ }
    have hsome := hlimit m hm
    rw [hnone] at hsome
    cases hsome
  case h_2 max hmax =>
    rw [Script.wp_bind, Script.wp_read]
    intro w₂ hw₂ v₂ hv₂ _
    rw [Script.wp_failIf]
    intro hbelow
    have hstage₂ := hstage.rely (pt.seen ++ [v] ++ [v₂]) (List.Subset.refl _) hw₂
    refine { hstage₂ with room := fun _ => ⟨rfl, hlock, fun m hm => ?_⟩ }
    -- the limit at the count is the one that was read
    have hsome := hlimit m (hw₂.onward.entityLimit hstage.known hm)
    rw [hmax] at hsome
    cases hsome
    have hcount := (hstage₂.adds _ _ hv₂).count
    push_cast
    omega

theorem wp_createWithQuota (cx : Context) (input : CreateEntityInput) (createdBy : Option Uuid)
    (id : Uuid) (stamp : Stamp)
    (h : Stage quotas workspace tenant cx.workspaceId owner k k pt) :
    (createWithQuota cx input createdBy (quotas owner).entities id stamp).wp
      (quotaDiscipline quotas workspace tenant) job
      (fun _ => Stage quotas workspace tenant cx.workspaceId owner
        (k + share cx.workspaceId workspace) (k + share cx.workspaceId workspace)) pt := by
  by_cases hhome : cx.workspaceId = workspace
  · have hshare : share cx.workspaceId workspace = 1 := if_pos hhome
    unfold createWithQuota
    rw [Script.wp_bind, Script.wp_acquire]
    intro w hw
    have hstage := h.rely pt.seen (List.subset_cons_self cx.workspaceId.toString pt.held) hw
    have heffects := createChecked_effects workspace cx input createdBy id stamp
    rw [hshare] at heffects ⊢
    subst hhome
    rw [Script.wp_bind]
    exact Script.wp_mono (wp_checkEntityQuota hstage List.mem_cons_self) fun _ _ hpt =>
      hpt.wp_effects heffects
  · have hshare : share cx.workspaceId workspace = 0 := if_neg hhome
    have heffects := createWithQuota_effects workspace cx input createdBy (quotas owner).entities
      id stamp
    rw [hshare] at heffects ⊢
    exact h.wp_effects heffects

/-- The entities of an import that are in the workspace. -/
def importShare (home workspace : Uuid) (p : ImportProgress) : Nat :=
  if home = workspace then p.entities else 0

theorem wp_importRecord (cx : Context) (importedBy : Option Uuid) (p : ImportProgress) (id : Uuid)
    (stamp : Stamp) (record : ExportRecord)
    (h : Stage quotas workspace tenant cx.workspaceId owner
      (importShare cx.workspaceId workspace p) (importShare cx.workspaceId workspace p) pt) :
    (importRecord cx ⟨owner, importedBy, (quotas owner).entities⟩ p id stamp record).wp
      (quotaDiscipline quotas workspace tenant) job
      (fun p' => Stage quotas workspace tenant cx.workspaceId owner
        (importShare cx.workspaceId workspace p') (importShare cx.workspaceId workspace p')) pt := by
  cases record with
  | schema oldId definition =>
      unfold importRecord
      rw [Script.wp_bind]
      exact h.wp_effects (neutral_createSchema workspace _ _ _ _ _ _).effects
  | relation sourceId targetId relationType properties =>
      unfold importRecord
      rw [Script.wp_bind]
      exact h.wp_effects (neutral_createRelation workspace _ _ _ _ _ _).effects
  | entity oldId schemaId entityType data =>
      unfold importRecord
      rw [Script.wp_bind, Script.wp_read]
      intro w hw v _ _
      rw [Script.wp_bind, Script.wp_ofExcept]
      intro resolved _
      rw [Script.wp_bind]
      refine Script.wp_mono (wp_createWithQuota cx _ importedBy id stamp
        (h.rely (pt.seen ++ [v]) (List.Subset.refl _) hw)) fun created pt' hpt' => ?_
      have hshare : ∀ q : ImportProgress, q.entities = p.entities + 1 →
          importShare cx.workspaceId workspace q =
            importShare cx.workspaceId workspace p + share cx.workspaceId workspace := by
        intro q hq
        unfold importShare share
        split_ifs
        · exact hq
        · rfl
      rw [Script.wp_pure, hshare _ rfl]
      exact hpt'

theorem wp_importLine (cx : Context) (importedBy : Option Uuid) (given : Nat → Uuid × Stamp)
    (p : ImportProgress) (line : ImportLine × Nat)
    (h : Stage quotas workspace tenant cx.workspaceId owner
      (importShare cx.workspaceId workspace p) (importShare cx.workspaceId workspace p) pt) :
    (importLine cx ⟨owner, importedBy, (quotas owner).entities⟩ given p line).wp
      (quotaDiscipline quotas workspace tenant) job
      (fun p' => Stage quotas workspace tenant cx.workspaceId owner
        (importShare cx.workspaceId workspace p') (importShare cx.workspaceId workspace p')) pt := by
  obtain ⟨content, lineNo⟩ := line
  cases content with
  | empty => exact h
  | invalid err => trivial
  | record record =>
      refine Script.wp_mapError (wp_importRecord cx importedBy p _ _ record h) (annotateLine lineNo)
        (fun p' pt' pending hpt' hsame => ?_) fun _ _ => Iff.rfl
      exact { hpt' with adds := fun d d' hd => hpt'.adds d d' ((hsame d d').mp hd) }

/-- **Run lemma of the import.** The room grows with the lines that are through. -/
theorem wp_importLines (cx : Context) (importedBy : Option Uuid) (given : Nat → Uuid × Stamp)
    (lines : List (ImportLine × Nat)) (p : ImportProgress)
    (h : Stage quotas workspace tenant cx.workspaceId owner
      (importShare cx.workspaceId workspace p) (importShare cx.workspaceId workspace p) pt) :
    (importLines cx ⟨owner, importedBy, (quotas owner).entities⟩ given lines p).wp
      (quotaDiscipline quotas workspace tenant) job
      (fun p' => Stage quotas workspace tenant cx.workspaceId owner
        (importShare cx.workspaceId workspace p') (importShare cx.workspaceId workspace p')) pt := by
  induction lines generalizing p pt with
  | nil => exact h
  | cons line lines ih =>
      unfold importLines
      rw [Script.wp_bind]
      exact Script.wp_mono (wp_importLine cx importedBy given p line h) fun p' _ hpt' => ih p' hpt'

/-- The request begins in a workspace that is there. -/
theorem wp_requireWorkspace (w : State QuotaJob QuotaDb QuotaOutcome) :
    (requireWorkspace owner home).wp (quotaDiscipline quotas workspace tenant) job
      (fun _ => Stage quotas workspace tenant home owner 0 0) ⟨[], [], .ok, w⟩ := by
  unfold requireWorkspace onDeployment onBase getWorkspaceTenant
  simp only [Script.zoom_bind, Script.zoom_read, Script.zoom_orFail]
  rw [Script.wp_bind, Script.wp_bind, Script.wp_read]
  intro w' hw' v hv _
  cases hv
  rw [Script.wp_orFail]
  intro found hfound
  rw [Script.wp_failIf]
  intro hsame
  have howner : w'.db.ownerOf home = some owner := by
    rw [← not_not.mp hsame]
    exact hfound
  exact
    { inv := hw'.inv
      adds := fun d d' hd => by
        cases hd
        exact .refl workspace d
      known := hw'.inv.1.issued home (by rw [howner]; exact Option.some_ne_none _)
      owned := .of_eq howner
      room := fun h => absurd h (lt_irrefl 0) }

/-- A transaction that has room for what it adds commits within the quotas. -/
theorem Stage.commits (h : Stage quotas workspace tenant home owner k k pt) {r : QuotaOutcome}
    (hk : entitiesAdded workspace job r = k) (hl : workspacesAdded tenant job = 0) :
    (quotaDiscipline quotas workspace tenant).Commits job r pt := by
  intro w hw a ha
  have hadds := h.adds w.db a ha
  have hstage := h.rely pt.seen (List.Subset.refl _) hw
  have hspaces := hadds.workspaceCount tenant
  refine admitted_allows hw.inv
    { entities := fun hpos => ⟨hk ▸ hadds.count, fun m hm => ?_⟩
      noEntities := fun hzero => ?_
      workspaces := fun hpos => absurd hl (ne_of_gt hpos)
      noWorkspaces := fun _ => hspaces.le
      last := fun hpos => hspaces.symm ▸ hpos
      known := fun hpos => (hstage.room (hk ▸ hpos)).1 ▸ hstage.known
      before := hw.inv.1
      after := hadds.grounded hw.inv.1 fun id hid => (hadds.housed id hid).le
      onward := hadds.onward } (fun hheld => ?_) (fun _ => hl) fun _ => hspaces.ge
  · rw [hk]
    exact (hstage.room (hk ▸ hpos)).2.2 m hm
  · have hcount := hadds.count
    change a.entityCount workspace ≤ w.db.entityCount workspace
    have hzero' : entitiesAdded workspace job r = 0 := hzero
    omega
  · by_contra hne
    exact hheld (h.room (hk ▸ Nat.pos_of_ne_zero hne)).2.1

end Stage

/-! ## Deletion of an entity -/

/-- The changes add no entity anywhere. -/
structure Drops (d d' : QuotaDb) : Prop extends SameSpaces d d' where
  count : ∀ id, d'.entityCount id ≤ d.entityCount id

theorem deleteEntity_effects (home id : Uuid) :
    (Quota.deleteEntity home id).Effects fun d _ d' => Drops d d' := by
  refine (Script.effects_update (a := ()) (S := Drops) fun d b d' hok => ⟨rfl, ?_⟩).mono
    fun _ _ _ h => h.2
  split_ifs at hok
  cases hok
  refine ⟨sameSpaces_setContent _ _ _, fun l => ?_⟩
  rw [QuotaDb.entityCount_setContent]
  split_ifs with hl
  · rw [hl]
    exact OrderedMap.count_le_count fun k x hx _ =>
      ⟨x, (OrderedMap.get?_erase_eq_some hx).2, rfl⟩
  · exact le_refl _

theorem quiet_requireWorkspace (owner home : Uuid) :
    Script.Quiet (requireWorkspace owner home) :=
  Script.Within.bind (((quiet_getWorkspaceTenant home).zoom _ _).zoom _ _) fun _ =>
    Script.within_failIf _ _

theorem Drops.allows {quotas : Uuid → Quotas} {workspace tenant : Uuid} {held : List String}
    {w : State QuotaJob QuotaDb QuotaOutcome} {job : QuotaJob} {r : QuotaOutcome}
    {seen : List QuotaDb} {a : QuotaDb} (h : Drops w.db a)
    (hinv : (quotaDiscipline quotas workspace tenant).inv w)
    (hk : entitiesAdded workspace job r = 0) (hl : workspacesAdded tenant job = 0) :
    (quotaDiscipline quotas workspace tenant).Allows held w (w.commit job r seen a) := by
  have hspaces := h.workspaceCount tenant
  exact admitted_allows hinv
    { entities := fun hpos => absurd hk (ne_of_gt hpos)
      noEntities := fun _ => h.count workspace
      workspaces := fun hpos => absurd hl (ne_of_gt hpos)
      noWorkspaces := fun _ => hspaces.le
      last := fun hpos => hspaces.symm ▸ hpos
      known := fun hpos => absurd hk (ne_of_gt hpos)
      before := hinv.1
      after := h.grounded hinv.1 fun id _ => h.count id
      onward := h.onward } (fun _ => hk) (fun _ => hl) fun _ => hspaces.ge

/-! ## A new workspace -/

/-- The changes draw the id, and found a workspace of `owner` under it. -/
def Founds (id owner : Uuid) (d d' : QuotaDb) : Prop :=
  id ∉ d.issued ∧ ∃ name row, d' =
    { deployment := { d.deployment with
        base := { d.deployment.base with
          workspaces := d.deployment.base.workspaces.insert id ⟨owner, name⟩ }
        settings := d.deployment.settings.insert id row }
      contents := d.contents
      issued := id :: d.issued }

namespace Founds

variable {id owner : Uuid} {d d' : QuotaDb}

theorem ownerOf (h : Founds id owner d d') (l : Uuid) :
    d'.ownerOf l = if l = id then some owner else d.ownerOf l := by
  obtain ⟨-, name, row, rfl⟩ := h
  unfold QuotaDb.ownerOf
  rw [OrderedMap.get?_insert]
  split_ifs
  · rfl
  · rfl

theorem capOf (h : Founds id owner d d') :
    ∃ cap, ∀ l, d'.capOf l = if l = id then some cap else d.capOf l := by
  obtain ⟨-, name, row, rfl⟩ := h
  refine ⟨row.maxEntities, fun l => ?_⟩
  unfold QuotaDb.capOf
  rw [OrderedMap.get?_insert]
  split_ifs
  · rfl
  · rfl

theorem entityCount (h : Founds id owner d d') (l : Uuid) :
    d'.entityCount l = d.entityCount l := by
  obtain ⟨-, name, row, rfl⟩ := h
  rfl

/-- The rows of ids drawn before are left alone. -/
theorem onward (h : Founds id owner d d') : Onward d d' := by
  obtain ⟨cap, hcap⟩ := h.capOf
  have hne : ∀ l ∈ d.issued, l ≠ id := fun l hl heq => h.1 (heq ▸ hl)
  refine ⟨?_, fun l hl => .of_eq ?_, fun l hl => .of_eq ?_, ?_⟩
  · obtain ⟨-, name, row, rfl⟩ := h
    exact List.subset_cons_self _ _
  · rw [h.ownerOf, if_neg (hne l hl)]
  · rw [hcap, if_neg (hne l hl)]
  · obtain ⟨-, name, row, rfl⟩ := h
    rfl

theorem grounded (h : Founds id owner d d') (hd : Grounded d) : Grounded d' := by
  obtain ⟨cap, hcap⟩ := h.capOf
  refine ⟨fun l hl => ?_, fun l => ?_, fun l hl => ?_⟩
  · have hissued : d'.issued = id :: d.issued := by
      obtain ⟨-, name, row, rfl⟩ := h
      rfl
    rw [h.ownerOf] at hl
    rw [hissued]
    split_ifs at hl with heq
    · exact heq ▸ List.mem_cons_self
    · exact List.mem_cons_of_mem id (hd.issued l hl)
  · rw [h.ownerOf, hcap]
    split_ifs
    · simp
    · exact hd.paired l
  · rw [h.ownerOf] at hl
    rw [h.entityCount]
    split_ifs at hl
    exact hd.housed l hl

/-- A drawn id is new, so its row is one more. -/
theorem workspaceCount (h : Founds id owner d d') (hd : Grounded d) (tenant : Uuid) :
    d'.workspaceCount tenant = d.workspaceCount tenant + share owner tenant := by
  have hnone : d.ownerOf id = none := by
    by_contra hsome
    exact h.1 (hd.issued id hsome)
  have hfresh : d.deployment.base.workspaces.get? id = none := Option.map_eq_none_iff.mp hnone
  obtain ⟨-, name, row, rfl⟩ := h
  unfold QuotaDb.workspaceCount share
  rw [OrderedMap.count_insert_of_absent hfresh]
  simp only [decide_eq_true_eq]

end Founds

section Founding

variable {quotas : Uuid → Quotas} {workspace tenant id owner : Uuid} {pt : QuotaPoint}
  {job : QuotaJob}

/-- A transaction is going to found a workspace of `owner`, and has the tenant's membership lock
and room for one. -/
structure Founding (quotas : Uuid → Quotas) (workspace tenant id owner : Uuid)
    (pt : QuotaPoint) : Prop where
  inv : (quotaDiscipline quotas workspace tenant).inv pt.state
  founds : ∀ d d', pt.pending d = .ok d' → Founds id owner d d'
  lock : membershipLock owner ∈ pt.held
  room : owner = tenant → ∀ n, workspaceLimit quotas pt.state.db tenant = some n →
    (pt.state.db.workspaceCount tenant + 1 : Int) ≤ n

theorem drawId_effects (id : Uuid) :
    (drawId id).Effects fun d _ d' => id ∉ d.issued ∧ d' = { d with issued := id :: d.issued } := by
  refine (Script.effects_update (a := ()) (S := fun d d' => id ∉ d.issued ∧
    d' = { d with issued := id :: d.issued }) fun d b d' hok => ⟨rfl, ?_⟩).mono fun _ _ _ h => h.2
  split_ifs at hok with hdrawn
  cases hok
  exact ⟨hdrawn, rfl⟩

/-- Under the tenant's membership lock, the check leaves room for one more. -/
theorem wp_requireWorkspaceRoom {limit : Option Int}
    (hinv : (quotaDiscipline quotas workspace tenant).inv pt.state)
    (hpending : ∀ d d', pt.pending d = .ok d' →
      d'.deployment.base.workspaces = d.deployment.base.workspaces) :
    (onDeployment (requireWorkspaceRoom owner limit)).wp
      (quotaDiscipline quotas workspace tenant) job
      (fun _ pt' => pt.held ⊆ pt'.held ∧
        (quotaDiscipline quotas workspace tenant).Rely pt.held pt.state pt'.state ∧
        pt'.pending = pt.pending ∧ ∀ n, limit = some n → owner = tenant →
          (pt'.state.db.workspaceCount tenant + 1 : Int) ≤ n) pt := by
  cases limit with
  | none => exact ⟨List.Subset.refl _, .refl hinv, rfl, fun n hn => by cases hn⟩
  | some max =>
      unfold onDeployment requireWorkspaceRoom
      simp only [Script.zoom_bind, Script.zoom_acquire, Script.zoom_read, Script.zoom_failIf]
      rw [Script.wp_bind, Script.wp_acquire]
      intro w hw
      rw [Script.wp_bind, Script.wp_read]
      intro w₂ hw₂ v hv _
      rw [Script.wp_failIf]
      intro hbelow
      refine ⟨List.subset_cons_self _ _, hw.trans (hw₂.weaken (List.subset_cons_self _ _)), rfl,
        fun n hn howner => ?_⟩
      cases hn
      subst howner
      rw [hpending w₂.db v hv] at hbelow
      have hcount : ¬max.toNat ≤ w₂.db.workspaceCount owner := hbelow
      change (w₂.db.workspaceCount owner + 1 : Int) ≤ max
      omega

theorem wp_createWorkspaceWithQuota (name : String) (maxEntities : Option Int)
    (schemaId : Option Uuid) {w : State QuotaJob QuotaDb QuotaOutcome}
    (hinv : (quotaDiscipline quotas workspace tenant).inv w) :
    (createWorkspaceWithQuota id owner name maxEntities schemaId (quotas owner).workspaces).wp
      (quotaDiscipline quotas workspace tenant) job
      (fun _ => Founding quotas workspace tenant id owner) ⟨[], [], .ok, w⟩ := by
  unfold createWorkspaceWithQuota
  rw [Script.wp_bind]
  refine Script.wp_effects (drawId_effects id) hinv fun _ held₁ seen₁ pending w₁ _ hw₁ hdrawn => ?_
  have hpending : ∀ d d', pending d = .ok d' →
      id ∉ d.issued ∧ d' = { d with issued := id :: d.issued } := by
    intro d d' hd
    obtain ⟨v, hv, hnew⟩ := hdrawn d d' hd
    cases hv
    exact hnew
  unfold Tenancy.createWorkspaceWithQuota onDeployment
  simp only [Script.zoom_bind, Script.zoom_read, Script.zoom_orFail, Script.zoom_pure]
  rw [Script.wp_bind]
  refine (Script.wp_acquire (membershipLock owner)).mpr fun w₂ hw₂ => ?_
  rw [Script.wp_bind]
  refine Script.wp_quiet (((quiet_requireActive owner).zoom _ _).zoom _ _) hw₂.inv
    fun _ held₃ seen₃ w₃ hheld₃ _ hw₃ => ?_
  rw [Script.wp_bind]
  refine (Script.wp_read _).mpr fun w₄ hw₄ v hv _ => ?_
  rw [Script.wp_bind]
  refine (Script.wp_orFail _ _).mpr fun manual hmanual => ?_
  obtain ⟨_, -, rfl⟩ := Option.map_eq_some_iff.mp hmanual
  obtain ⟨-, rfl⟩ := hpending w₄.db v hv
  have hlock₃ : membershipLock owner ∈ held₃ := hheld₃ List.mem_cons_self
  rw [Script.wp_bind]
  refine Script.wp_mono (wp_requireWorkspaceRoom hw₄.inv fun d d' hd => ?_)
    fun _ pt₅ ⟨hheld₅, hw₅, hpending₅, hroom⟩ => ?_
  · rw [(hpending d d' hd).2]
  rw [Script.wp_bind]
  refine Script.wp_effects ((effects_insertWorkspace id owner name maxEntities schemaId).zoom
    QuotaDb.deployment (fun deployment db => { db with deployment := deployment })
    (fun _ => rfl) (fun _ _ => rfl) fun _ _ _ => rfl) hw₅.inv
    fun _ held₆ seen₆ pending₆ w₆ hheld₆ hw₆ hinserted => ?_
  rw [Script.wp_pure]
  refine ⟨hw₆.inv, fun d d' hd => ?_, hheld₆ (hheld₅ hlock₃), fun howner n hn => ?_⟩
  · obtain ⟨v, hv, d₁, ⟨-, -, rfl⟩, rfl⟩ := hinserted d d' hd
    rw [hpending₅] at hv
    obtain ⟨hfresh, rfl⟩ := hpending d v hv
    exact ⟨hfresh, name, _, rfl⟩
  · -- the limit at the count is the one that was read, and the tenant has not grown since
    have hallowance := (hw₅.onward.trans hw₆.onward).allowance
    subst howner
    unfold workspaceLimit at hn
    rw [hallowance] at hn
    have hle := hroom n hn rfl
    have hcount : w₆.db.workspaceCount owner ≤ pt₅.state.db.workspaceCount owner :=
      (hw₆.keeps _ (hheld₅ hlock₃)).2.1 rfl
    change (w₆.db.workspaceCount owner + 1 : Int) ≤ n
    omega

theorem Founding.commits (h : Founding quotas workspace tenant id owner pt) (name : String)
    (maxEntities : Option Int) (schemaId : Option Uuid) (r : QuotaOutcome) :
    (quotaDiscipline quotas workspace tenant).Commits
      (.createWorkspace id owner name maxEntities schemaId) r pt := by
  intro w hw a ha
  have hfounds := h.founds w.db a ha
  have hcount := hfounds.workspaceCount hw.inv.1 tenant
  have hle : w.db.workspaceCount tenant ≤ a.workspaceCount tenant := by omega
  refine admitted_allows hw.inv
    { entities := fun hpos => absurd hpos (lt_irrefl 0)
      noEntities := fun _ => (hfounds.entityCount workspace).le
      workspaces := fun hpos => ⟨hcount, fun n hn => ?_⟩
      noWorkspaces := fun hzero => ?_
      last := fun hpos => lt_of_lt_of_le hpos hle
      known := fun hpos => absurd hpos (lt_irrefl 0)
      before := hw.inv.1
      after := hfounds.grounded hw.inv.1
      onward := hfounds.onward } (fun _ => rfl) (fun hheld => ?_) fun _ => hle
  · have howner : owner = tenant := by
      by_contra hne
      exact absurd (if_neg hne : share owner tenant = 0) (ne_of_gt hpos)
    subst howner
    have hshare : workspacesAdded owner
        (.createWorkspace id owner name maxEntities schemaId) = 1 := if_pos rfl
    have hlimit : workspaceLimit quotas pt.state.db owner = some n := by
      rw [← hn]
      unfold workspaceLimit
      rw [hw.onward.allowance]
    have hroom := h.room rfl n hlimit
    have hkept : w.db.workspaceCount owner ≤ pt.state.db.workspaceCount owner :=
      (hw.keeps _ h.lock).2.1 rfl
    rw [hshare]
    change (w.db.workspaceCount owner + (1 : Nat) : Int) ≤ n
    omega
  · have hzero' : share owner tenant = 0 := hzero
    exact (hcount.trans (by rw [hzero', Nat.add_zero])).le
  · exact if_neg fun howner : owner = tenant => hheld (howner ▸ h.lock)

end Founding

/-! ## A deleted workspace -/

/-- The changes remove the workspace, with what it holds. -/
def Removes (id : Uuid) (d d' : QuotaDb) : Prop :=
  d' =
    { deployment := { d.deployment with
        base := d.deployment.base.withoutWorkspaces fun l => decide (l = id)
        settings := d.deployment.settings.erase id
        schemas := d.deployment.schemas.erase id }
      contents := d.contents.erase id
      issued := d.issued }

namespace Removes

variable {id tenant : Uuid} {d d' : QuotaDb}

theorem get?_workspaces (h : Removes id d d') (l : Uuid) :
    d'.deployment.base.workspaces.get? l =
      if l = id then none else d.deployment.base.workspaces.get? l := by
  obtain rfl := h
  change (OrderedMap.filter _ _).get? l = _
  rw [OrderedMap.get?_filter]
  cases d.deployment.base.workspaces.get? l with
  | none => simp
  | some row => simp [Option.filter]

theorem ownerOf (h : Removes id d d') (l : Uuid) :
    d'.ownerOf l = if l = id then none else d.ownerOf l := by
  unfold QuotaDb.ownerOf
  rw [h.get?_workspaces]
  split_ifs
  · rfl
  · rfl

theorem capOf (h : Removes id d d') (l : Uuid) :
    d'.capOf l = if l = id then none else d.capOf l := by
  obtain rfl := h
  unfold QuotaDb.capOf
  rw [OrderedMap.get?_erase]
  split_ifs
  · rfl
  · rfl

theorem entityCount (h : Removes id d d') (l : Uuid) :
    d'.entityCount l = if l = id then 0 else d.entityCount l := by
  obtain rfl := h
  unfold QuotaDb.entityCount QuotaDb.contentOf
  rw [OrderedMap.get?_erase]
  split_ifs
  · rfl
  · rfl

theorem entityCount_le (h : Removes id d d') (l : Uuid) : d'.entityCount l ≤ d.entityCount l := by
  rw [h.entityCount]
  split_ifs
  · exact Nat.zero_le _
  · exact le_refl _

theorem onward (h : Removes id d d') : Onward d d' := by
  refine ⟨?_, fun l _ => ?_, fun l _ => ?_, ?_⟩
  · obtain rfl := h
    exact List.Subset.refl _
  · rw [h.ownerOf]
    split_ifs
    · exact Or.inl rfl
    · exact .refl _
  · rw [h.capOf]
    split_ifs
    · exact Or.inl rfl
    · exact .refl _
  · obtain rfl := h
    rfl

theorem grounded (h : Removes id d d') (hd : Grounded d) : Grounded d' := by
  have hissued : d'.issued = d.issued := by
    obtain rfl := h
    rfl
  refine ⟨fun l hl => ?_, fun l => ?_, fun l hl => ?_⟩
  · rw [h.ownerOf] at hl
    rw [hissued]
    split_ifs at hl
    · exact absurd rfl hl
    · exact hd.issued l hl
  · rw [h.ownerOf, h.capOf]
    split_ifs
    · simp
    · exact hd.paired l
  · rw [h.ownerOf] at hl
    rw [h.entityCount]
    split_ifs at hl ⊢
    · rfl
    · exact hd.housed l hl

theorem workspaceCount_le (h : Removes id d d') :
    d'.workspaceCount tenant ≤ d.workspaceCount tenant := by
  refine OrderedMap.count_le_count fun k row hrow hp => ⟨row, ?_, hp⟩
  rw [h.get?_workspaces] at hrow
  split_ifs at hrow
  exact hrow

/-- One row is removed, at most. -/
theorem le_workspaceCount (h : Removes id d d') :
    d.workspaceCount tenant ≤ d'.workspaceCount tenant + 1 := by
  refine (OrderedMap.count_le_count_ne _ _ id).trans (Nat.add_le_add_right ?_ 1)
  refine OrderedMap.count_le_count fun k row hrow hp => ⟨row, ?_, ?_⟩
  · rw [h.get?_workspaces, if_neg (by simpa using (Bool.and_eq_true_iff.mp hp).2)]
    exact hrow
  · exact (Bool.and_eq_true_iff.mp hp).1

/-- The removed row is one of the tenant's, or the tenant's rows are left alone. -/
theorem workspaceCount_of_ne (h : Removes id d d') (hne : d.ownerOf id ≠ some tenant) :
    d.workspaceCount tenant ≤ d'.workspaceCount tenant := by
  refine OrderedMap.count_le_count fun k row hrow hp => ⟨row, ?_, hp⟩
  rw [h.get?_workspaces, if_neg]
  · exact hrow
  · rintro rfl
    refine hne ?_
    unfold QuotaDb.ownerOf
    rw [hrow]
    exact congrArg some (of_decide_eq_true hp)

end Removes

section Removing

variable {quotas : Uuid → Quotas} {workspace tenant id owner : Uuid} {pt : QuotaPoint}
  {job : QuotaJob}

/-- A transaction is going to remove a workspace of `owner`, has the lock of the tenant's count,
and has counted another one. -/
structure Removing (quotas : Uuid → Quotas) (workspace tenant id owner : Uuid)
    (pt : QuotaPoint) : Prop where
  inv : (quotaDiscipline quotas workspace tenant).inv pt.state
  removes : ∀ d d', pt.pending d = .ok d' → Removes id d d'
  lock : workspaceCountLockKey owner ∈ pt.held
  known : id ∈ pt.state.db.issued
  owned : Stays (some owner) (pt.state.db.ownerOf id)
  several : owner = tenant → 1 < pt.state.db.workspaceCount tenant

theorem wp_deleteWorkspaceAs (forked : Bool) (actor : AuthContext)
    {w : State QuotaJob QuotaDb QuotaOutcome}
    (hinv : (quotaDiscipline quotas workspace tenant).inv w) :
    (deleteWorkspaceAs forked actor id).wp (quotaDiscipline quotas workspace tenant) job
      (fun _ pt => ∃ owner, Removing quotas workspace tenant id owner pt) ⟨[], [], .ok, w⟩ := by
  unfold deleteWorkspaceAs Tenancy.deleteWorkspaceAs Tenancy.deleteWorkspace onDeployment onBase
  simp only [Script.zoom_bind, Script.zoom_read, Script.zoom_orFail, Script.zoom_acquire,
    Script.zoom_failIf, Script.zoom_update]
  rw [Script.wp_bind, Script.wp_bind]
  refine Script.wp_quiet (((quiet_requireCurrentTenantAdmin actor).zoom _ _).zoom _ _) hinv
    fun _ held₁ seen₁ w₁ _ _ hw₁ => ?_
  rw [Script.wp_bind]
  refine Script.wp_quiet (((quiet_getWorkspaceTenant id).zoom _ _).zoom _ _) hw₁.inv
    fun found held₂ seen₂ w₂ _ _ hw₂ => ?_
  rw [Script.wp_bind]
  refine (Script.wp_failIf _ _).mpr fun _ => ?_
  rw [Script.wp_bind]
  refine (Script.wp_read _).mpr fun w₃ hw₃ v hv _ => ?_
  cases hv
  rw [Script.wp_bind]
  refine (Script.wp_orFail _ _).mpr fun row hrow => ?_
  have howner : w₃.db.ownerOf id = some row.tenantId := congrArg (Option.map Workspace.tenantId) hrow
  have hknown : id ∈ w₃.db.issued := hw₃.inv.1.issued id (by
    rw [howner]
    exact Option.some_ne_none _)
  rw [Script.wp_bind]
  refine (Script.wp_acquire (workspaceCountLockKey row.tenantId)).mpr fun w₄ hw₄ => ?_
  rw [Script.wp_bind]
  refine (Script.wp_read _).mpr fun w₅ hw₅ v hv _ => ?_
  cases hv
  rw [Script.wp_bind]
  refine (Script.wp_failIf _ _).mpr fun hseveral => ?_
  rw [Script.wp_bind]
  refine (Script.wp_failIf _ _).mpr fun _ => (Script.wp_update _).mpr fun w₆ hw₆ _ _ _ _ _ _ => ?_
  refine (Script.wp_update _).mpr fun w₇ hw₇ _ _ _ _ _ _ => ⟨row.tenantId, hw₇.inv, fun d d' hd => ?_,
    List.mem_cons_self, ?_, ?_, fun heq => ?_⟩
  · cases hd
    rfl
  · exact hw₇.onward.issued (hw₆.onward.issued (hw₅.onward.issued (hw₄.onward.issued hknown)))
  · have honward := ((hw₄.onward.trans hw₅.onward).trans hw₆.onward).trans hw₇.onward
    exact howner ▸ honward.owner id hknown
  · subst heq
    have hcount : 1 < w₅.db.workspaceCount row.tenantId := not_le.mp hseveral
    have hkept : w₅.db.workspaceCount row.tenantId ≤ w₇.db.workspaceCount row.tenantId :=
      ((hw₆.keeps _ List.mem_cons_self).2.2 rfl).trans ((hw₇.keeps _ List.mem_cons_self).2.2 rfl)
    exact lt_of_lt_of_le hcount hkept

theorem Removing.commits (h : Removing quotas workspace tenant id owner pt) (forked : Bool)
    (actor : AuthContext) (r : QuotaOutcome) :
    (quotaDiscipline quotas workspace tenant).Commits (.deleteWorkspace forked actor id) r pt := by
  intro w hw a ha
  have hremoves := h.removes w.db a ha
  -- a workspace that is another tenant's is none of this one's
  have hother : owner ≠ tenant → w.db.workspaceCount tenant ≤ a.workspaceCount tenant := by
    intro hne
    refine hremoves.workspaceCount_of_ne fun heq => ?_
    have howned := h.owned.trans (hw.onward.owner id h.known)
    rw [heq] at howned
    rcases howned with hnone | hsame
    · cases hnone
    · exact hne (Option.some.inj hsame).symm
  refine admitted_allows hw.inv
    { entities := fun hpos => absurd hpos (lt_irrefl 0)
      noEntities := fun _ => hremoves.entityCount_le workspace
      workspaces := fun hpos => absurd hpos (lt_irrefl 0)
      noWorkspaces := fun _ => hremoves.workspaceCount_le
      last := fun hpos => ?_
      known := fun hpos => absurd hpos (lt_irrefl 0)
      before := hw.inv.1
      after := hremoves.grounded hw.inv.1
      onward := hremoves.onward } (fun _ => rfl) (fun _ => rfl) fun hheld => hother fun heq =>
        hheld (heq ▸ h.lock)
  by_cases howner : owner = tenant
  · subst howner
    have hseveral := h.several rfl
    have hkept : pt.state.db.workspaceCount owner ≤ w.db.workspaceCount owner :=
      (hw.keeps _ h.lock).2.2 rfl
    have hle : w.db.workspaceCount owner ≤ a.workspaceCount owner + 1 := hremoves.le_workspaceCount
    change 0 < a.workspaceCount owner
    omega
  · exact lt_of_lt_of_le hpos (hother howner)

end Removing

/-! ## Every interleaving -/

section Runs

variable {quotas : Uuid → Quotas}

theorem verified_code (quotas : Uuid → Quotas) (workspace tenant : Uuid) :
    Verified (quotaDiscipline quotas workspace tenant) (QuotaJob.code quotas) := by
  intro job w hw
  cases job with
  | createEntity cx owner input createdBy id stamp =>
      unfold QuotaJob.code
      rw [Script.wp_bind]
      refine Script.wp_mono (wp_requireWorkspace w) fun _ pt hpt => ?_
      rw [Script.wp_bind]
      refine Script.wp_mono (wp_createWithQuota cx input createdBy id stamp hpt) fun _ _ hpt' => ?_
      exact hpt'.commits (Nat.zero_add _).symm rfl
  | importJsonl cx owner importedBy lines given =>
      unfold QuotaJob.code importWithQuota
      rw [Script.wp_bind]
      refine Script.wp_mono (wp_requireWorkspace w) fun _ pt hpt => ?_
      have hstart : importShare cx.workspaceId workspace .start = 0 := by
        unfold importShare
        split_ifs
        · rfl
        · rfl
      rw [Script.wp_bind]
      refine Script.wp_mono (wp_importLines cx importedBy given _ .start (hstart.symm ▸ hpt))
        fun p pt' hpt' => ?_
      exact hpt'.commits rfl rfl
  | deleteEntity owner home id =>
      unfold QuotaJob.code
      rw [Script.wp_bind]
      refine Script.wp_quiet (quiet_requireWorkspace owner home) hw fun _ held₁ seen₁ w₁ _ _ hw₁ => ?_
      rw [Script.wp_bind]
      refine Script.wp_effects (deleteEntity_effects home id) hw₁.inv
        fun _ held seen pending w₂ _ hw₂ hpending => ?_
      intro w₃ hw₃ a ha
      obtain ⟨v, hv, hdrops⟩ := hpending w₃.db a ha
      cases hv
      exact hdrops.allows hw₃.inv rfl rfl
  | createWorkspace id owner name maxEntities schemaId =>
      unfold QuotaJob.code
      rw [Script.wp_bind]
      exact Script.wp_mono (wp_createWorkspaceWithQuota name maxEntities schemaId hw)
        fun _ _ hpt => hpt.commits name maxEntities schemaId _
  | deleteWorkspace forked actor id =>
      unfold QuotaJob.code
      rw [Script.wp_bind]
      refine Script.wp_mono (wp_deleteWorkspaceAs forked actor hw) fun _ pt hpt => ?_
      obtain ⟨owner, hpt⟩ := hpt
      exact hpt.commits forked actor _

theorem tame_passTime (quotas : Uuid → Quotas) (workspace tenant : Uuid) :
    Tame (quotaDiscipline quotas workspace tenant) passTime := by
  intro n w hw
  have hdrops : Drops w.db (passTime n w.db) := ⟨⟨rfl, rfl, fun _ => rfl, rfl⟩, fun _ => le_refl _⟩
  exact ⟨⟨hdrops.grounded hw.1 fun id _ => hdrops.count id, hw.2⟩, hdrops.onward,
    fun _ _ => ⟨fun _ => le_refl _, fun _ => le_refl _, fun _ => le_refl _⟩⟩

variable {db : QuotaDb} {is : List (Event QuotaJob Nat)}

theorem sound_quotaRun (hdb : Grounded db) (workspace tenant : Uuid) :
    (run (quotaStep quotas) (Server.init db) is).Sound
      (quotaDiscipline quotas workspace tenant) :=
  Server.sound_run (verified_code quotas workspace tenant) (tame_passTime quotas workspace tenant)
    ⟨hdb, fun _ he => by cases he⟩
    (Server.stepsMeet (D := quotaDiscipline quotas workspace tenant) (fun _ _ _ => trivial) _ is)

theorem admitted_run (hdb : Grounded db) (workspace tenant : Uuid) :
    ∀ e ∈ (run (quotaStep quotas) (Server.init db) is).state.log,
      Admitted quotas workspace tenant e :=
  (sound_quotaRun hdb workspace tenant).inv.2

/-- What time and the commits of the run keep. -/
theorem kept_by_log {Q : QuotaDb → Prop} (htime : ∀ n d, Q d → Q (passTime n d)) (hdb : Q db)
    (hlog : ∀ e ∈ (run (quotaStep quotas) (Server.init db) is).state.log, Q e.before → Q e.after) :
    Q (run (quotaStep quotas) (Server.init db) is).state.db :=
  Server.log_invariant htime hdb hlog

/-- The count of a workspace is within its limit, or not above what it was at first. -/
theorem entityCount_run (hdb : Grounded db) {workspace : Uuid} {m : Int}
    (hm : entityLimit quotas (run (quotaStep quotas) (Server.init db) is).state.db workspace =
      some m) :
    ((run (quotaStep quotas) (Server.init db) is).state.db.entityCount workspace : Int) ≤
      max m (db.entityCount workspace) := by
  refine kept_by_log
    (Q := fun d => ∀ m, entityLimit quotas d workspace = some m →
      (d.entityCount workspace : Int) ≤ max m (db.entityCount workspace))
    (fun _ _ h => h) (fun m _ => le_max_right _ _) (fun e he hbefore m hm => ?_) m hm
  have hadmitted := admitted_run hdb workspace workspace e he
  by_cases hknown : workspace ∈ e.before.issued
  · have hlimit := hadmitted.onward.entityLimit hknown hm
    by_cases hzero : entitiesAdded workspace e.job e.result = 0
    · have hle := hadmitted.noEntities hzero
      have hold := hbefore m hlimit
      omega
    · obtain ⟨hcount, hroom⟩ := hadmitted.entities (Nat.pos_of_ne_zero hzero)
      have hle := hroom m hlimit
      omega
  · -- a workspace whose id was not drawn held nothing, and nothing was added to it
    have hzero : entitiesAdded workspace e.job e.result = 0 := by
      by_contra hne
      exact hknown (hadmitted.known (Nat.pos_of_ne_zero hne))
    have hempty : e.before.entityCount workspace = 0 := by
      refine hadmitted.before.housed workspace ?_
      by_contra hsome
      exact hknown (hadmitted.before.issued workspace hsome)
    have hle := hadmitted.noEntities hzero
    omega

theorem workspaceCount_run (hdb : Grounded db) {tenant : Uuid} {n : Int}
    (hn : workspaceLimit quotas (run (quotaStep quotas) (Server.init db) is).state.db tenant =
      some n) :
    ((run (quotaStep quotas) (Server.init db) is).state.db.workspaceCount tenant : Int) ≤
      max n (db.workspaceCount tenant) := by
  refine kept_by_log
    (Q := fun d => ∀ n, workspaceLimit quotas d tenant = some n →
      (d.workspaceCount tenant : Int) ≤ max n (db.workspaceCount tenant))
    (fun _ _ h => h) (fun n _ => le_max_right _ _) (fun e he hbefore n hn => ?_) n hn
  have hadmitted := admitted_run hdb tenant tenant e he
  have hlimit : workspaceLimit quotas e.before tenant = some n := by
    rw [← hn]
    unfold workspaceLimit
    rw [hadmitted.onward.allowance]
  by_cases hzero : workspacesAdded tenant e.job = 0
  · have hle := hadmitted.noWorkspaces hzero
    have hold := hbefore n hlimit
    omega
  · obtain ⟨hcount, hroom⟩ := hadmitted.workspaces (Nat.pos_of_ne_zero hzero)
    have hle := hroom n hlimit
    omega

/-- A tenant that has a workspace keeps one. -/
theorem workspaceCount_pos (hdb : Grounded db) {tenant : Uuid}
    (hpos : 0 < db.workspaceCount tenant) :
    0 < (run (quotaStep quotas) (Server.init db) is).state.db.workspaceCount tenant :=
  kept_by_log (Q := fun d => 0 < d.workspaceCount tenant) (fun _ _ h => h) hpos fun e he hbefore =>
      (admitted_run hdb tenant tenant e he).last hbefore

/-- **Quotas hold under concurrency.** In every interleaving, a commit that adds entities or
workspaces found room for them below the limit; no count grows beyond its limit; and no tenant
loses its last workspace. -/
theorem quotas_hold (quotas : Uuid → Quotas) {db : QuotaDb} (hdb : Grounded db)
    (is : List (Event QuotaJob Nat)) :
    let s := run (quotaStep quotas) (Server.init db) is
    (∀ e ∈ s.state.log, ∀ workspace tenant, WithinQuotas quotas workspace tenant e) ∧
    (∀ workspace m, entityLimit quotas s.state.db workspace = some m →
      (s.state.db.entityCount workspace : Int) ≤ max m (db.entityCount workspace)) ∧
    (∀ tenant n, workspaceLimit quotas s.state.db tenant = some n →
      (s.state.db.workspaceCount tenant : Int) ≤ max n (db.workspaceCount tenant)) ∧
    ∀ tenant, 0 < db.workspaceCount tenant → 0 < s.state.db.workspaceCount tenant :=
  ⟨fun e he workspace tenant => (admitted_run hdb workspace tenant e he).toWithinQuotas,
    fun _ _ hm => entityCount_run hdb hm, fun _ _ hn => workspaceCount_run hdb hn,
    fun _ hpos => workspaceCount_pos hdb hpos⟩

end Runs

/-- A tenant that may have two workspaces, and has one. -/
def singleWorkspace : QuotaDb where
  deployment :=
    { Deployment.empty 0 with
      base := { (Db.empty 0).addTenant 1 "acme" with
        workspaces := OrderedMap.empty.insert 2 ⟨1, "main"⟩ }
      maxWorkspaces := OrderedMap.empty.insert 1 2
      settings := OrderedMap.empty.insert 2 ⟨true, none, some 1⟩ }
  contents := .empty
  issued := [2]

theorem grounded_singleWorkspace : Grounded singleWorkspace := by
  have howner : ∀ id, singleWorkspace.ownerOf id = if id = 2 then some 1 else none := by
    intro id
    unfold QuotaDb.ownerOf singleWorkspace
    rw [OrderedMap.get?_insert]
    split_ifs
    · rfl
    · rfl
  have hcap : ∀ id, singleWorkspace.capOf id = if id = 2 then some (some 1) else none := by
    intro id
    unfold QuotaDb.capOf singleWorkspace
    rw [OrderedMap.get?_insert]
    split_ifs
    · rfl
    · rfl
  refine ⟨fun id hid => ?_, fun id => ?_, fun id _ => rfl⟩
  · rw [howner] at hid
    split_ifs at hid with heq
    · exact heq ▸ List.mem_cons_self
    · exact absurd rfl hid
  · rw [howner, hcap]
    split_ifs
    · simp
    · simp

/-- Two more are being created, statement by statement in turn. -/
def creations : List (Event QuotaJob Nat) :=
  [.start 0 (.createWorkspace 3 1 "north" none none),
    .start 1 (.createWorkspace 4 1 "south" none none)] ++
    (List.replicate 20 [.step 0, .step 1]).flatten

/-- One of the creations goes through. -/
theorem quotas_hold_creations :
    (run (quotaStep fun _ => ⟨none, none⟩) (Server.init singleWorkspace) creations).state.log.length =
      1 ∧
    ∀ tenant n, workspaceLimit (fun _ => ⟨none, none⟩)
        (run (quotaStep fun _ => ⟨none, none⟩) (Server.init singleWorkspace) creations).state.db
        tenant = some n →
      ((run (quotaStep fun _ => ⟨none, none⟩) (Server.init singleWorkspace)
        creations).state.db.workspaceCount tenant : Int) ≤
        max n (singleWorkspace.workspaceCount tenant) :=
  ⟨by set_option maxRecDepth 4096 in decide,
    (quotas_hold (fun _ => ⟨none, none⟩) grounded_singleWorkspace creations).2.2.1⟩

end Yorishiro.Quota
