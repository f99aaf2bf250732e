import Yorishiro.Metaschema.Compatibility
import Yorishiro.Schema.Catalog

/-!
# The graph of forks

Every stored fork is an edge from its workspace to its source workspace. `create` searches the
edges of the tenant for a way back from the source before it adds one; the workspaces of a fork
are of its tenant, so the search sees every edge that matters (`reaches_iff`), and it always
comes to an end (`closesCycle_eq_some`).

`forks_acyclic` is the result: whatever operations succeed, from a catalog without forks, the
graph has no cycle.
-/

set_option autoImplicit false

namespace Yorishiro.Schema

open Yorishiro.Lib Yorishiro.Lib.JsonSchema Yorishiro.Lib.Transition Yorishiro.Metaschema

/-- The edges of the stored forks. -/
def Forks.edge (forks : Forks) (v w : Uuid) : Prop :=
  ∃ id fork, forks.get? id = some fork ∧ fork.workspaceId = v ∧ fork.sourceWorkspaceId = w

/-! ## The search -/

theorem mem_forkEdges {forks : Forks} {tenantId v w : Uuid} :
    w ∈ forkEdges forks tenantId v ↔ ∃ id fork, forks.get? id = some fork ∧
      fork.tenantId = tenantId ∧ fork.workspaceId = v ∧ fork.sourceWorkspaceId = w := by
  unfold forkEdges
  rw [List.mem_map]
  constructor
  · rintro ⟨⟨id, fork⟩, hentry, rfl⟩
    obtain ⟨hmem, hselected⟩ := List.mem_filter.mp hentry
    obtain ⟨htenant, hworkspace⟩ := Bool.and_eq_true_iff.mp hselected
    exact ⟨id, fork, (forks.rows.mem_entries_iff id fork).mp hmem, of_decide_eq_true htenant,
      of_decide_eq_true hworkspace, rfl⟩
  · rintro ⟨id, fork, hfork, rfl, rfl, rfl⟩
    refine ⟨(id, fork), List.mem_filter.mpr ⟨(forks.rows.mem_entries_iff id fork).mpr hfork, ?_⟩, rfl⟩
    simp

/-- **The search ends and is right**, on the edges of any forks. -/
theorem closesCycle_eq_some (forks : Forks) (tenantId workspaceId sourceWorkspaceId : Uuid) :
    ∃ answer, closesCycle forks tenantId workspaceId sourceWorkspaceId = some answer ∧
      (answer = true ↔ Reaches (forkEdges forks tenantId) sourceWorkspaceId workspaceId) := by
  have hnodes : (forkingWorkspaces forks).Nodup := List.nodup_dedup _
  have hedges : ∀ v, v ∉ forkingWorkspaces forks → forkEdges forks tenantId v = [] := by
    intro v hv
    refine List.eq_nil_iff_forall_not_mem.mpr fun w hw => hv ?_
    obtain ⟨id, fork, hfork, -, rfl, -⟩ := mem_forkEdges.mp hw
    exact List.mem_dedup.mpr (List.mem_map.mpr
      ⟨(id, fork), (forks.rows.mem_entries_iff id fork).mpr hfork, rfl⟩)
  obtain ⟨answer, hanswer⟩ :=
    Option.isSome_iff_exists.mp (walk_isSome hnodes hedges workspaceId sourceWorkspaceId)
  exact ⟨answer, hanswer, walk_eq_some_iff hanswer⟩

/-! ## What operations do to forks -/

/-- **What an operation can do to the forks.** The workspaces and the tenant of a fork never
change; a new fork is one of two workspaces of its tenant, and the search found no cycle. -/
inductive ForkEffect (c c' : Catalog) : Prop where
  | keeps (hback : ∀ id fork', c'.forks.get? id = some fork' → ∃ fork, c.forks.get? id = some fork ∧
      fork'.tenantId = fork.tenantId ∧ fork'.workspaceId = fork.workspaceId ∧
      fork'.sourceWorkspaceId = fork.sourceWorkspaceId)
  | creates (forkId : Uuid) (fork : Fork)
      (hget : ∀ l, c'.forks.get? l = if l = forkId then some fork else c.forks.get? l)
      (htarget : c.belongs fork.tenantId fork.workspaceId = true)
      (hsource : c.belongs fork.tenantId fork.sourceWorkspaceId = true)
      (hsearch : closesCycle c.forks fork.tenantId fork.workspaceId fork.sourceWorkspaceId =
        some false)

theorem ForkEffect.of_eq {c c' : Catalog} (h : c'.forks = c.forks) : ForkEffect c c' :=
  .keeps fun _ fork' hfork => ⟨fork', h ▸ hfork, rfl, rfl, rfl⟩

/-- Workspaces stay in their tenants. -/
def Stays (c c' : Catalog) : Prop :=
  ∀ tenantId workspaceId, c.belongs tenantId workspaceId = true →
    c'.belongs tenantId workspaceId = true

/-- A workspace whose row is written keeps its tenant. -/
theorem belongs_insert {c : Catalog} {id : Uuid} {space : Space}
    (hspace : c.spaces.get? id = some space) (space' : Space)
    (htenant : space'.tenantId = space.tenantId) (tenantId workspaceId : Uuid) :
    ({ c with spaces := c.spaces.insert id space' } : Catalog).belongs tenantId workspaceId =
      c.belongs tenantId workspaceId := by
  unfold Catalog.belongs
  rw [OrderedMap.get?_insert]
  split_ifs with hid
  · rw [hid, hspace, Option.any_some, Option.any_some, htenant]
  · rfl

theorem belongs_setSchemas {c : Catalog} {id : Uuid} {space : Space}
    (hspace : c.spaces.get? id = some space) (schemas : Schemas) (tenantId workspaceId : Uuid) :
    (c.setSchemas id space schemas).belongs tenantId workspaceId = c.belongs tenantId workspaceId :=
  belongs_insert hspace { space with schemas := schemas } rfl tenantId workspaceId

section Effects

variable {env : Dialect} {display : ℚ → String} {c c' : Catalog} {tenantId workspaceId : Uuid}

theorem insertForkHead_frame {definition : MetaSchemaDefinition} {id : Uuid} {row : SchemaRecord}
    (h : c.insertForkHead env display tenantId workspaceId definition id = .ok (c', row)) :
    c'.forks = c.forks ∧ ∀ t w, c'.belongs t w = c.belongs t w := by
  obtain ⟨space, schemas, hspace, -, -, rfl⟩ := Catalog.insertForkHead_eq_ok h
  exact ⟨rfl, belongs_setSchemas hspace schemas⟩

theorem createFork_effect {fresh : NewFork} {input : CreateInput} {record : ForkRecord}
    (h : createFork env display c fresh tenantId workspaceId input = .ok (c', record)) :
    Stays c c' ∧ ForkEffect c c' := by
  obtain ⟨hsearch, source, fork, -, hstore⟩ := createFork_eq_ok h
  obtain ⟨c₁, row, forks, hhead, rfl, rfl, hsource, -, hintegrity, hforks, hrow⟩ :=
    storeFork_eq_ok hstore
  obtain ⟨hforks₁, hbelongs₁⟩ := insertForkHead_frame hhead
  obtain ⟨-, heads, -, rfl⟩ := insertHeadRow_eq_ok hrow
  obtain ⟨htarget, horigin, -⟩ := checkForkIntegrity_eq_ok hintegrity
  rw [← hsource] at hsearch
  rw [hbelongs₁] at htarget horigin
  refine ⟨fun t w hw => (hbelongs₁ t w).trans hw, .creates fresh.forkId fork (fun l => ?_) htarget
    horigin hsearch⟩
  rw [← hforks₁]
  exact Table.get?_insert hforks l

theorem updateFork_effect {fresh : NewFork} {forkId : Uuid} {input : UpdateInput}
    {record : ForkRecord}
    (h : updateFork env display c fresh tenantId workspaceId forkId input = .ok (c', record)) :
    Stays c c' ∧ ForkEffect c c' := by
  obtain ⟨fork, definition, source, hfork, -, hstore⟩ := updateFork_eq_ok h
  obtain ⟨c₁, row, forks, n, hhead, hforks, -, hrow⟩ := storeHead_eq_ok hstore
  obtain ⟨hforks₁, hbelongs₁⟩ := insertForkHead_frame hhead
  obtain ⟨-, heads, -, rfl⟩ := insertHeadRow_eq_ok hrow
  refine ⟨fun t w hw => (hbelongs₁ t w).trans hw, .keeps fun id fork' hfork' => ?_⟩
  change forks.get? id = some fork' at hfork'
  rcases Table.updateRow_eq_ok hforks with ⟨_, -, -, -, hreplaces⟩ | ⟨-, -, rfl⟩
  · by_cases hid : id = forkId
    · subst hid
      rw [hreplaces.get?_self] at hfork'
      cases hfork'
      exact ⟨fork, hfork, rfl, rfl, rfl⟩
    · rw [hreplaces.get?_ne hid, hforks₁] at hfork'
      exact ⟨fork', hfork', rfl, rfl, rfl⟩
  · rw [hforks₁] at hfork'
    exact ⟨fork', hfork', rfl, rfl, rfl⟩

/-- **Every operation does so.** -/
theorem apply_forks {op : CatalogOp} (h : c.apply env display op = .ok c') :
    Stays c c' ∧ ForkEffect c c' := by
  cases op with
  | createSchema id tenantId workspaceId definition originTemplateId originSnapshot =>
      obtain ⟨⟨c₁, row, versioning⟩, hcreate, rfl⟩ := Except.map_eq_ok h
      obtain ⟨space, schemas, workspace, hspace, -, -, rfl⟩ := Catalog.createSchema_eq_ok hcreate
      have hplaced := belongs_insert hspace ⟨space.tenantId, workspace, schemas⟩ rfl
      exact ⟨fun t w hw => (hplaced t w).trans hw, .of_eq rfl⟩
  | archive workspaceId id =>
      obtain ⟨⟨c₁, row⟩, harchive, rfl⟩ := Except.map_eq_ok h
      obtain ⟨space, schemas, hspace, -, rfl⟩ := Catalog.archive_eq_ok harchive
      exact ⟨fun t w hw => (belongs_setSchemas hspace schemas t w).trans hw, .of_eq rfl⟩
  | deleteSchema workspaceId id =>
      obtain ⟨space, schema, hspace, -, -, -, rfl⟩ := Catalog.deleteSchema_eq_ok h
      exact ⟨fun t w hw => (belongs_setSchemas hspace _ t w).trans hw, .of_eq rfl⟩
  | createFork fresh tenantId workspaceId input =>
      obtain ⟨⟨c₁, record⟩, hcreate, rfl⟩ := Except.map_eq_ok h
      exact createFork_effect hcreate
  | updateFork fresh tenantId workspaceId forkId input =>
      obtain ⟨⟨c₁, record⟩, hupdate, rfl⟩ := Except.map_eq_ok h
      exact updateFork_effect hupdate
  | deleteFork tenantId workspaceId forkId =>
      rw [deleteFork_eq_ok h]
      refine ⟨fun _ _ hw => hw, .keeps fun id fork' hfork' => ?_⟩
      change (c.forks.delete forkId).get? id = some fork' at hfork'
      rw [Table.get?_delete] at hfork'
      split_ifs at hfork'
      exact ⟨fork', hfork', rfl, rfl, rfl⟩
  | addWorkspace id tenantId maxEntities =>
      obtain ⟨_, hfree, h⟩ := Except.bind_eq_ok.mp h
      cases h
      refine ⟨fun t w hw => ?_, .of_eq rfl⟩
      unfold Catalog.belongs at hw ⊢
      cases hspace : c.spaces.get? w with
      | none => simp [hspace] at hw
      | some space =>
          have habsent := Option.isNone_iff_eq_none.mp (require_eq_ok.mp hfree)
          rw [OrderedMap.get?_insert_of_absent habsent _ hspace]
          rw [hspace] at hw
          exact hw
  | refer kind id reference =>
      obtain ⟨_, -, h⟩ := Except.bind_eq_ok.mp h
      cases h
      cases kind with
      | entity => exact ⟨fun _ _ hw => hw, .of_eq rfl⟩
      | snapshot => exact ⟨fun _ _ hw => hw, .of_eq rfl⟩
      | proposal => exact ⟨fun _ _ hw => hw, .of_eq rfl⟩
  | forget kind id =>
      cases h
      cases kind with
      | entity => exact ⟨fun _ _ hw => hw, .of_eq rfl⟩
      | snapshot => exact ⟨fun _ _ hw => hw, .of_eq rfl⟩
      | proposal => exact ⟨fun _ _ hw => hw, .of_eq rfl⟩
  | tick n =>
      cases h
      exact ⟨fun _ _ hw => hw, .of_eq rfl⟩

end Effects

/-! ## No cycles -/

/-- **What holds of the forks.** The workspaces of a fork are of its tenant, and there is no
cycle. -/
structure ForksInv (c : Catalog) : Prop where
  target : ∀ id fork, c.forks.get? id = some fork →
    c.belongs fork.tenantId fork.workspaceId = true
  source : ∀ id fork, c.forks.get? id = some fork →
    c.belongs fork.tenantId fork.sourceWorkspaceId = true
  acyclic : Acyclic c.forks.edge

theorem belongs_unique {c : Catalog} {t t' w : Uuid} (h : c.belongs t w = true)
    (h' : c.belongs t' w = true) : t = t' := by
  unfold Catalog.belongs at h h'
  cases hspace : c.spaces.get? w with
  | none => simp [hspace] at h
  | some space =>
      rw [hspace, Option.any_some] at h h'
      exact (of_decide_eq_true h).symm.trans (of_decide_eq_true h')

/-- A path that begins in a tenant runs along its edges. -/
theorem ForksInv.reaches_iff {c : Catalog} (h : ForksInv c) {tenantId v w : Uuid}
    (hv : c.belongs tenantId v = true) :
    Reaches (forkEdges c.forks tenantId) v w ↔ Relation.ReflTransGen c.forks.edge v w := by
  constructor
  · intro hpath
    refine Relation.ReflTransGen.mono (fun a b hedge => ?_) _ _ hpath
    obtain ⟨id, fork, hfork, -, hworkspace, hsource⟩ := mem_forkEdges.mp hedge
    exact ⟨id, fork, hfork, hworkspace, hsource⟩
  · intro hpath
    -- the tenant goes along the path, and the search with it
    have hboth : Reaches (forkEdges c.forks tenantId) v w ∧ c.belongs tenantId w = true := by
      induction hpath with
      | refl => exact ⟨Relation.ReflTransGen.refl, hv⟩
      | tail _ hedge ih =>
          obtain ⟨id, fork, hfork, rfl, rfl⟩ := hedge
          obtain ⟨hsofar, hplace⟩ := ih
          have htenant : fork.tenantId = tenantId := belongs_unique (h.target id fork hfork) hplace
          refine ⟨hsofar.tail (mem_forkEdges.mpr ⟨id, fork, hfork, htenant, rfl, rfl⟩), ?_⟩
          rw [← htenant]
          exact h.source id fork hfork
    exact hboth.1

/-- What the search answers, for two workspaces of the tenant. -/
theorem ForksInv.closesCycle_iff {c : Catalog} (h : ForksInv c) {tenantId source : Uuid}
    (hsource : c.belongs tenantId source = true) (workspaceId : Uuid) {answer : Bool}
    (hanswer : closesCycle c.forks tenantId workspaceId source = some answer) :
    answer = true ↔ ¬Acyclic (withEdge c.forks.edge workspaceId source) := by
  obtain ⟨answer', hanswer', hiff⟩ := closesCycle_eq_some c.forks tenantId workspaceId source
  obtain rfl : answer = answer' := Option.some.inj (hanswer.symm.trans hanswer')
  rw [hiff, h.reaches_iff hsource, acyclic_insert_iff h.acyclic, not_not]

theorem ForksInv.step {env : Dialect} {display : ℚ → String} {c : Catalog} (h : ForksInv c)
    (op : CatalogOp) : ForksInv (c.step env display op) := by
  rcases c.step_cases env display op with heq | ⟨c', happly, heq⟩
  · rw [heq]
    exact h
  · rw [heq]
    obtain ⟨hstays, heffect⟩ := apply_forks happly
    cases heffect with
    | keeps hback =>
        refine ⟨fun id fork' hfork' => ?_, fun id fork' hfork' => ?_, fun v hcycle => ?_⟩
        · obtain ⟨fork, hfork, htenant, hworkspace, -⟩ := hback id fork' hfork'
          rw [htenant, hworkspace]
          exact hstays _ _ (h.target id fork hfork)
        · obtain ⟨fork, hfork, htenant, -, hsource⟩ := hback id fork' hfork'
          rw [htenant, hsource]
          exact hstays _ _ (h.source id fork hfork)
        · refine h.acyclic v (Relation.TransGen.mono (fun a b hedge => ?_) _ _ hcycle)
          obtain ⟨id, fork', hfork', rfl, rfl⟩ := hedge
          obtain ⟨fork, hfork, -, hworkspace, hsource⟩ := hback id fork' hfork'
          exact ⟨id, fork, hfork, hworkspace.symm, hsource.symm⟩
    | creates id fork hget htarget hsource hsearch =>
        refine ⟨fun l fork' hfork' => ?_, fun l fork' hfork' => ?_, fun v hcycle => ?_⟩
        · rw [hget l] at hfork'
          split_ifs at hfork' with hl
          · cases hfork'
            exact hstays _ _ htarget
          · exact hstays _ _ (h.target l fork' hfork')
        · rw [hget l] at hfork'
          split_ifs at hfork' with hl
          · cases hfork'
            exact hstays _ _ hsource
          · exact hstays _ _ (h.source l fork' hfork')
        · have hopen : Acyclic (withEdge c.forks.edge fork.workspaceId fork.sourceWorkspaceId) := by
            by_contra hclosed
            exact Bool.false_ne_true ((h.closesCycle_iff hsource _ hsearch).mpr hclosed)
          refine hopen v (Relation.TransGen.mono (fun a b hedge => ?_) _ _ hcycle)
          obtain ⟨l, fork', hfork', rfl, rfl⟩ := hedge
          rw [hget l] at hfork'
          split_ifs at hfork' with hl
          · cases hfork'
            exact Or.inr ⟨rfl, rfl⟩
          · exact Or.inl ⟨l, fork', hfork', rfl, rfl⟩

/-- The catalog without its forks. -/
def Catalog.unforked (c : Catalog) : Catalog := { c with forks := .empty, heads := .empty }

theorem forksInv_unforked (c : Catalog) : ForksInv c.unforked where
  target := fun id fork hfork => by cases hfork
  source := fun id fork hfork => by cases hfork
  acyclic := by
    intro v hcycle
    obtain ⟨w, ⟨id, fork, hfork, -⟩, -⟩ := Relation.TransGen.head'_iff.mp hcycle
    cases hfork

theorem forksInv_run (env : Dialect) (display : ℚ → String) (c : Catalog) (ops : List CatalogOp) :
    ForksInv (run (Catalog.step env display) c.unforked ops) := by
  have hmeet : StepsMeet (Catalog.step env display) (fun _ _ => True) c.unforked ops :=
    StepsMeet.of_forall (fun _ _ => trivial) _ _
  exact run_invariant ForksInv (fun _ op h _ => h.step op) (forksInv_unforked c) hmeet

/-- **The fork graph stays acyclic.** After any operations, from any catalog without forks,
there is no cycle, and for a source in the tenant the search answers exactly whether the new
edge would close one. On the edges of any forks at all, cycles among them or not, the search
comes to an end and answers whether there is a way back. -/
theorem forks_acyclic (env : Dialect) (display : ℚ → String) (c : Catalog) (ops : List CatalogOp) :
    Acyclic (run (Catalog.step env display) c.unforked ops).forks.edge ∧
      (∀ tenantId workspaceId sourceWorkspaceId answer,
        (run (Catalog.step env display) c.unforked ops).belongs tenantId sourceWorkspaceId = true →
        closesCycle (run (Catalog.step env display) c.unforked ops).forks tenantId workspaceId
          sourceWorkspaceId = some answer →
        (answer = true ↔ ¬Acyclic (withEdge (run (Catalog.step env display) c.unforked
          ops).forks.edge workspaceId sourceWorkspaceId))) ∧
      ∀ (forks : Forks) (tenantId workspaceId sourceWorkspaceId : Uuid), ∃ answer,
        closesCycle forks tenantId workspaceId sourceWorkspaceId = some answer ∧
          (answer = true ↔ Reaches (forkEdges forks tenantId) sourceWorkspaceId workspaceId) := by
  have hinv := forksInv_run env display c ops
  refine ⟨hinv.acyclic, fun tenantId workspaceId source answer hsource hanswer => ?_,
    closesCycle_eq_some⟩
  exact hinv.closesCycle_iff hsource workspaceId hanswer

/-- Two workspaces of a tenant with a schema each; the second forks the first, then the first
asks to fork the second. -/
def mutualForks : List CatalogOp :=
  [.addWorkspace 1 9 none, .addWorkspace 2 9 none,
    .createSchema 11 9 1 (noteVersion 10 false) none none,
    .createSchema 12 9 2 (noteVersion 10 false) none none,
    .createFork ⟨21, 31, 41⟩ 9 2 ⟨1, 11⟩, .createFork ⟨22, 32, 42⟩ 9 1 ⟨2, 12⟩]

/-- No rows. -/
def Catalog.empty : Catalog := ⟨0, .empty, .empty, .empty, .empty, .empty, .empty⟩

/-- The second fork is refused. -/
theorem forks_acyclic_mutualForks :
    (run (Catalog.step lenientDialect fun _ => "") Catalog.empty.unforked
        mutualForks).forks.rows.keys = [31] ∧
      Acyclic (run (Catalog.step lenientDialect fun _ => "") Catalog.empty.unforked
        mutualForks).forks.edge :=
  ⟨by decide, (forks_acyclic lenientDialect (fun _ => "") .empty mutualForks).1⟩

end Yorishiro.Schema
