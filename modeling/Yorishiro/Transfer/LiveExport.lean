import Yorishiro.Transfer.RoundTrip

/-!
# Exports beside other transactions

`export_jsonl` reads one page per statement, and every statement sees what has been committed by
then. So between two pages any operation on the graph may happen: entities are edited, created and
deleted, versions come and go. `liveStep` is an export with all of them.

Two results say what the document is worth. `transcript_of_live`: its lines are in order, each is
a row as it was stored at some moment, and whatever was stored all the time has its line.
`references_precede`: if no version and no entity is added meanwhile, every line comes after the
lines it refers to, as an import needs it; edits and deletions do no harm. Between operations the
export is `exportJsonl` (`live_eq_exportJsonl`).
-/

set_option autoImplicit false

namespace Yorishiro.Transfer

open Yorishiro.Lib Yorishiro.Lib.Keyset Yorishiro.Lib.Transition Yorishiro.Entity Yorishiro.Schema

/-! ## The export in steps -/

/-- An export between two of its statements: its three loops, what it has written, and the error
that ended it. -/
structure LiveExport (κ : Type) where
  versions : Loop (κ ×ₗ Int) (Uuid × SchemaRecord)
  entities : Loop Uuid (Uuid × EntityRow)
  relations : Loop Uuid (Uuid × RelationRecord)
  buffer : ExportBuffer
  error : Option YorishiroError

namespace LiveExport

variable {κ : Type}

/-- An export before its first statement. -/
def start : LiveExport κ := ⟨.start, .start, .start, .empty, none⟩

/-- The rows whose lines have been written. -/
def rows (e : LiveExport κ) : List ExportRow :=
  e.versions.rows.map (fun r => .schema r.1 r.2) ++
    e.entities.rows.map (fun r => .entity r.1 r.2) ++
    e.relations.rows.map fun r => .relation r.1 r.2

/-- What the export returns, once it does. -/
def result (e : LiveExport κ) : Option (Except YorishiroError String) :=
  match e.error with
  | some err => some (.error err)
  | none => if e.relations.finished then some (.ok e.buffer.text) else none

variable [LinearOrder κ] (w : Wire κ)

/-- The lines of a page are written, and the export goes on as `next`; or one does not fit. -/
def written (e : LiveExport κ) (page : List ExportRow) (next : LiveExport κ) : LiveExport κ :=
  match page.foldlM (append w) e.buffer with
  | .ok buffer => { next with buffer := buffer }
  | .error err => { e with error := some err }

/-- The next statement: a page of the first loop that has not come to its end. -/
def next (s : WorkspaceState) (e : LiveExport κ) : LiveExport κ :=
  if e.error.isSome then e
  else if e.versions.finished = false then
    let table := s.store.tables.schemas.rows.entries
    e.written w
      ((page (versionKey w) pageSize table e.versions.cursor).map fun r => .schema r.1 r.2)
      { e with versions := e.versions.read (versionKey w) pageSize table }
  else if e.entities.finished = false then
    let table := s.store.rows.entries
    e.written w ((page Prod.fst pageSize table e.entities.cursor).map fun r => .entity r.1 r.2)
      { e with entities := e.entities.read Prod.fst pageSize table }
  else if e.relations.finished = false then
    let table := s.relations.rows.entries
    e.written w ((page Prod.fst pageSize table e.relations.cursor).map fun r => .relation r.1 r.2)
      { e with relations := e.relations.read Prod.fst pageSize table }
  else e

end LiveExport

/-! ## Runs -/

/-- A graph, and an export of its workspace. -/
structure LiveState (κ : Type) where
  graph : GraphState
  output : LiveExport κ

/-- A transaction on the graph, or a statement of the export. -/
inductive LiveLabel where
  | op (op : GraphOp)
  | page

section Steps

variable {κ : Type} [LinearOrder κ] (w : Wire κ) (cx : Context) (backend : Backend)

/-- The state after a label. -/
def liveStep (s : LiveState κ) : LiveLabel → LiveState κ
  | .op op => { s with graph := op.step cx backend s.graph }
  | .page => { s with output := s.output.next w s.graph.workspace }

end Steps

/-! ## One statement -/

section Statement

variable {κ : Type} [LinearOrder κ] {w : Wire κ} {s : WorkspaceState} {e : LiveExport κ}

omit [LinearOrder κ] in
theorem written_cases (page : List ExportRow) (next : LiveExport κ) :
    (∃ buffer, page.foldlM (append w) e.buffer = .ok buffer ∧
      e.written w page next = { next with buffer := buffer }) ∨
      ∃ err, page.foldlM (append w) e.buffer = .error err ∧
        e.written w page next = { e with error := some err } := by
  unfold LiveExport.written
  split
  · next buffer hbuffer => exact .inl ⟨buffer, hbuffer, rfl⟩
  · next err herr => exact .inr ⟨err, herr, rfl⟩

/-- What a statement of the export does: it writes a page of one loop, those before it being at
their ends, or it changes nothing but the error. -/
inductive Advances (w : Wire κ) (s : WorkspaceState) (e : LiveExport κ) : LiveExport κ → Prop where
  | versions {buffer : ExportBuffer} (hopen : e.versions.finished = false)
      (hbuffer : ((page (versionKey w) pageSize s.store.tables.schemas.rows.entries
        e.versions.cursor).map fun r => ExportRow.schema r.1 r.2).foldlM (append w) e.buffer =
          .ok buffer) :
      Advances w s e
        { e with
          versions := e.versions.read (versionKey w) pageSize
            s.store.tables.schemas.rows.entries
          buffer := buffer }
  | entities {buffer : ExportBuffer} (hversions : e.versions.finished = true)
      (hopen : e.entities.finished = false)
      (hbuffer : ((page Prod.fst pageSize s.store.rows.entries e.entities.cursor).map
        fun r => ExportRow.entity r.1 r.2).foldlM (append w) e.buffer = .ok buffer) :
      Advances w s e
        { e with
          entities := e.entities.read Prod.fst pageSize s.store.rows.entries
          buffer := buffer }
  | relations {buffer : ExportBuffer} (hversions : e.versions.finished = true)
      (hentities : e.entities.finished = true) (hopen : e.relations.finished = false)
      (hbuffer : ((page Prod.fst pageSize s.relations.rows.entries e.relations.cursor).map
        fun r => ExportRow.relation r.1 r.2).foldlM (append w) e.buffer = .ok buffer) :
      Advances w s e
        { e with
          relations := e.relations.read Prod.fst pageSize s.relations.rows.entries
          buffer := buffer }
  | rest (error : Option YorishiroError) : Advances w s e { e with error := error }

theorem advances_next : Advances w s e (e.next w s) := by
  unfold LiveExport.next
  split
  · exact .rest e.error
  · split
    · next hopen =>
      rcases written_cases (w := w) (e := e) _ _ with ⟨buffer, hbuffer, hnext⟩ | ⟨err, -, hnext⟩
      · rw [hnext]
        exact .versions hopen hbuffer
      · rw [hnext]
        exact .rest _
    · next hversions =>
      have hversions : e.versions.finished = true := Bool.not_eq_false _ ▸ hversions
      split
      · next hopen =>
        rcases written_cases (w := w) (e := e) _ _ with ⟨buffer, hbuffer, hnext⟩ | ⟨err, -, hnext⟩
        · rw [hnext]
          exact .entities hversions hopen hbuffer
        · rw [hnext]
          exact .rest _
      · next hentities =>
        have hentities : e.entities.finished = true := Bool.not_eq_false _ ▸ hentities
        split
        · next hopen =>
          rcases written_cases (w := w) (e := e) _ _ with
            ⟨buffer, hbuffer, hnext⟩ | ⟨err, -, hnext⟩
          · rw [hnext]
            exact .relations hversions hentities hopen hbuffer
          · rw [hnext]
            exact .rest _
        · exact .rest e.error

theorem nodup_fst {α : Type} (m : OrderedMap Uuid α) : (m.entries.map Prod.fst).Nodup :=
  m.nodup_keys

end Statement

/-! ## What is written -/

/-- The lines of rows. -/
def linesOfRows {κ : Type} (w : Wire κ) (rows : List ExportRow) : List Char :=
  rows.flatMap fun row => (w.encode row).toList ++ ['\n']

section Written

variable {κ : Type} [LinearOrder κ] {w : Wire κ} {visited : WorkspaceState → Prop}
  {s : WorkspaceState} {e e' : LiveExport κ}

/-- The version has the name and the number all the time. -/
def KeptVersion (w : Wire κ) (visited : WorkspaceState → Prop) (id : Uuid) (k : κ ×ₗ Int) : Prop :=
  ∀ s, visited s → ∃ row, s.store.tables.schemas.get? id = some row ∧ versionKey w (id, row) = k

/-- The entity is stored all the time. -/
def KeptEntity (visited : WorkspaceState → Prop) (id k : Uuid) : Prop :=
  id = k ∧ ∀ s, visited s → ∃ row, s.store.rows.get? id = some row

/-- The relation is stored all the time. -/
def KeptRelation (visited : WorkspaceState → Prop) (id k : Uuid) : Prop :=
  id = k ∧ ∀ s, visited s → ∃ row, s.relations.get? id = some row

/-- What holds between two statements of an export that reads `visited` workspaces. -/
structure Writing (w : Wire κ) (visited : WorkspaceState → Prop) (e : LiveExport κ) : Prop where
  entitiesLater : e.versions.finished = false → e.entities.finished = false ∧ e.entities.rows = []
  relationsLater : e.entities.finished = false →
    e.relations.finished = false ∧ e.relations.rows = []
  text : e.buffer.text.toList = linesOfRows w e.rows
  versionsOrder : Ascending (versionKey w) e.versions.cursor e.versions.rows
  entitiesOrder : Ascending Prod.fst e.entities.cursor e.entities.rows
  relationsOrder : Ascending Prod.fst e.relations.cursor e.relations.rows
  versionsRead : ∀ r ∈ e.versions.rows, ∃ s, visited s ∧
    s.store.tables.schemas.get? r.1 = some r.2
  entitiesRead : ∀ r ∈ e.entities.rows, ∃ s, visited s ∧ s.store.rows.get? r.1 = some r.2
  relationsRead : ∀ r ∈ e.relations.rows, ∃ s, visited s ∧ s.relations.get? r.1 = some r.2
  versionsKept : e.versions.Complete Prod.fst (KeptVersion w visited)
  entitiesKept : e.entities.Complete Prod.fst (KeptEntity visited)
  relationsKept : e.relations.Complete Prod.fst (KeptRelation visited)

theorem writing_start : Writing w visited .start where
  entitiesLater := fun _ => ⟨rfl, rfl⟩
  relationsLater := fun _ => ⟨rfl, rfl⟩
  text := rfl
  versionsOrder := .start
  entitiesOrder := .start
  relationsOrder := .start
  versionsRead := fun _ hr => nomatch hr
  entitiesRead := fun _ hr => nomatch hr
  relationsRead := fun _ hr => nomatch hr
  versionsKept := Loop.complete_start
  entitiesKept := Loop.complete_start
  relationsKept := Loop.complete_start

omit [LinearOrder κ] in
/-- A page that is written is a page of lines more. -/
theorem text_of_page {buffer : ExportBuffer} {before page after : List ExportRow}
    (htext : e.buffer.text.toList = linesOfRows w before)
    (hbuffer : page.foldlM (append w) e.buffer = .ok buffer) (hafter : after = before ++ page) :
    buffer.text.toList = linesOfRows w after := by
  rw [text_of_append hbuffer, htext, hafter, linesOfRows, linesOfRows, List.flatMap_append]

/-- **One statement.** An export goes on writing as it did. -/
theorem Writing.next (h : Writing w visited e) (hcollate : Function.Injective w.collate)
    (hs : visited s) : Writing w visited (e.next w s) := by
  have hadvances : Advances w s e (e.next w s) := advances_next
  generalize e.next w s = e' at hadvances
  cases hadvances with
  | rest error => exact { h with }
  | @versions buffer hopen hbuffer =>
      obtain ⟨hentities, hnone⟩ := h.entitiesLater hopen
      obtain ⟨-, hnone'⟩ := h.relationsLater hentities
      have hkeys := nodup_versionKey hcollate s.store.tables.schemas
      exact
        { h with
          entitiesLater := fun _ => ⟨hentities, hnone⟩
          text := by
            refine text_of_page h.text hbuffer ?_
            simp [LiveExport.rows, hnone, hnone', Loop.read_rows]
          versionsOrder := Loop.ascending_read h.versionsOrder hkeys
          versionsRead := by
            intro r hr
            rw [Loop.read_rows] at hr
            rcases List.mem_append.mp hr with hr | hr
            · exact h.versionsRead r hr
            · exact ⟨s, hs, (OrderedMap.mem_entries_iff _ _ _).mp (mem_page hr).1⟩
          versionsKept := by
            refine Loop.complete_read h.versionsKept hopen (by decide) hkeys fun id k hkept => ?_
            obtain ⟨row, hrow, hk⟩ := hkept s hs
            exact ⟨(id, row), (OrderedMap.mem_entries_iff _ _ _).mpr hrow, rfl, hk⟩ }
  | @entities buffer hversions hopen hbuffer =>
      obtain ⟨hrelations, hnone⟩ := h.relationsLater hopen
      exact
        { h with
          entitiesLater := fun hfalse => nomatch hfalse.symm.trans hversions
          relationsLater := fun _ => ⟨hrelations, hnone⟩
          text := by
            refine text_of_page h.text hbuffer ?_
            simp [LiveExport.rows, hnone, Loop.read_rows]
          entitiesOrder := Loop.ascending_read h.entitiesOrder (nodup_fst _)
          entitiesRead := by
            intro r hr
            rw [Loop.read_rows] at hr
            rcases List.mem_append.mp hr with hr | hr
            · exact h.entitiesRead r hr
            · exact ⟨s, hs, (OrderedMap.mem_entries_iff _ _ _).mp (mem_page hr).1⟩
          entitiesKept := by
            refine Loop.complete_read h.entitiesKept hopen (by decide) (nodup_fst _) ?_
            rintro id k ⟨rfl, hkept⟩
            obtain ⟨row, hrow⟩ := hkept s hs
            exact ⟨(id, row), (OrderedMap.mem_entries_iff _ _ _).mpr hrow, rfl, rfl⟩ }
  | @relations buffer hversions hentities hopen hbuffer =>
      exact
        { h with
          relationsLater := fun hfalse => nomatch hfalse.symm.trans hentities
          text := by
            refine text_of_page h.text hbuffer ?_
            simp [LiveExport.rows, Loop.read_rows]
          relationsOrder := Loop.ascending_read h.relationsOrder (nodup_fst _)
          relationsRead := by
            intro r hr
            rw [Loop.read_rows] at hr
            rcases List.mem_append.mp hr with hr | hr
            · exact h.relationsRead r hr
            · exact ⟨s, hs, (OrderedMap.mem_entries_iff _ _ _).mp (mem_page hr).1⟩
          relationsKept := by
            refine Loop.complete_read h.relationsKept hopen (by decide) (nodup_fst _) ?_
            rintro id k ⟨rfl, hkept⟩
            obtain ⟨row, hrow⟩ := hkept s hs
            exact ⟨(id, row), (OrderedMap.mem_entries_iff _ _ _).mpr hrow, rfl, rfl⟩ }

end Written

/-! ## The document -/

/-- What a document is worth that has been written while a workspace went through the `visited`
states: its lines are those of the rows of the export, each kind in order. Each row was stored as
it is written, at some moment. What was stored at all of them has its line; for a version, whose
name and number are its key in the walk, that is said of one that has had them all the time (no
statement changes them). -/
structure Transcript {κ : Type} [LinearOrder κ] (w : Wire κ) (visited : WorkspaceState → Prop)
    (text : String) (e : LiveExport κ) : Prop where
  lines : text.toList = linesOfRows w e.rows
  versionsOrder : e.versions.rows.Pairwise fun a b => versionKey w a < versionKey w b
  entitiesOrder : e.entities.rows.Pairwise fun a b => a.1 < b.1
  relationsOrder : e.relations.rows.Pairwise fun a b => a.1 < b.1
  versionsRead : ∀ r ∈ e.versions.rows, ∃ s, visited s ∧
    s.store.tables.schemas.get? r.1 = some r.2
  entitiesRead : ∀ r ∈ e.entities.rows, ∃ s, visited s ∧ s.store.rows.get? r.1 = some r.2
  relationsRead : ∀ r ∈ e.relations.rows, ∃ s, visited s ∧ s.relations.get? r.1 = some r.2
  versionsKept : ∀ id name number,
    (∀ s, visited s → ∃ row, s.store.tables.schemas.get? id = some row ∧ row.name = name ∧
      row.version = number) → ∃ r ∈ e.versions.rows, r.1 = id
  entitiesKept : ∀ id, (∀ s, visited s → ∃ row, s.store.rows.get? id = some row) →
    ∃ r ∈ e.entities.rows, r.1 = id
  relationsKept : ∀ id, (∀ s, visited s → ∃ row, s.relations.get? id = some row) →
    ∃ r ∈ e.relations.rows, r.1 = id

section Document

variable {κ : Type} [LinearOrder κ] (w : Wire κ) (cx : Context) (backend : Backend)

/-- The states that the workspace goes through in a run. -/
def Visited (start : GraphState) (labels : List LiveLabel) (s : WorkspaceState) : Prop :=
  ∃ before, before <+: labels ∧
    s = (run (liveStep w cx backend) ⟨start, .start⟩ before).graph.workspace

variable {w} {visited : WorkspaceState → Prop} {e : LiveExport κ}

omit [LinearOrder κ] in
theorem result_eq_ok (herror : e.error.isNone = true) (hfinished : e.relations.finished = true) :
    e.result = some (.ok e.buffer.text) := by
  rw [LiveExport.result, Option.isNone_iff_eq_none.mp herror]
  exact if_pos hfinished

theorem Writing.transcript (h : Writing w visited e) {text : String}
    (hresult : e.result = some (.ok text)) : Transcript w visited text e := by
  unfold LiveExport.result at hresult
  split at hresult
  · cases hresult
  · split_ifs at hresult with hrelations
    obtain rfl : e.buffer.text = text := Except.ok.inj (Option.some.inj hresult)
    have hentities : e.entities.finished = true := by
      by_contra hopen
      have hopen := (h.relationsLater (Bool.eq_false_of_not_eq_true hopen)).1
      exact nomatch hopen.symm.trans hrelations
    have hversions : e.versions.finished = true := by
      by_contra hopen
      have hopen := (h.entitiesLater (Bool.eq_false_of_not_eq_true hopen)).1
      exact nomatch hopen.symm.trans hentities
    exact
      { lines := h.text
        versionsOrder := h.versionsOrder.strict
        entitiesOrder := h.entitiesOrder.strict
        relationsOrder := h.relationsOrder.strict
        versionsRead := h.versionsRead
        entitiesRead := h.entitiesRead
        relationsRead := h.relationsRead
        versionsKept := by
          intro id name number hkept
          refine h.versionsKept.finished hversions id (toLex (w.collate name, number)) fun s hs => ?_
          obtain ⟨row, hrow, rfl, rfl⟩ := hkept s hs
          exact ⟨row, hrow, rfl⟩
        entitiesKept := fun id hkept => h.entitiesKept.finished hentities id id ⟨rfl, hkept⟩
        relationsKept := fun id hkept => h.relationsKept.finished hrelations id id ⟨rfl, hkept⟩ }

/-- **Exports beside other transactions.** Whatever happens to the graph between the pages of an
export, the document it returns is a transcript of the states in between. -/
theorem transcript_of_live (hcollate : Function.Injective w.collate) (cx : Context)
    (backend : Backend) (start : GraphState) (labels : List LiveLabel) {text : String}
    (hresult : (run (liveStep w cx backend) ⟨start, .start⟩ labels).output.result =
      some (.ok text)) :
    Transcript w (Visited w cx backend start labels) text
      (run (liveStep w cx backend) ⟨start, .start⟩ labels).output := by
  have hmeet : StepsMeet (liveStep w cx backend)
      (fun s _ => Visited w cx backend start labels s.graph.workspace) ⟨start, .start⟩ labels :=
    StepsMeet.of_prefix fun before label hprefix =>
      ⟨before, (List.prefix_append before [label]).trans hprefix, rfl⟩
  have hwriting := run_invariant
    (fun s : LiveState κ => Writing w (Visited w cx backend start labels) s.output)
    (fun s label h hvisited => by
      cases label with
      | op op => exact h
      | page => exact h.next hcollate hvisited)
    writing_start hmeet
  exact hwriting.transcript hresult

end Document

/-! ## References -/

/-- Every line comes after the lines it refers to. -/
def ReferencesPrecede (rows : List ExportRow) : Prop :=
  ∀ before row after, rows = before ++ row :: after →
    match row with
    | .schema _ _ => True
    | .entity _ entity => ∃ version, .schema entity.schemaId version ∈ before
    | .relation _ relation =>
        (∃ source, .entity relation.sourceId source ∈ before) ∧
          ∃ target, .entity relation.targetId target ∈ before

/-- Every version and every entity was there before. -/
def AddsNothing (s s' : WorkspaceState) : Prop :=
  (∀ e' ∈ s'.store.tables.schemas.rows.entries, ∃ e ∈ s.store.tables.schemas.rows.entries,
      e.1 = e'.1 ∧ e.2.name = e'.2.name ∧ e.2.version = e'.2.version) ∧
    ∀ e' ∈ s'.store.rows.entries, ∃ e ∈ s.store.rows.entries, e.1 = e'.1

instance (s s' : WorkspaceState) : Decidable (AddsNothing s s') :=
  inferInstanceAs (Decidable (_ ∧ _))

section References

variable {κ : Type} [LinearOrder κ] {w : Wire κ} {s s' : WorkspaceState} {e : LiveExport κ}

/-- The version is stored, under its name and number. -/
def StoredVersion (w : Wire κ) (s : WorkspaceState) (id : Uuid) (k : κ ×ₗ Int) : Prop :=
  ∃ row, s.store.tables.schemas.get? id = some row ∧ versionKey w (id, row) = k

/-- The entity is stored. -/
def StoredEntity (s : WorkspaceState) (id k : Uuid) : Prop :=
  id = k ∧ ∃ row, s.store.rows.get? id = some row

/-- What an export has written has everything it refers to, and passes over nothing that is stored
by now. -/
structure Referring (w : Wire κ) (s : WorkspaceState) (e : LiveExport κ) : Prop where
  versions : e.versions.Complete Prod.fst (StoredVersion w s)
  entities : e.entities.Complete Prod.fst (StoredEntity s)
  entityVersions : ∀ r ∈ e.entities.rows, ∃ v ∈ e.versions.rows, v.1 = r.2.schemaId
  ends : ∀ r ∈ e.relations.rows, (∃ x ∈ e.entities.rows, x.1 = r.2.sourceId) ∧
    ∃ x ∈ e.entities.rows, x.1 = r.2.targetId

theorem referring_start : Referring w s .start where
  versions := Loop.complete_start
  entities := Loop.complete_start
  entityVersions := fun _ hr => nomatch hr
  ends := fun _ hr => nomatch hr

omit [LinearOrder κ] in
theorem AddsNothing.version (h : AddsNothing s s') {id : Uuid} {k : κ ×ₗ Int}
    (hstored : StoredVersion w s' id k) : StoredVersion w s id k := by
  obtain ⟨row', hrow', rfl⟩ := hstored
  obtain ⟨e, he, rfl, hname, hversion⟩ :=
    h.1 (id, row') ((OrderedMap.mem_entries_iff _ _ _).mpr hrow')
  refine ⟨e.2, (OrderedMap.mem_entries_iff _ _ _).mp he, ?_⟩
  rw [versionKey, versionKey, hname, hversion]

theorem AddsNothing.entity (h : AddsNothing s s') {id k : Uuid} (hstored : StoredEntity s' id k) :
    StoredEntity s id k := by
  obtain ⟨rfl, row', hrow'⟩ := hstored
  obtain ⟨e, he, rfl⟩ := h.2 (id, row') ((OrderedMap.mem_entries_iff _ _ _).mpr hrow')
  exact ⟨rfl, e.2, (OrderedMap.mem_entries_iff _ _ _).mp he⟩

/-- A transaction that adds nothing. -/
theorem Referring.op (h : Referring w s e) (hadds : AddsNothing s s') : Referring w s' e where
  versions := h.versions.mono fun _ _ => hadds.version
  entities := h.entities.mono fun _ _ => hadds.entity
  entityVersions := h.entityVersions
  ends := h.ends

/-- A statement of the export: the rows it reads refer to what is stored, and what is stored by
then has been written by the loops before. -/
theorem Referring.next (h : Referring w s e) (hcollate : Function.Injective w.collate)
    (hclosed : Closed s) : Referring w s (e.next w s) := by
  have hadvances : Advances w s e (e.next w s) := advances_next
  generalize e.next w s = e' at hadvances
  cases hadvances with
  | rest error => exact { h with }
  | @versions buffer hopen hbuffer =>
      exact
        { h with
          versions := by
            refine Loop.complete_read h.versions hopen (by decide)
              (nodup_versionKey hcollate s.store.tables.schemas) fun id k hstored => ?_
            obtain ⟨row, hrow, hk⟩ := hstored
            exact ⟨(id, row), (OrderedMap.mem_entries_iff _ _ _).mpr hrow, rfl, hk⟩
          entityVersions := by
            intro r hr
            obtain ⟨v, hv, hid⟩ := h.entityVersions r hr
            exact ⟨v, by rw [Loop.read_rows]; exact List.mem_append_left _ hv, hid⟩ }
  | @entities buffer hversions hopen hbuffer =>
      exact
        { h with
          entities := by
            refine Loop.complete_read h.entities hopen (by decide) (nodup_fst _) ?_
            rintro id k ⟨rfl, row, hrow⟩
            exact ⟨(id, row), (OrderedMap.mem_entries_iff _ _ _).mpr hrow, rfl, rfl⟩
          entityVersions := by
            intro r hr
            rw [Loop.read_rows] at hr
            rcases List.mem_append.mp hr with hr | hr
            · exact h.entityVersions r hr
            · have hrow := (OrderedMap.mem_entries_iff _ _ _).mp (mem_page hr).1
              obtain ⟨version, hversion⟩ := hclosed.versions r.1 r.2 hrow
              exact h.versions.finished hversions _ _ ⟨version, hversion, rfl⟩
          ends := by
            intro r hr
            obtain ⟨⟨x, hx, hsource⟩, y, hy, htarget⟩ := h.ends r hr
            rw [Loop.read_rows]
            exact ⟨⟨x, List.mem_append_left _ hx, hsource⟩, y, List.mem_append_left _ hy, htarget⟩ }
  | @relations buffer hversions hentities hopen hbuffer =>
      exact
        { h with
          ends := by
            intro r hr
            rw [Loop.read_rows] at hr
            rcases List.mem_append.mp hr with hr | hr
            · exact h.ends r hr
            · have hrow := (OrderedMap.mem_entries_iff _ _ _).mp (mem_page hr).1
              obtain ⟨hsource, htarget⟩ := hclosed.ends r.1 r.2 hrow
              exact ⟨h.entities.finished hentities _ _ ⟨rfl, hsource⟩,
                h.entities.finished hentities _ _ ⟨rfl, htarget⟩⟩ }

omit [LinearOrder κ] in
theorem rows_ranked : e.rows.Pairwise fun a b => a.rank ≤ b.rank := by
  rw [LiveExport.rows, List.pairwise_append, List.pairwise_append]
  refine ⟨⟨?_, ?_, ?_⟩, ?_, ?_⟩
  · exact List.pairwise_map.mpr (List.pairwise_of_forall fun _ _ => le_rfl)
  · exact List.pairwise_map.mpr (List.pairwise_of_forall fun _ _ => le_rfl)
  · intro a ha b hb
    obtain ⟨_, -, rfl⟩ := List.mem_map.mp ha
    exact Nat.zero_le _
  · exact List.pairwise_map.mpr (List.pairwise_of_forall fun _ _ => le_rfl)
  · intro a ha b hb
    obtain ⟨_, -, rfl⟩ := List.mem_map.mp hb
    cases a with
    | schema id row => exact Nat.zero_le 2
    | entity id row => exact Nat.le_succ 1
    | relation id row => exact le_rfl

/-- What has a lower rank than a line comes before it. -/
theorem mem_before {rows before after : List ExportRow} {row x : ExportRow}
    (hranked : rows.Pairwise fun a b => a.rank ≤ b.rank) (hrows : rows = before ++ row :: after)
    (hx : x ∈ rows) (hlt : x.rank < row.rank) : x ∈ before := by
  subst hrows
  rcases List.mem_append.mp hx with hx | hx
  · exact hx
  · rcases List.mem_cons.mp hx with rfl | hx
    · exact absurd hlt (Nat.lt_irrefl _)
    · have hafter := (List.pairwise_append.mp hranked).2.1
      exact absurd hlt ((List.pairwise_cons.mp hafter).1 x hx).not_gt

omit [LinearOrder κ] in
theorem mem_rows_iff {row : ExportRow} :
    row ∈ e.rows ↔
      match row with
      | .schema id version => (id, version) ∈ e.versions.rows
      | .entity id entity => (id, entity) ∈ e.entities.rows
      | .relation id relation => (id, relation) ∈ e.relations.rows := by
  cases row <;> simp [LiveExport.rows]

theorem Referring.precede (h : Referring w s e) : ReferencesPrecede e.rows := by
  intro before row after hrows
  have hrow : row ∈ e.rows := hrows ▸ List.mem_append_right _ List.mem_cons_self
  cases row with
  | schema id version => trivial
  | entity id entity =>
      obtain ⟨⟨-, version⟩, hversion, rfl⟩ := h.entityVersions (id, entity) (mem_rows_iff.mp hrow)
      exact ⟨version, mem_before rows_ranked hrows (mem_rows_iff.mpr hversion) Nat.zero_lt_one⟩
  | relation id relation =>
      obtain ⟨⟨⟨-, source⟩, hsource, rfl⟩, ⟨-, target⟩, htarget, rfl⟩ :=
        h.ends (id, relation) (mem_rows_iff.mp hrow)
      exact ⟨⟨source, mem_before rows_ranked hrows (mem_rows_iff.mpr hsource) Nat.one_lt_two⟩,
        target, mem_before rows_ranked hrows (mem_rows_iff.mpr htarget) Nat.one_lt_two⟩

/-- **References.** While no version and no entity is added, every line of an export comes after
the lines it refers to, whatever is edited, archived and deleted between its pages. -/
theorem references_precede (hcollate : Function.Injective w.collate) (cx : Context)
    (backend : Backend) (maxEntities : Option Int) (history : List GraphOp)
    (labels : List LiveLabel)
    (hmeet : StepsMeet (liveStep w cx backend)
      (fun s label => AddsNothing s.graph.workspace
        (liveStep w cx backend s label).graph.workspace)
      ⟨run (GraphOp.step cx backend) (.empty maxEntities) history, .start⟩ labels) :
    ReferencesPrecede (run (liveStep w cx backend)
      ⟨run (GraphOp.step cx backend) (.empty maxEntities) history, .start⟩ labels).output.rows := by
  have hinv := run_invariant
    (fun s : LiveState κ => (∃ kinds, Coherent cx kinds s.graph.workspace s.graph.readings) ∧
      Referring w s.graph.workspace s.output)
    (fun s label h hadds => by
      obtain ⟨⟨kinds, hcoherent⟩, hreferring⟩ := h
      cases label with
      | op op =>
          refine ⟨?_, hreferring.op hadds⟩
          dsimp only [liveStep, GraphOp.step]
          split
          · next graph hop => exact hcoherent.apply hop
          · exact ⟨kinds, hcoherent⟩
      | page => exact ⟨⟨kinds, hcoherent⟩, hreferring.next hcollate hcoherent.closed⟩)
    ⟨coherent_run cx backend maxEntities history, referring_start⟩ hmeet
  exact hinv.2.precede

end References

/-! ## Exports alone -/

section Alone

variable {κ : Type} [LinearOrder κ] (w : Wire κ) (s : WorkspaceState)

/-- One export comes to be another by its statements, on a workspace at rest. -/
def Comes (a b : LiveExport κ) : Prop := ∃ n : Nat, (LiveExport.next w s)^[n] a = b

variable {w s}

theorem Comes.trans {a b c : LiveExport κ} (hab : Comes w s a b) (hbc : Comes w s b c) :
    Comes w s a c := by
  obtain ⟨m, rfl⟩ := hab
  obtain ⟨n, rfl⟩ := hbc
  exact ⟨n + m, Function.iterate_add_apply _ n m a⟩

/-- A loop that reads and writes a page per statement does what `appendPages` does. -/
theorem comes_appendPages {α ι : Type} [LinearOrder ι] {key : Uuid × α → ι}
    {table : List (Uuid × α)} {kind : Uuid → α → ExportRow}
    (place : Loop ι (Uuid × α) → ExportBuffer → LiveExport κ)
    (hnext : ∀ l b, l.finished = false →
      (place l b).next w s =
        (place l b).written w ((page key pageSize table l.cursor).map fun r => kind r.1 r.2)
          (place (l.read key pageSize table) b))
    (hbuffer : ∀ l b, (place l b).buffer = b)
    (hplace : ∀ l b b', { place l b with buffer := b' } = place l b') (b : ExportBuffer) :
    (∀ b', appendPages w key table kind b = .ok b' →
        ∃ l, l.finished = true ∧ Comes w s (place .start b) (place l b')) ∧
      ∀ err, appendPages w key table kind b = .error err →
        ∃ e, Comes w s (place .start b) e ∧ e.error = some err := by
  have hfuel : (above key table (Loop.start : Loop ι (Uuid × α)).cursor).length <
      table.length + 1 := by
    refine Nat.lt_succ_of_le ((List.length_filter_le _ _).trans ?_)
    rw [length_ordered]
  rw [appendPages]
  refine exists_read_drain _ (Comes w s) place (fun err e => e.error = some err)
    (fun _ _ _ => Comes.trans) (fun l b b' hopen hfold => ⟨1, ?_⟩)
    (fun l b err hopen hfold => ⟨{ place l b with error := some err }, ⟨1, ?_⟩, rfl⟩)
    (table.length + 1) .start b rfl hfuel
  · rw [Function.iterate_one, hnext l b hopen, LiveExport.written, hbuffer, List.foldlM_map, hfold]
    exact hplace _ _ _
  · rw [Function.iterate_one, hnext l b hopen, LiveExport.written, hbuffer, List.foldlM_map, hfold]
    simp only [hbuffer]

omit [LinearOrder κ] in
theorem result_eq_error {e : LiveExport κ} {err : YorishiroError} (h : e.error = some err) :
    e.result = some (.error err) := by
  rw [LiveExport.result, h]

/-- **Exports alone.** Between other transactions the statements of an export come to what
`exportJsonl` returns. -/
theorem live_eq_exportJsonl (w : Wire κ) (s : WorkspaceState) :
    ∃ n : Nat, ((LiveExport.next w s)^[n] .start).result = some (exportJsonl w s) := by
  have hresult : ∀ e r, Comes w s .start e → e.result = some r →
      ∃ n : Nat, ((LiveExport.next w s)^[n] .start).result = some r := by
    rintro e r ⟨n, rfl⟩ hr
    exact ⟨n, hr⟩
  have hpast : ∀ finished : Bool, finished = true → ¬finished = false := by decide
  obtain ⟨hversions, hversionsFail⟩ := comes_appendPages
    (fun l b => (⟨l, .start, .start, b, none⟩ : LiveExport κ))
    (fun l b hopen => (if_neg Bool.false_ne_true).trans (if_pos hopen)) (fun _ _ => rfl)
    (fun _ _ _ => rfl) .empty
  cases hfirst : appendPages w (versionKey w) s.store.tables.schemas.rows.entries .schema
      .empty with
  | error err =>
      obtain ⟨e, hcomes, he⟩ := hversionsFail err hfirst
      have hexport : exportJsonl w s = .error err := by
        rw [exportJsonl, hfirst]
        rfl
      rw [hexport]
      exact hresult e _ hcomes (result_eq_error he)
  | ok b₁ =>
      obtain ⟨versions, hversionsEnd, hcomes₁⟩ := hversions b₁ hfirst
      obtain ⟨hentities, hentitiesFail⟩ := comes_appendPages
        (fun l b => (⟨versions, l, .start, b, none⟩ : LiveExport κ))
        (fun l b hopen => (if_neg Bool.false_ne_true).trans
          ((if_neg (hpast _ hversionsEnd)).trans (if_pos hopen)))
        (fun _ _ => rfl) (fun _ _ _ => rfl) b₁
      cases hsecond : appendPages w Prod.fst s.store.rows.entries .entity b₁ with
      | error err =>
          obtain ⟨e, hcomes, he⟩ := hentitiesFail err hsecond
          have hexport : exportJsonl w s = .error err := by
            rw [exportJsonl, hfirst]
            change (appendPages w Prod.fst s.store.rows.entries .entity b₁ >>= _) = _
            rw [hsecond]
            rfl
          rw [hexport]
          exact hresult e _ (hcomes₁.trans hcomes) (result_eq_error he)
      | ok b₂ =>
          obtain ⟨entities, hentitiesEnd, hcomes₂⟩ := hentities b₂ hsecond
          obtain ⟨hrelations, hrelationsFail⟩ := comes_appendPages
            (fun l b => (⟨versions, entities, l, b, none⟩ : LiveExport κ))
            (fun l b hopen => (if_neg Bool.false_ne_true).trans
              ((if_neg (hpast _ hversionsEnd)).trans
                ((if_neg (hpast _ hentitiesEnd)).trans (if_pos hopen))))
            (fun _ _ => rfl) (fun _ _ _ => rfl) b₂
          have hexport : exportJsonl w s =
              appendPages w Prod.fst s.relations.rows.entries .relation b₂ >>=
                fun buffer => pure buffer.text := by
            rw [exportJsonl, hfirst]
            change (appendPages w Prod.fst s.store.rows.entries .entity b₁ >>= _) = _
            rw [hsecond]
            rfl
          rw [hexport]
          cases hthird : appendPages w Prod.fst s.relations.rows.entries .relation b₂ with
          | error err =>
              obtain ⟨e, hcomes, he⟩ := hrelationsFail err hthird
              exact hresult e _ ((hcomes₁.trans hcomes₂).trans hcomes) (result_eq_error he)
          | ok b₃ =>
              obtain ⟨relations, hrelationsEnd, hcomes₃⟩ := hrelations b₃ hthird
              exact hresult _ _ ((hcomes₁.trans hcomes₂).trans hcomes₃)
                (result_eq_ok rfl hrelationsEnd)

end Alone

/-! ## Runs on the small graph -/

/-- Lines that say of what kind a row is; nothing here depends on what else they say. -/
def kindLines : Wire String := { linesOf [] with encode := ExportRow.kind }

/-- A run beside an export of the two persons. -/
def besideExport (labels : List LiveLabel) : LiveState String :=
  run (liveStep kindLines peopleContext .postgres)
    ⟨run (GraphOp.step peopleContext .postgres) (.empty none) acquaint, .start⟩ labels

/-- The second person is deleted when both have been written. -/
def deletedMeanwhile : List LiveLabel :=
  [.page, .page, .page, .op (plainOp (.run (.delete 8) fun _ => ⟨20, "later"⟩) rfl),
    .page, .page]

theorem result_deletedMeanwhile :
    (besideExport deletedMeanwhile).output.result =
      some (.ok (besideExport deletedMeanwhile).output.buffer.text) := by
  have herror : (besideExport deletedMeanwhile).output.error.isNone = true := by decide
  have hfinished : (besideExport deletedMeanwhile).output.relations.finished = true := by
    decide
  exact result_eq_ok herror hfinished

theorem transcript_deletedMeanwhile :
    Transcript kindLines
      (Visited kindLines peopleContext .postgres
        (run (GraphOp.step peopleContext .postgres) (.empty none) acquaint) deletedMeanwhile)
      (besideExport deletedMeanwhile).output.buffer.text (besideExport deletedMeanwhile).output :=
  transcript_of_live (fun _ _ h => h) peopleContext .postgres _ deletedMeanwhile
    result_deletedMeanwhile

theorem references_precede_deletedMeanwhile :
    ReferencesPrecede (besideExport deletedMeanwhile).output.rows :=
  references_precede (fun _ _ h => h) peopleContext .postgres none acquaint deletedMeanwhile
    (by decide)

/-- A person of a new version is created when the versions have been written. -/
def createdMeanwhile : List LiveLabel :=
  let person : CreateEntityInput :=
    { schemaName := "people", entityType := "person", data := .object [] }
  [.page, .page, .op (plainOp (.createSchema 0 acquaintances none none 2 20) rfl),
    .op (plainOp (.create person none none 10 ⟨21, "third"⟩) rfl), .page, .page, .page, .page]

/-- The line of the new person refers to a version that has no line. -/
theorem not_referencesPrecede_createdMeanwhile :
    ¬ReferencesPrecede (besideExport createdMeanwhile).output.rows := by
  intro h
  obtain ⟨r, hr, hnone⟩ : ∃ r ∈ (besideExport createdMeanwhile).output.entities.rows,
      ∀ v ∈ (besideExport createdMeanwhile).output.versions.rows, v.1 ≠ r.2.schemaId := by
    decide
  have hmem : .entity r.1 r.2 ∈ (besideExport createdMeanwhile).output.rows := mem_rows_iff.mpr hr
  obtain ⟨before, after, hrows⟩ := List.append_of_mem hmem
  obtain ⟨version, hversion⟩ := h before _ after hrows
  have hline : .schema r.2.schemaId version ∈ (besideExport createdMeanwhile).output.rows := by
    rw [hrows]
    exact List.mem_append_left _ hversion
  exact hnone _ (mem_rows_iff.mp hline) rfl

end Yorishiro.Transfer
