import Mathlib.Data.Prod.Lex
import Yorishiro.Lib.Keyset
import Yorishiro.Lib.Lines
import Yorishiro.Transfer.Operations

/-!
# Exports

`exportJsonl` reads the schemas, entities and relations of a workspace page by page and writes a
line for each, within the limits of the buffer. `importText` reads the lines of a document back
and imports them.

What the two take from outside is a `Wire`: the order of names in the database, and how a record
is printed and parsed. `Wire.ReadsBack` says of records that their lines are read as they were
written. `importText_export` is the result: the import of an export is the import of the rows of
the workspace, each once, schemas before entities before relations.
-/

set_option autoImplicit false

namespace Yorishiro.Transfer

open Yorishiro.Lib Yorishiro.Lib.Keyset Yorishiro.Metaschema Yorishiro.Entity Yorishiro.Schema

/-! ## Records -/

/-- `ExportRecord`, as it is written: a row with its id. -/
inductive ExportRow where
  | schema (id : Uuid) (row : SchemaRecord)
  | entity (id : Uuid) (row : EntityRow)
  | relation (id : Uuid) (row : RelationRecord)

/-- The fields of a record that an import reads. -/
def ExportRow.record : ExportRow → ExportRecord
  | .schema id row => .schema id row.definition
  | .entity id row => .entity id row.schemaId row.entityType row.data
  | .relation _ row => .relation row.sourceId row.targetId row.relationType row.properties

/-- What the export and the import take from the database and from the JSON library. -/
structure Wire (κ : Type) where
  collate : String → κ
  encode : ExportRow → String
  decode : String → Except String ExportRecord

/-- The lines of the records are read as they were written: each is one JSON object on one line,
and parsing gives back what an import reads of it. -/
structure Wire.ReadsBack {κ : Type} (w : Wire κ) (rows : List ExportRow) : Prop where
  decode : ∀ row ∈ rows, w.decode (w.encode row) = .ok row.record
  oneLine : ∀ row ∈ rows, '\n' ∉ (w.encode row).toList
  object : ∀ row ∈ rows, ∃ body, (w.encode row).toList = '\x7b' :: body ++ ['\x7d']

/-! ## The buffer -/

def maxExportBytes : Nat := 8 * 1024 * 1024
def maxExportRecords : Nat := 10000
def pageSize : Nat := 64

/-- `export_too_large`. -/
def exportTooLarge : YorishiroError :=
  .validationFailed "workspace export exceeds the limit of 8 MiB or 10,000 records" []
    "use the paginated schema, entity and relation list APIs for larger workspaces"

/-- What has been written. -/
structure ExportBuffer where
  text : String
  records : Nat

def ExportBuffer.empty : ExportBuffer where
  text := ""
  records := 0

/-- Appends to the text, within the limit. -/
def ExportBuffer.write (buffer : ExportBuffer) (piece : String) :
    Except YorishiroError ExportBuffer :=
  if maxExportBytes - buffer.text.utf8ByteSize < piece.utf8ByteSize then .error exportTooLarge
  else .ok { buffer with text := buffer.text ++ piece }

/-- `append`: the line of a record. -/
def append {κ : Type} (w : Wire κ) (buffer : ExportBuffer) (row : ExportRow) :
    Except YorishiroError ExportBuffer :=
  if buffer.records = maxExportRecords then .error exportTooLarge
  else do
    let buffer ← buffer.write (w.encode row)
    let buffer ← buffer.write "\n"
    pure { buffer with records := buffer.records + 1 }

/-! ## The export -/

section Export

variable {κ : Type} (w : Wire κ)

/-- The order of versions: by name, then by number. -/
def versionKey (e : Uuid × SchemaRecord) : κ ×ₗ Int := toLex (w.collate e.2.name, e.2.version)

/-- One of the loops of `export_jsonl`. Keyset pages do not shift when an earlier row is deleted
between reads. -/
def appendPages {α ι : Type} [LinearOrder ι] (key : Uuid × α → ι) (table : List (Uuid × α))
    (kind : Uuid → α → ExportRow) (buffer : ExportBuffer) : Except YorishiroError ExportBuffer :=
  drain key pageSize table (fun buffer e => append w buffer (kind e.1 e.2)) (table.length + 1) none
    buffer

variable [LinearOrder κ]

/-- `export_jsonl`. -/
def exportJsonl (s : WorkspaceState) : Except YorishiroError String := do
  let buffer ← appendPages w (versionKey w) s.store.tables.schemas.rows.entries .schema .empty
  let buffer ← appendPages w Prod.fst s.store.rows.entries .entity buffer
  let buffer ← appendPages w Prod.fst s.relations.rows.entries .relation buffer
  pure buffer.text

/-- The versions in the order of the export. -/
def schemaRows (s : WorkspaceState) : List (Uuid × SchemaRecord) :=
  ordered (versionKey w) s.store.tables.schemas.rows.entries

/-- The rows of a workspace in the order of the export. -/
def exportRows (s : WorkspaceState) : List ExportRow :=
  (schemaRows w s).map (fun e => .schema e.1 e.2) ++
    s.store.rows.entries.map (fun e => .entity e.1 e.2) ++
    s.relations.rows.entries.map fun e => .relation e.1 e.2

/-! ## The import of a document -/

/-- A line of the document, trimmed and parsed. -/
def readLine (line : List Char) : ImportLine :=
  let line := Lines.trim isWhitespace line
  if line = [] then .empty
  else
    match w.decode (String.ofList line) with
    | .ok record => .record record
    | .error err => .invalid err

/-- `import_with_quota` of a document. -/
def importText (cx : Context) (args : ImportArgs) (given : Nat → Uuid × Stamp)
    (d : WorkspaceState) (text : String) :
    Except YorishiroError (WorkspaceState × ImportProgress) :=
  importWithQuota cx args given d ((Lines.splitLines text.toList).map (readLine w))

end Export

/-! ## What is exported -/

section Exported

variable {κ : Type} {w : Wire κ}

/-- A loop writes every row once, in order. -/
theorem appendPages_eq {α ι : Type} [LinearOrder ι] {key : Uuid × α → ι}
    {table : List (Uuid × α)} (hkeys : (table.map key).Nodup) (kind : Uuid → α → ExportRow)
    (buffer : ExportBuffer) :
    appendPages w key table kind buffer =
      ((ordered key table).map fun e => kind e.1 e.2).foldlM (append w) buffer := by
  unfold appendPages
  rw [drain_eq _ (by decide) hkeys (Nat.lt_succ_self _), List.foldlM_map]

/-- Rows are stored in the order of their ids. -/
theorem appendPages_fst {α : Type} (m : OrderedMap Uuid α) (kind : Uuid → α → ExportRow)
    (buffer : ExportBuffer) :
    appendPages w Prod.fst m.entries kind buffer =
      (m.entries.map fun e => kind e.1 e.2).foldlM (append w) buffer := by
  have hsorted : ordered Prod.fst m.entries = m.entries :=
    List.Pairwise.insertionSort_eq (m.sorted.imp le_of_lt)
  rw [appendPages_eq m.nodup_keys, hsorted]

/-- Names and versions are unique together. -/
theorem nodup_versionKey (hcollate : Function.Injective w.collate) (schemas : Schemas) :
    (schemas.rows.entries.map (versionKey w)).Nodup := by
  rw [List.Nodup, List.pairwise_map]
  refine schemas.unique.imp fun {a b} hclash heq => ?_
  obtain ⟨hname, hversion⟩ := Prod.mk.inj (toLex_inj.mp heq)
  simp [SchemaRecord.clash, hcollate hname, hversion] at hclash

theorem append_eq_ok {buffer buffer' : ExportBuffer} {row : ExportRow}
    (h : append w buffer row = .ok buffer') :
    buffer'.text = buffer.text ++ w.encode row ++ "\n" := by
  unfold append at h
  split_ifs at h
  obtain ⟨first, hfirst, h⟩ := Except.bind_eq_ok.mp h
  obtain ⟨second, hsecond, h⟩ := Except.bind_eq_ok.mp h
  cases h
  unfold ExportBuffer.write at hfirst hsecond
  split_ifs at hfirst hsecond
  cases hfirst
  cases hsecond
  rfl

/-- What is written is the lines of the rows, one after the other. -/
theorem text_of_append {rows : List ExportRow} {buffer buffer' : ExportBuffer}
    (h : rows.foldlM (append w) buffer = .ok buffer') :
    buffer'.text.toList =
      buffer.text.toList ++ rows.flatMap fun row => (w.encode row).toList ++ ['\n'] := by
  induction rows generalizing buffer with
  | nil =>
      cases h
      rw [List.flatMap_nil, List.append_nil]
  | cons row rows ih =>
      rw [List.foldlM_cons] at h
      obtain ⟨next, hnext, h⟩ := Except.bind_eq_ok.mp h
      rw [ih h, append_eq_ok hnext, List.flatMap_cons]
      simp

/-- Rows that fit are written one after the other. -/
theorem foldlM_append_eq {rows : List ExportRow} {buffer : ExportBuffer}
    (hrecords : buffer.records + rows.length ≤ maxExportRecords)
    (hbytes : buffer.text.utf8ByteSize +
      (rows.map fun row => (w.encode row).utf8ByteSize + 1).sum ≤ maxExportBytes) :
    rows.foldlM (append w) buffer =
      .ok ⟨buffer.text ++ String.join (rows.map fun row => w.encode row ++ "\n"),
        buffer.records + rows.length⟩ := by
  induction rows generalizing buffer with
  | nil => simp [pure, Except.pure]
  | cons row rows ih =>
      simp only [List.map_cons, List.sum_cons, List.length_cons] at hrecords hbytes
      have hnewline : ("\n" : String).utf8ByteSize = 1 := rfl
      have happend : append w buffer row =
          .ok ⟨buffer.text ++ w.encode row ++ "\n", buffer.records + 1⟩ := by
        unfold append ExportBuffer.write
        rw [if_neg (by omega), if_neg (by omega)]
        simp only [Except.bind, bind, String.utf8ByteSize_append, hnewline]
        rw [if_neg (by omega)]
        rfl
      rw [List.foldlM_cons, happend]
      refine (ih (by dsimp only; omega) ?_).trans ?_
      · simp only [String.utf8ByteSize_append, hnewline]
        omega
      · simp only [List.map_cons, String.join_cons, String.append_assoc, List.length_cons]
        rw [Nat.add_assoc, Nat.add_comm 1]

/-- A line that was written is read as the record it was written for. -/
theorem readLine_encode {rows : List ExportRow} (hreads : w.ReadsBack rows) {row : ExportRow}
    (hrow : row ∈ rows) : readLine w (w.encode row).toList = .record row.record := by
  obtain ⟨body, hbody⟩ := hreads.object row hrow
  have htrim : Lines.trim isWhitespace (w.encode row).toList = (w.encode row).toList := by
    rw [hbody]
    exact Lines.trim_eq_self rfl rfl body
  have hne : (w.encode row).toList ≠ [] := by
    rw [hbody]
    exact List.cons_ne_nil _ _
  unfold readLine
  simp only [htrim, if_neg hne, String.ofList_toList, hreads.decode row hrow]

variable [LinearOrder κ]

/-- **Every row once.** The export writes the rows of the workspace in order. -/
theorem exportJsonl_eq (hcollate : Function.Injective w.collate) (s : WorkspaceState) :
    exportJsonl w s = ((exportRows w s).foldlM (append w) .empty).map ExportBuffer.text := by
  unfold exportJsonl exportRows schemaRows
  rw [appendPages_eq (nodup_versionKey hcollate _)]
  simp only [appendPages_fst, List.foldlM_append]
  -- the text is taken from the last buffer
  change _ = ExportBuffer.text <$> _
  simp only [← bind_pure_comp, bind_assoc]

/-- **The import of an export.** It imports each row of the workspace once, schemas before
entities before relations. -/
theorem importText_export (hcollate : Function.Injective w.collate) {s : WorkspaceState}
    (hreads : w.ReadsBack (exportRows w s)) {text : String} (hexport : exportJsonl w s = .ok text)
    (cx : Context) (args : ImportArgs) (given : Nat → Uuid × Stamp) (d : WorkspaceState) :
    importText w cx args given d text =
      importWithQuota cx args given d ((exportRows w s).map fun row => .record row.record) := by
  rw [exportJsonl_eq hcollate] at hexport
  obtain ⟨buffer, hbuffer, rfl⟩ := Except.map_eq_ok hexport
  have hlines : Lines.splitLines buffer.text.toList =
      (exportRows w s).map fun row => (w.encode row).toList := by
    have htext : buffer.text.toList =
        ((exportRows w s).map fun row => (w.encode row).toList).flatMap
          fun line => line ++ ['\n'] := by
      rw [text_of_append hbuffer, List.flatMap_map]
      rfl
    rw [htext]
    refine Lines.splitLines_flatMap fun line hline => ?_
    obtain ⟨row, hrow, rfl⟩ := List.mem_map.mp hline
    exact hreads.oneLine row hrow
  unfold importText
  rw [hlines, List.map_map]
  congr 1
  exact List.map_congr_left fun row hrow => readLine_encode hreads hrow

end Exported

end Yorishiro.Transfer
