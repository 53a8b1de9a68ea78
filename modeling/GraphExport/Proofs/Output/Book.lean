import GraphExport.Output.Writer
import GraphExport.Proofs.Files
import GraphExport.Proofs.Schema.Columns

/-!
# GraphExport.Proofs.Output.Book

The book of a CSV file: the columns that it had from the start and the rows that were written to it.
Schema and text of the file follow from the book.

* `Book.text_add`: one more row adds one line.
* `LabelWriter.writeElement_ok`, `LabelWriter.writeColumns_ok`: what a successful write writes.
* `LabelWriter.Keeps`: the writer's schema and the text of its file are those of a book.
  `Keeps.write`: a write keeps the book with one more row.
-/

namespace GraphExport

/-- What a row is written from. -/
structure WrittenRow where
  structural : List String
  properties : PropertyMap

namespace WrittenRow

def ofElement (kind : OutputKind) (label : Label) (e : Element) : Except Failure WrittenRow := do
  let structural ← structuralCells kind label e
  let properties ← e.properties
  .ok { structural, properties }

def ofColumns (columns : PropertyMap) : WrittenRow := { structural := [], properties := columns }

/-- The schema of a file after the row. Results may have columns named like tokens. -/
def grow (kind : OutputKind) (s : LabelSchema) (r : WrittenRow) : LabelSchema :=
  s.update r.properties (kind = .results)

/-- The cells of the row in a file whose columns were those of the schema. -/
def record (s : LabelSchema) (r : WrittenRow) : List String :=
  r.structural ++ propertyCells r.properties s

/-- The row has a cell for each structural column. -/
def Fits (kind : OutputKind) (label : Label) (r : WrittenRow) : Prop :=
  r.structural.length = (structuralColumns kind label).length

theorem length_record (s : LabelSchema) (r : WrittenRow) :
    (r.record s).length = r.structural.length + s.names.length := by
  simp [record, propertyCells]

theorem length_structuralCells {kind : OutputKind} (hkind : kind ≠ .results) {label : Label}
    {e : Element} {cells : List String} (h : structuralCells kind label e = .ok cells) :
    cells.length = (structuralColumns kind label).length := by
  obtain ⟨id, -, h⟩ := bind_eq_ok h
  cases kind with
  | nodes =>
    cases h
    rfl
  | edges =>
    obtain ⟨source, -, h⟩ := bind_eq_ok h
    obtain ⟨target, -, h⟩ := bind_eq_ok h
    cases h
    cases hl : label.hasEndpoints <;> simp [structuralColumns, hl]
  | results => exact absurd rfl hkind

theorem ofElement_ok {kind : OutputKind} {label : Label} {e : Element} {r : WrittenRow} :
    ofElement kind label e = .ok r ↔
      structuralCells kind label e = .ok r.structural ∧ e.properties = .ok r.properties := by
  constructor
  · intro h
    obtain ⟨cells, hcells, h⟩ := bind_eq_ok h
    obtain ⟨properties, hproperties, h⟩ := bind_eq_ok h
    cases h
    exact ⟨hcells, hproperties⟩
  · rintro ⟨hcells, hproperties⟩
    rw [ofElement, hcells, hproperties]
    rfl

theorem fits_ofElement {kind : OutputKind} (hkind : kind ≠ .results) {label : Label} {e : Element}
    {r : WrittenRow} (h : ofElement kind label e = .ok r) : r.Fits kind label :=
  length_structuralCells hkind (ofElement_ok.1 h).1

theorem fits_ofColumns (label : Label) (columns : PropertyMap) :
    (ofColumns columns).Fits .results label := rfl

end WrittenRow

/-- The columns that a file had from the start, and the rows written to it. -/
structure Book where
  kind : OutputKind
  label : Label
  seed : LabelSchema
  rows : List WrittenRow := []

namespace Book

def schema (b : Book) : LabelSchema := b.rows.foldl (WrittenRow.grow b.kind) b.seed

/-- The cells of rows that are written to a file with a schema. -/
def recordsFrom (kind : OutputKind) : LabelSchema → List WrittenRow → List (List String)
  | _, [] => []
  | s, r :: rest => r.record (r.grow kind s) :: recordsFrom kind (r.grow kind s) rest

def records (b : Book) : List (List String) := recordsFrom b.kind b.seed b.rows

def header (b : Book) : List String := csvHeader b.kind b.label b.seed

def text (b : Book) : String := String.join ((b.header :: b.records).map Csv.line)

def add (b : Book) (r : WrittenRow) : Book := { b with rows := b.rows ++ [r] }

@[simp] theorem kind_add (b : Book) (r : WrittenRow) : (b.add r).kind = b.kind := rfl
@[simp] theorem label_add (b : Book) (r : WrittenRow) : (b.add r).label = b.label := rfl
@[simp] theorem seed_add (b : Book) (r : WrittenRow) : (b.add r).seed = b.seed := rfl

theorem schema_add (b : Book) (r : WrittenRow) : (b.add r).schema = r.grow b.kind b.schema := by
  simp [schema, add]

theorem recordsFrom_append (kind : OutputKind) (s : LabelSchema) (rows more : List WrittenRow) :
    recordsFrom kind s (rows ++ more) =
      recordsFrom kind s rows ++ recordsFrom kind (rows.foldl (WrittenRow.grow kind) s) more := by
  induction rows generalizing s with
  | nil => rfl
  | cons r rest ih => rw [List.cons_append, recordsFrom, recordsFrom, ih]; rfl

theorem records_add (b : Book) (r : WrittenRow) :
    (b.add r).records = b.records ++ [r.record (b.add r).schema] := by
  rw [schema_add]
  exact recordsFrom_append b.kind b.seed b.rows [r]

theorem text_add (b : Book) (r : WrittenRow) :
    (b.add r).text = b.text ++ Csv.line (r.record (b.add r).schema) := by
  simp [text, header, records_add, String.append_assoc]

/-- Columns keep their places for good. -/
theorem names_prefix_schema (b : Book) : b.seed.names <+: b.schema.names := by
  unfold schema
  generalize b.seed = s
  induction b.rows generalizing s with
  | nil => exact List.prefix_refl _
  | cons r rest ih => exact (s.names_prefix_update _ _).trans (ih _)

theorem mem_names_foldl_grow {kind : OutputKind} {rows : List WrittenRow} {s : LabelSchema}
    {name : String} : name ∈ (rows.foldl (WrittenRow.grow kind) s).names ↔ name ∈ s.names ∨
      ∃ r ∈ rows, ∃ v, r.properties.get? name = some v ∧
        LabelSchema.isRecorded (kind = .results) name v = true := by
  induction rows generalizing s with
  | nil => simp
  | cons r rest ih =>
    rw [List.foldl_cons, ih, WrittenRow.grow, LabelSchema.mem_names_update, or_assoc]
    simp only [List.mem_cons, or_and_right, exists_or, exists_eq_left]

/-- Which columns the file of a book has in the end. -/
theorem mem_names_schema {b : Book} {name : String} : name ∈ b.schema.names ↔
    name ∈ b.seed.names ∨ ∃ r ∈ b.rows, ∃ v, r.properties.get? name = some v ∧
      LabelSchema.isRecorded (b.kind = .results) name v = true :=
  mem_names_foldl_grow

theorem label_schema (b : Book) : b.schema.label = b.seed.label := by
  unfold schema
  generalize b.seed = s
  induction b.rows generalizing s with
  | nil => rfl
  | cons r rest ih => exact ih _

/-- All rows have a cell for each structural column. -/
def Fits (b : Book) : Prop := ∀ r ∈ b.rows, r.Fits b.kind b.label

theorem Fits.add {b : Book} (h : b.Fits) {r : WrittenRow} (hr : r.Fits b.kind b.label) :
    (b.add r).Fits := by
  intro r' hr'
  rcases List.mem_append.1 hr' with hr' | hr'
  · exact h r' hr'
  · rw [List.mem_singleton.1 hr']
    exact hr

end Book

namespace LabelWriter

/-- Writing an element adds a column for each of its new properties and one line. -/
theorem writeElement_ok {w w' : LabelWriter} {e : Element} {line : String}
    (hformat : w.format = .csv) (h : w.writeElement e = .ok (w', line)) :
    ∃ r, WrittenRow.ofElement w.kind w.label e = .ok r ∧ w.isOpen = true ∧
      w' = w.row (w.schema.update r.properties false) ∧
      line = Csv.line (r.record (w.schema.update r.properties false)) := by
  have hrest : (do
      let properties ← e.properties
      if w.isOpen then
        let schema := w.schema.update properties false
        let line ← elementLine w.format w.kind w.label schema e
        .ok (w.row schema, line)
      else .error (Cause.writerClosed w.path.text)) = (.ok (w', line) : Except Failure _) →
      ∃ r, WrittenRow.ofElement w.kind w.label e = .ok r ∧ w.isOpen = true ∧
        w' = w.row (w.schema.update r.properties false) ∧
        line = Csv.line (r.record (w.schema.update r.properties false)) := by
    intro h
    obtain ⟨properties, hproperties, h⟩ := bind_eq_ok h
    split at h
    · rename_i hopen
      obtain ⟨line', hline, h⟩ := bind_eq_ok h
      cases h
      rw [hformat] at hline
      obtain ⟨record, hrecord, rfl⟩ := map_eq_ok hline
      obtain ⟨cells, hcells, hrecord⟩ := bind_eq_ok hrecord
      rw [hproperties] at hrecord
      cases hrecord
      exact ⟨⟨cells, properties⟩, WrittenRow.ofElement_ok.2 ⟨hcells, hproperties⟩, hopen, rfl, rfl⟩
    · cases h
  obtain ⟨id, -, h⟩ := bind_eq_ok h
  dsimp only at h
  by_cases hkind : w.kind = .edges
  · rw [if_pos hkind] at h
    obtain ⟨source, -, h⟩ := bind_eq_ok h
    obtain ⟨target, -, h⟩ := bind_eq_ok h
    exact hrest h
  · rw [if_neg hkind] at h
    exact hrest h

theorem writeColumns_ok {w w' : LabelWriter} {columns : PropertyMap} {line : String}
    (hformat : w.format = .csv) (h : w.writeColumns columns = .ok (w', line)) :
    w.isOpen = true ∧ w' = w.row (w.schema.update columns true) ∧
      line = Csv.line ((WrittenRow.ofColumns columns).record (w.schema.update columns true)) := by
  unfold writeColumns at h
  split at h
  · rename_i ho
    simp only [Except.ok.injEq, Prod.mk.injEq] at h
    exact ⟨ho, h.1.symm, by rw [← h.2, hformat]; rfl⟩
  · cases h

/-- The writer's schema and the text of its file are those of a book. -/
structure Keeps (w : LabelWriter) (t : FileTree) (b : Book) : Prop where
  kind : w.kind = b.kind
  label : w.label = b.label
  format : w.format = .csv
  schema : w.schema = b.schema
  file : t.get? w.path = some (.file b.text)
  fits : b.Fits

theorem Keeps.write {w : LabelWriter} {t : FileTree} {b : Book} (h : w.Keeps t b) {r : WrittenRow}
    (hr : r.Fits b.kind b.label) :
    (w.row (r.grow w.kind w.schema)).Keeps
      (t.append w.path (Csv.line (r.record (r.grow w.kind w.schema)))) (b.add r) where
  kind := h.kind
  label := h.label
  format := h.format
  schema := by rw [Book.schema_add, ← h.schema, ← h.kind]; rfl
  file := by
    rw [FileTree.append_of_file h.file, Book.text_add, Book.schema_add, ← h.schema, ← h.kind]
    exact SortedMap.get?_insert_self _ _ _
  fits := h.fits.add hr

/-- A new file has a header and no rows. -/
theorem create_ok {dir : Path} {kind : OutputKind} {label : Label} {seed : Option LabelSchema}
    {d d' : Disk} {w : LabelWriter}
    (h : LabelWriter.create dir .csv kind label seed d = (.ok w, d')) :
    ∃ t t₁, d.tree.makeDirectories (dir.child kind.name) = some t ∧
      t.makeFile w.path = some t₁ ∧
      w = { label, kind, format := .csv, isOpen := true, rows := 0, lastUsed := 0,
            path := (dir.child kind.name).child (fileNameOf label (d.filesNamed + 1) .csv),
            schema := (seed.map LabelSchema.columnsOf).getD { label } } ∧
      d' = { d with
        filesNamed := d.filesNamed + 1
        tree := t₁.append w.path (Csv.line (csvHeader kind label w.schema)) } := by
  unfold create at h
  cases hd : d.tree.makeDirectories (dir.child kind.name) with
  | none => simp [hd] at h
  | some t =>
    simp only [hd] at h
    cases hf : t.makeFile ((dir.child kind.name).child
      (fileNameOf label (d.filesNamed + 1) .csv)) with
    | none => simp [hf] at h
    | some t₁ =>
      simp only [hf, Prod.mk.injEq, Except.ok.injEq] at h
      obtain ⟨rfl, rfl⟩ := h
      refine ⟨t, t₁, rfl, hf, ?_, ?_⟩
      · cases seed <;> rfl
      · cases seed <;> rfl

theorem keeps_create {dir : Path} {kind : OutputKind} {label : Label} {seed : Option LabelSchema}
    {d d' : Disk} {w : LabelWriter}
    (h : LabelWriter.create dir .csv kind label seed d = (.ok w, d')) :
    w.Keeps d'.tree ⟨kind, label, w.schema, []⟩ := by
  obtain ⟨t, t₁, -, hf, hw, rfl⟩ := create_ok h
  obtain ⟨rfl, -⟩ := FileTree.makeFile_eq_some hf
  refine ⟨by rw [hw], by rw [hw], by rw [hw], rfl, ?_, fun r hr => by cases hr⟩
  rw [FileTree.append_of_file (SortedMap.get?_insert_self _ _ _)]
  simp [Book.text, Book.records, Book.recordsFrom, Book.header]

end LabelWriter

end GraphExport
