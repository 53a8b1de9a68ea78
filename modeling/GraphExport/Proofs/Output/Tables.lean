import Mathlib.Data.List.Perm.Subperm
import GraphExport.Proofs.Output.Masters
import GraphExport.Proofs.Output.Pool

/-!
# GraphExport.Proofs.Output.Tables

From the shelves of all workers to tables: files with a header and rows of the header's width.

* `Book.isTable_realigned`: a file of a book is a table once it is in line with a schema that has
  its columns, whether it was written anew or left alone.
* `Pool.accounts_close`: a pool that is closed accounts for the files on its shelf.
* `Shelved.reconcile`: what bringing all files of a kind in line makes of the files.
-/

namespace GraphExport

/-- The text of a header and of rows that are as wide as the header. A record without fields counts
as the one empty field that its line has. -/
def IsTable (header : List String) (text : String) : Prop :=
  ∃ rows : List (List String), text = String.join ((header :: rows).map Csv.line) ∧
    ∀ row ∈ rows, (Csv.normal row).length = (Csv.normal header).length

theorem IsTable.read {header : List String} {text : String} (h : IsTable header text) :
    ∃ rows, Csv.readChars .recordStart {} text.toList =
        (.recordStart, { records := (Csv.normal header :: rows).reverse }) ∧
      ∀ row ∈ rows, row.length = (Csv.normal header).length := by
  obtain ⟨rows, rfl, hrows⟩ := h
  refine ⟨rows.map Csv.normal, ?_, fun row hrow => ?_⟩
  · rw [Csv.readChars_lines]
    simp
  · obtain ⟨row, hmem, rfl⟩ := List.mem_map.1 hrow
    exact hrows row hmem

/-- A table read back has the rows of one text only. -/
theorem IsTable.records_eq_iff {header : List String} {text : String} (h : IsTable header text)
    (hmark : Csv.startsWithMark (Csv.line header).toList = false) (hheader : header ≠ [])
    {rows : List (List String)} (hrows : ∀ row ∈ rows, row ≠ []) :
    Csv.records text.toList = header :: rows ↔
      text = String.join ((header :: rows).map Csv.line) := by
  have hread : ∀ rows, Csv.records (String.join ((header :: rows).map Csv.line)).toList =
      header :: rows.map Csv.normal := by
    intro rows
    rw [Csv.records_lines (by rwa [Csv.startsWithMark_lines]), List.map_cons,
      Csv.normal_of_ne_nil hheader]
  constructor
  · intro hrecords
    obtain ⟨rows', rfl, -⟩ := h
    rw [hread, List.cons.injEq] at hrecords
    have hlines : rows.map Csv.line = rows'.map Csv.line := by
      rw [← hrecords.2, List.map_map]
      exact List.map_congr_left fun row _ => Csv.line_normal row
    rw [List.map_cons, List.map_cons, hlines]
  · rintro rfl
    rw [hread, List.map_congr_left fun row hrow => Csv.normal_of_ne_nil (hrows row hrow),
      List.map_id']

theorem length_realign (structural : Nat) (positions : List (Option Nat)) (record : List String) :
    (realign structural positions record).length = structural + positions.length := by
  simp [realign]

theorem length_columnPositions (kind : OutputKind) (label : Label) (canonical file : LabelSchema) :
    (columnPositions kind label canonical file).length = canonical.names.length := by
  simp [columnPositions]

namespace Book

theorem length_recordsFrom {kind : OutputKind} {label : Label} {rows : List WrittenRow}
    (hrows : ∀ r ∈ rows, r.Fits kind label) {s : LabelSchema} {record : List String}
    (h : record ∈ recordsFrom kind s rows) :
    (structuralColumns kind label).length + s.names.length ≤ record.length ∧ record.length ≤
      (structuralColumns kind label).length +
        (rows.foldl (WrittenRow.grow kind) s).names.length := by
  induction rows generalizing s with
  | nil => cases h
  | cons r rest ih =>
    have hgrow := (s.names_prefix_update r.properties (kind = .results)).length_le
    have hrest := (names_prefix_schema ⟨kind, label, r.grow kind s, rest⟩).length_le
    have hfits : r.structural.length = _ := hrows r (by simp)
    simp only [schema] at hrest
    rw [List.foldl_cons]
    rcases List.mem_cons.1 h with rfl | h
    · rw [WrittenRow.length_record, hfits]
      simp only [WrittenRow.grow] at hrest ⊢
      omega
    · have := ih (fun r' hr' => hrows r' (List.mem_cons_of_mem _ hr')) h
      simp only [WrittenRow.grow] at this hrest ⊢
      omega

/-- A file in line with a schema that has its columns is a table. -/
theorem isTable_realigned {b : Book} (hb : b.Fits) {canonical : LabelSchema}
    (hnames : b.schema.names ⊆ canonical.names) :
    IsTable (csvHeader b.kind b.label canonical)
      ((realigned? b.kind b.label canonical b.schema b.text).getD b.text) := by
  simp only [realigned?]
  have hne : (Text.throughFirst '\n' b.text.toList).1 ≠ [] := by
    rw [toList_text, Csv.throughFirst_of_mem (Csv.lineFeed_mem_line _)]
    intro hempty
    have hsplit := Csv.throughFirst_append_snd '\n' (Csv.line b.header).toList
    have hmem := Csv.lineFeed_mem_line b.header
    cases hline : (Csv.line b.header).toList with
    | nil => rw [hline] at hmem; cases hmem
    | cons c rest =>
      rw [hline, Text.throughFirst] at hempty
      split at hempty <;> cases hempty
  split
  · -- The file is left alone: its header has as many columns as that of the schema.
    rename_i hleft
    rw [Option.getD_none]
    have hheader : (Text.throughFirst '\n' b.text.toList).1 =
        (Csv.line (csvHeader b.kind b.label canonical)).toList := by
      simpa [List.isEmpty_eq_false_iff.2 hne] using hleft
    rw [toList_text] at hheader
    have hnormal := Csv.normal_eq_of_header hheader
    refine ⟨b.records, ?_, fun record hrecord => ?_⟩
    · rw [text, List.map_cons, List.map_cons, Csv.line_eq_of_normal_eq hnormal]
    · have hlength := length_recordsFrom hb hrecord
      have hsubset := (List.subperm_of_subset b.schema.nodup_names hnames).length_le
      have hcolumns := congrArg List.length hnormal
      rw [Csv.length_normal, Csv.length_normal, header, length_csvHeader,
        length_csvHeader] at hcolumns
      rw [Csv.length_normal, Csv.length_normal, length_csvHeader]
      rw [schema] at hsubset
      omega
  · rw [Option.getD_some]
    refine ⟨_, by rw [List.map_cons, List.map_map]; rfl, fun row hrow => ?_⟩
    obtain ⟨record, -, rfl⟩ := List.mem_map.1 hrow
    rw [Csv.length_normal, Csv.length_normal, length_realign, length_columnPositions,
      length_csvHeader]

end Book

/-! ## Closing -/

/-- The fragments account for the files of a kind on a shelf. -/
structure Fragments.Accounts (dir : Path) (S : Shelf) (kind : OutputKind) (f : Fragments) :
    Prop where
  nodup : (f.files.map (·.1)).Nodup
  mem : ∀ {id file}, (id, file) ∈ f.files ↔
    ∃ label s, S kind label = some s ∧ file = s.fileSchema dir ∧ id = (s.path dir).text

theorem Sheet.number_eq_of_text_eq {dir : Path} {s s' : Sheet} (hkind : s.book.kind = s'.book.kind)
    (h : (s.path dir).text = (s'.path dir).text) : s.number = s'.number := by
  rw [path, path, hkind] at h
  exact LabelWriter.fileNameOf_inj (Path.text_child_inj (by simp) h)

section Close

variable {dir : Path} {kinds : List OutputKind} {base : FileTree} {shelves : Nat → Shelf} {i : Nat}
  {p : Pool} {d : Disk} {kind : OutputKind}

/-- The path and the columns of the writers of a kind, as the fragments take them up. -/
def Pool.fileSchemas (p : Pool) (kind : OutputKind) : List (String × FileSchema) :=
  (p.writers.get kind).entries.map fun e => (e.2.path.text, e.2.fileSchema)

theorem Pool.get_close_eq_foldl :
    (p.close d).1.get kind = (p.fileSchemas kind).foldl (fun f e => f.add e.1 e.2) ∅ := by
  have hget : (p.close d).1.get kind = fragmentsOf (p.writers.get kind) := by
    cases kind <;> rfl
  rw [hget, fragmentsOf, SortedMap.values, fileSchemas, List.foldl_map, List.foldl_map]

/-- Every writer of a pool writes a file on the shelf, and knows its columns. -/
theorem Pool.Holds.sheet_of_entry (hp : p.Holds dir kinds (shelves i)) {label : Label}
    {w : LabelWriter} (hw : (label, w) ∈ (p.writers.get kind).entries) :
    ∃ s, shelves i kind label = some s ∧ w.path = s.path dir ∧
      w.fileSchema = s.fileSchema dir := by
  obtain ⟨-, -, s, hsheet, hwrites⟩ := hp.writer (SortedMap.mem_entries.1 hw)
  refine ⟨s, hsheet, hwrites.path, ?_⟩
  rw [LabelWriter.fileSchema, Sheet.fileSchema, hwrites.path, hwrites.format, hwrites.schema]

/-- No two writers of a pool write to one path. -/
theorem Pool.Holds.nodup_fileSchemas (hs : Shelved dir kinds base shelves d)
    (hp : p.Holds dir kinds (shelves i)) : ((p.fileSchemas kind).map (·.1)).Nodup := by
  rw [fileSchemas, List.map_map, List.nodup_iff_pairwise_ne, List.pairwise_map]
  have hkeys := (p.writers.get kind).increasing.nodup_keys
  rw [List.nodup_iff_pairwise_ne, List.pairwise_map] at hkeys
  refine hkeys.imp_of_mem fun {a b} ha hb hne heq => hne ?_
  obtain ⟨s, hsheet, hpath, -⟩ := hp.sheet_of_entry ha
  obtain ⟨s', hsheet', hpath', -⟩ := hp.sheet_of_entry hb
  simp only [Function.comp_apply, hpath, hpath'] at heq
  have hkind : s.book.kind = s'.book.kind := (hs.placed hsheet).1.trans (hs.placed hsheet').1.symm
  exact (hs.distinct hsheet hsheet' (Sheet.number_eq_of_text_eq hkind heq)).2.2

theorem Pool.Holds.mem_fileSchemas (hp : p.Holds dir kinds (shelves i)) {id : String}
    {file : FileSchema} :
    (id, file) ∈ p.fileSchemas kind ↔
      ∃ label s, shelves i kind label = some s ∧ file = s.fileSchema dir ∧
        id = (s.path dir).text := by
  rw [Pool.fileSchemas, List.mem_map]
  constructor
  · rintro ⟨⟨label, w⟩, hw, heq⟩
    obtain ⟨s, hsheet, hpath, hfile⟩ := hp.sheet_of_entry hw
    obtain ⟨rfl, rfl⟩ := Prod.mk.inj heq
    exact ⟨label, s, hsheet, hfile, congrArg Path.text hpath⟩
  · rintro ⟨label, s, hsheet, hfile, hid⟩
    obtain ⟨w, hw⟩ := hp.sheet hsheet
    have hmem : (label, w) ∈ (p.writers.get kind).entries := SortedMap.mem_entries.2 hw
    obtain ⟨s', hsheet', hpath, hfile'⟩ := hp.sheet_of_entry hmem
    rw [hsheet] at hsheet'
    obtain rfl := Option.some.inj hsheet'
    exact ⟨(label, w), hmem, by rw [hpath, hfile', hid, hfile]⟩

/-- A pool that is closed accounts for the files on its shelf. -/
theorem Pool.accounts_close (hs : Shelved dir kinds base shelves d)
    (hp : p.Holds dir kinds (shelves i)) (kind : OutputKind) :
    ((p.close d).1.get kind).Accounts dir (shelves i) kind := by
  have hids : ((p.fileSchemas kind).map (·.1)).Nodup := hp.nodup_fileSchemas hs
  have hlists := Fragments.lists_foldl (Fragments.nodup_place hids)
  rw [get_close_eq_foldl]
  exact ⟨hlists.nodup_files hids, fun {id file} => by rw [hlists.mem_files, hp.mem_fileSchemas]⟩

end Close

/-! ## All files of a kind -/

section Reconcile

variable {dir : Path} {kinds : List OutputKind} {base : FileTree} {shelves : Nat → Shelf} {d : Disk}
  {kind : OutputKind} {fragments : List Fragments}

theorem mem_flatMap_files
    (haccounts : ∀ (i : Nat) (f : Fragments), fragments[i]? = some f →
      f.Accounts dir (shelves i) kind)
    (hempty : ∀ i, fragments.length ≤ i → ∀ label, shelves i kind label = none)
    {id : String} {file : FileSchema} :
    (id, file) ∈ fragments.flatMap Fragments.files ↔
      ∃ i label s, shelves i kind label = some s ∧ file = s.fileSchema dir ∧
        id = (s.path dir).text := by
  rw [List.mem_flatMap]
  constructor
  · rintro ⟨f, hf, hfile⟩
    obtain ⟨i, hi⟩ := List.getElem?_of_mem hf
    exact ⟨i, (haccounts i f hi).mem.1 hfile⟩
  · rintro ⟨i, label, s, hsheet, hrest⟩
    rcases Nat.lt_or_ge i fragments.length with hi | hi
    · have hget := List.getElem?_eq_getElem hi
      exact ⟨_, List.getElem_mem hi, (haccounts i _ hget).mem.2 ⟨label, s, hsheet, hrest⟩⟩
    · rw [hempty i hi] at hsheet
      cases hsheet

theorem nodup_flatMap_files (hs : Shelved dir kinds base shelves d)
    (haccounts : ∀ (i : Nat) (f : Fragments), fragments[i]? = some f →
      f.Accounts dir (shelves i) kind) :
    ((fragments.flatMap Fragments.files).map (·.1)).Nodup := by
  rw [List.map_flatMap, List.nodup_iff_pairwise_ne, List.pairwise_flatMap]
  refine ⟨fun f hf => ?_, ?_⟩
  · obtain ⟨i, hi⟩ := List.getElem?_of_mem hf
    exact List.nodup_iff_pairwise_ne.1 (haccounts i f hi).nodup
  · rw [List.pairwise_iff_getElem]
    intro i j hi hj hij id hid _ hid' rfl
    obtain ⟨⟨_, file⟩, hfile, rfl⟩ := List.mem_map.1 hid
    obtain ⟨⟨_, file'⟩, hfile', heq⟩ := List.mem_map.1 hid'
    obtain ⟨label, s, hsheet, -, htext⟩ :=
      (haccounts i _ (List.getElem?_eq_getElem hi)).mem.1 hfile
    obtain ⟨label', s', hsheet', -, htext'⟩ :=
      (haccounts j _ (List.getElem?_eq_getElem hj)).mem.1 hfile'
    have hkind : s.book.kind = s'.book.kind := (hs.placed hsheet).1.trans (hs.placed hsheet').1.symm
    have hpaths : (s.path dir).text = (s'.path dir).text := by
      simp only at htext htext' heq
      rw [← htext, ← htext', heq]
    have hnumber := Sheet.number_eq_of_text_eq hkind hpaths
    have := (hs.distinct hsheet hsheet' hnumber).1
    omega

/-- What bringing all files of a kind in line makes of the files. -/
structure Reconciled (dir : Path) (shelves : Nat → Shelf) (kind : OutputKind)
    (schemas : Collection) (t t' : FileTree) : Prop where
  file : ∀ {i label s}, shelves i kind label = some s → ∃ canonical,
    schemas.get? label = some canonical ∧ s.book.schema.names ⊆ canonical.names ∧
      t'.get? (s.path dir) = some (.file
        ((realigned? kind label canonical s.book.schema s.book.text).getD s.book.text))
  used : ∀ {label canonical}, schemas.get? label = some canonical →
    (∃ i s, shelves i kind label = some s) ∧ ∀ name ∈ canonical.names,
      ∃ i s, shelves i kind label = some s ∧ name ∈ s.book.schema.names
  /-- The schema of a label that one worker has written is that of its file. -/
  single : ∀ {i label s}, shelves i kind label = some s →
    (∀ j s', shelves j kind label = some s' → j = i) →
      schemas.get? label = some (({ label } : LabelSchema).union s.book.schema)
  frame : ∀ q, (∀ i label s, shelves i kind label = some s → s.path dir ≠ q) →
    t'.get? q = t.get? q ∨
      ((∃ i label s, shelves i kind label = some s ∧ q = (s.path dir).temporary) ∧ t'.get? q = none)

theorem Shelved.label_schema (hs : Shelved dir kinds base shelves d) {i : Nat} {label : Label}
    {s : Sheet}
    (hsheet : shelves i kind label = some s) : (s.fileSchema dir).schema.label = label := by
  rw [← (hs.placed hsheet).2.2]
  exact Book.label_schema s.book

section Accounted

variable (hs : Shelved dir kinds base shelves d)
  (haccounts : ∀ (i : Nat) (f : Fragments), fragments[i]? = some f →
    f.Accounts dir (shelves i) kind)
  (hempty : ∀ i, fragments.length ≤ i → ∀ label, shelves i kind label = none)

include hs haccounts hempty

omit hempty in
theorem lists_accounted :
    (fragments.foldl Fragments.extend ∅).Lists (fragments.flatMap Fragments.files) :=
  Masters.lists_extend (Fragments.nodup_place (nodup_flatMap_files hs haccounts))

/-- The files that are registered for a label are those on the shelves under the label. -/
theorem mem_files_accounted {label : Label} {id : String} {file : FileSchema} :
    (id, file) ∈ fragments.flatMap Fragments.files ∧ file.schema.label = label ↔
      ∃ i s, shelves i kind label = some s ∧ file = s.fileSchema dir ∧
        id = (s.path dir).text := by
  constructor
  · rintro ⟨hid, hlabel⟩
    obtain ⟨i, label', s, hsheet, rfl, hpath⟩ := (mem_flatMap_files haccounts hempty).1 hid
    rw [hs.label_schema hsheet] at hlabel
    subst hlabel
    exact ⟨i, s, hsheet, rfl, hpath⟩
  · rintro ⟨i, s, hsheet, rfl, hpath⟩
    exact ⟨(mem_flatMap_files haccounts hempty).2 ⟨i, label, s, hsheet, rfl, hpath⟩,
      hs.label_schema hsheet⟩

/-- The jobs of the rewrite are the files on the shelves, each with the schema of its label. -/
theorem mem_jobs_accounted {label : Label} {canonical : LabelSchema} {file : FileSchema} :
    (label, canonical, file) ∈ (Masters.ofFragments fragments).jobs ↔
      (∃ i s, shelves i kind label = some s ∧ file = s.fileSchema dir) ∧
        (Masters.ofFragments fragments).schemas.get? label = some canonical := by
  rw [Masters.mem_jobs (lists_accounted hs haccounts)]
  constructor
  · rintro ⟨⟨id, hid⟩, hlabel, hcanonical⟩
    obtain ⟨i, s, hsheet, hfile, -⟩ := (mem_files_accounted hs haccounts hempty).1 ⟨hid, hlabel⟩
    exact ⟨⟨i, s, hsheet, hfile⟩, hcanonical⟩
  · rintro ⟨⟨i, s, hsheet, hfile⟩, hcanonical⟩
    obtain ⟨hid, hlabel⟩ :=
      (mem_files_accounted hs haccounts hempty).2 ⟨i, s, hsheet, hfile, rfl⟩
    exact ⟨⟨_, hid⟩, hlabel, hcanonical⟩

theorem isSome_accounted {label : Label} :
    ((Masters.ofFragments fragments).schemas.get? label).isSome ↔
      ∃ i s, shelves i kind label = some s := by
  rw [Masters.isSome_schemas (lists_accounted hs haccounts)]
  constructor
  · rintro ⟨id, file, hfile⟩
    obtain ⟨i, s, hsheet, -⟩ := (mem_files_accounted hs haccounts hempty).1 hfile
    exact ⟨i, s, hsheet⟩
  · rintro ⟨i, s, hsheet⟩
    exact ⟨_, _, (mem_files_accounted hs haccounts hempty).2 ⟨i, s, hsheet, rfl, rfl⟩⟩

theorem mem_names_accounted {label : Label} {canonical : LabelSchema}
    (hcanonical : (Masters.ofFragments fragments).schemas.get? label = some canonical)
    {name : String} :
    name ∈ canonical.names ↔
      ∃ i s, shelves i kind label = some s ∧ name ∈ s.book.schema.names := by
  rw [Masters.mem_names_schemas (lists_accounted hs haccounts) hcanonical]
  constructor
  · rintro ⟨id, file, hid, hlabel, hname⟩
    obtain ⟨i, s, hsheet, rfl, -⟩ := (mem_files_accounted hs haccounts hempty).1 ⟨hid, hlabel⟩
    exact ⟨i, s, hsheet, hname⟩
  · rintro ⟨i, s, hsheet, hname⟩
    obtain ⟨hid, hlabel⟩ := (mem_files_accounted hs haccounts hempty).2 ⟨i, s, hsheet, rfl, rfl⟩
    exact ⟨_, _, hid, hlabel, hname⟩

/-- The schema of a label is the union over the files of the label on the shelves. -/
theorem exists_unionAll_accounted {label : Label} {canonical : LabelSchema}
    (hcanonical : (Masters.ofFragments fragments).schemas.get? label = some canonical) :
    ∃ schemas : List LabelSchema, schemas ≠ [] ∧
      canonical = ({ label } : LabelSchema).unionAll schemas ∧
      ∀ t ∈ schemas, ∃ i s, shelves i kind label = some s ∧ t = s.book.schema := by
  obtain ⟨schemas, hne, rfl, hall⟩ :=
    Masters.exists_unionAll (lists_accounted hs haccounts) hcanonical
  refine ⟨schemas, hne, rfl, fun t ht => ?_⟩
  obtain ⟨id, file, hid, hlabel, rfl⟩ := hall t ht
  obtain ⟨i, s, hsheet, rfl, -⟩ := (mem_files_accounted hs haccounts hempty).1 ⟨hid, hlabel⟩
  exact ⟨i, s, hsheet, rfl⟩

theorem nodup_jobs_accounted :
    ((Masters.ofFragments fragments).jobs.map (·.2.2.path)).Nodup := by
  have hids := nodup_flatMap_files hs haccounts
  have hid : ∀ e ∈ fragments.flatMap Fragments.files, e.1 = e.2.path.text := by
    rintro ⟨id, file⟩ he
    obtain ⟨i, label, s, -, hfile, hid⟩ := (mem_flatMap_files haccounts hempty).1 he
    simp only [hid, hfile, Sheet.fileSchema]
  exact Masters.nodup_jobs (lists_accounted hs haccounts) hids hid

theorem path_ne_temporary_accounted : ∀ a ∈ (Masters.ofFragments fragments).jobs,
    ∀ b ∈ (Masters.ofFragments fragments).jobs, a.2.2.path ≠ b.2.2.path.temporary := by
  rintro ⟨la, ca, fa⟩ ha ⟨lb, cb, fb⟩ hb
  obtain ⟨⟨i, s, -, hfa⟩, -⟩ := (mem_jobs_accounted hs haccounts hempty).1 ha
  obtain ⟨⟨j, s', -, hfb⟩, -⟩ := (mem_jobs_accounted hs haccounts hempty).1 hb
  simp only [hfa, hfb]
  exact Sheet.path_ne_temporary dir s s'

theorem get?_schemas_accounted {i : Nat} {label : Label} {s : Sheet}
    (hsheet : shelves i kind label = some s)
    (honly : ∀ j s', shelves j kind label = some s' → j = i) :
    (Masters.ofFragments fragments).schemas.get? label =
      some (({ label } : LabelSchema).union s.book.schema) := by
  have hlists := lists_accounted hs haccounts
  obtain ⟨hmem, hlabel⟩ := (mem_files_accounted hs haccounts hempty).2 ⟨i, s, hsheet, rfl, rfl⟩
  have hsame : ∀ e ∈ fragments.flatMap Fragments.files,
      e.2.schema.label = (s.fileSchema dir).schema.label →
        e = ((s.path dir).text, s.fileSchema dir) := by
    rintro ⟨id, file⟩ he heq
    rw [hlabel] at heq
    obtain ⟨j, s', hsheet', hfile, hpath⟩ :=
      (mem_files_accounted hs haccounts hempty).1 ⟨he, heq⟩
    rw [honly j s' hsheet', hsheet] at hsheet'
    rw [hfile, hpath, Option.some.inj hsheet']
  have hschema := Masters.get?_schemas_of_single hlists hmem hsame
  rwa [hlabel] at hschema

theorem Shelved.reconcile {schemas : Collection} {t' : FileTree}
    (h : GraphExport.reconcile .csv kind (.ofFragments fragments) d.tree = (.ok schemas, t')) :
    Reconciled dir shelves kind schemas d.tree t' := by
  obtain ⟨hall, rfl⟩ := reconcile_ok_iff.1 h
  have hjobs : ∀ {label canonical file},
      (label, canonical, file) ∈ (Masters.ofFragments fragments).jobs ↔
        (∃ i s, shelves i kind label = some s ∧ file = s.fileSchema dir) ∧
          (Masters.ofFragments fragments).schemas.get? label = some canonical :=
    mem_jobs_accounted hs haccounts hempty
  obtain ⟨hfiles, hframe⟩ :=
    reconcileAll_ok (nodup_jobs_accounted hs haccounts hempty)
      (path_ne_temporary_accounted hs haccounts hempty) hall
  refine ⟨fun {i label s} hsheet => ?_, fun {label canonical} hcanonical =>
    ⟨?_, fun name hname => ?_⟩,
    get?_schemas_accounted hs haccounts hempty, fun q hq => ?_⟩
  · obtain ⟨canonical, hcanonical⟩ := Option.isSome_iff_exists.1
      ((isSome_accounted hs haccounts hempty).2 ⟨i, s, hsheet⟩)
    refine ⟨canonical, hcanonical, fun name hname => ?_, ?_⟩
    · exact (mem_names_accounted hs haccounts hempty hcanonical).2 ⟨i, s, hsheet, hname⟩
    · obtain ⟨content, hcontent, hnew⟩ := hfiles label canonical (s.fileSchema dir)
        (hjobs.2 ⟨⟨i, s, hsheet, rfl⟩, hcanonical⟩)
      have htext := hs.file hsheet
      rw [show (s.fileSchema dir).path = s.path dir from rfl, htext] at hcontent
      simp only [Option.some.injEq, Entry.file.injEq] at hcontent
      rw [hcontent]
      exact hnew
  · exact (isSome_accounted hs haccounts hempty).1 (by rw [hcanonical]; rfl)
  · exact (mem_names_accounted hs haccounts hempty hcanonical).1 hname
  · have hnot : q ∉ (Masters.ofFragments fragments).jobs.map (·.2.2.path) := by
      intro hq'
      obtain ⟨⟨label, canonical, file⟩, hmem, heq⟩ := List.mem_map.1 hq'
      obtain ⟨⟨i, s, hsheet, hfile⟩, -⟩ := hjobs.1 hmem
      refine hq i label s hsheet ?_
      rw [← heq, hfile]
      rfl
    rcases hframe q hnot with hsame | ⟨⟨⟨label, canonical, file⟩, hmem, heq⟩, hnone⟩
    · exact .inl hsame
    · obtain ⟨⟨i, s, hsheet, hfile⟩, -⟩ := hjobs.1 hmem
      refine .inr ⟨⟨i, label, s, hsheet, ?_⟩, hnone⟩
      rw [heq, hfile]
      rfl

end Accounted

end Reconcile

end GraphExport
