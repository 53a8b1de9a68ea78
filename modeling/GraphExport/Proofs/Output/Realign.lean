import GraphExport.Output.Reconcile
import GraphExport.Proofs.Csv.RoundTrip
import GraphExport.Proofs.Output.Book

/-!
# GraphExport.Proofs.Output.Realign

Rows under the columns of a master schema. A row is written under the columns that its file has at
the time, and the rewrite finds its cells by their positions under the last columns of the file.
Since columns keep their places, the two are the same.

* `realign_record`: a row that is put in line has the cells that it was written with.
* `Book.alignedRecords_eq_map`: these are its cells under all columns that the file has in the end.
* `Book.realigned_eq_aligned`: when the text of a file that started without columns is put in line,
  it is the text that its rows should have, unless a byte order mark is lost.
-/

namespace GraphExport

/-! ## One row -/

namespace WrittenRow

/-- The cell that the row was written with, empty where the file did not have the column then. -/
def cellOf (s : LabelSchema) (r : WrittenRow) (name : String) : String :=
  if name ∈ s.names then ((r.properties.get? name).map cell).getD "" else ""

/-- The cells of the row under other columns. -/
def aligned (columns : List String) (s : LabelSchema) (r : WrittenRow) : List String :=
  r.structural ++ columns.map (r.cellOf s)

/-- A property that has no column after its row is written has an empty cell, unless its name makes
none. -/
theorem cell_of_no_column {kind : OutputKind} {s : LabelSchema} {r : WrittenRow} {name : String}
    (hname : (decide (kind = .results) || !LabelSchema.isTokenName name) = true)
    (h : name ∉ (r.grow kind s).names) : ((r.properties.get? name).map cell).getD "" = "" := by
  cases hget : r.properties.get? name with
  | none => rfl
  | some v =>
    rw [grow, LabelSchema.mem_names_update, not_or] at h
    have hnull : v.isNull = true := by
      cases hvalue : v.isNull with
      | true => rfl
      | false =>
        have hrecorded : LabelSchema.isRecorded (kind = .results) name v = true := by
          rw [LabelSchema.isRecorded, hvalue, hname]
          rfl
        exact absurd ⟨v, hget, hrecorded⟩ h.2
    cases v with
    | null => rfl
    | bool _ | int _ | float _ | str _ | arr _ | obj _ => cases hnull

/-- The cells of a row are the same under the columns of its time and under those that other rows
have added since. -/
theorem cellOf_foldl_grow (kind : OutputKind) (s : LabelSchema) (r : WrittenRow)
    (rest : List WrittenRow) :
    r.cellOf (rest.foldl (grow kind) (r.grow kind s)) = r.cellOf (r.grow kind s) := by
  funext name
  unfold cellOf
  by_cases hnow : name ∈ (r.grow kind s).names
  · rw [if_pos hnow, if_pos (Book.mem_names_foldl_grow.2 (.inl hnow))]
  rw [if_neg hnow]
  split
  · rename_i hlater
    obtain ⟨r', -, v, -, hrecorded⟩ := (Book.mem_names_foldl_grow.1 hlater).resolve_left hnow
    exact cell_of_no_column (Bool.and_eq_true_iff.1 hrecorded).2 hnow
  · rfl

end WrittenRow

theorem getD_normal (record : List String) (i : Nat) :
    (Csv.normal record).getD i "" = record.getD i "" := by
  unfold Csv.normal
  split
  · rename_i h
    subst h
    cases i <;> simp
  · rfl

theorem realign_normal (structural : Nat) (positions : List (Option Nat)) (record : List String) :
    realign structural positions (Csv.normal record) = realign structural positions record := by
  simp only [realign, getD_normal]

theorem map_getD_range (l more : List String) :
    (List.range l.length).map ((l ++ more).getD · "") = l := by
  apply List.ext_getElem
  · simp
  · intro i h₁ h₂
    simp [List.getElem?_append_left h₂, List.getElem?_eq_getElem h₂]

theorem getD_propertyCells (properties : PropertyMap) {s : LabelSchema} {names : List String}
    (hnames : names.Nodup) (hstarts : s.names <+: names) {name : String} {i : Nat}
    (hi : names.idxOf? name = some i) :
    (propertyCells properties s).getD i "" =
      if name ∈ s.names then ((properties.get? name).map cell).getD "" else "" := by
  obtain ⟨hlt, hget, -⟩ := List.idxOf?_eq_some_iff.1 hi
  have hget : names[i] = name := by simpa using hget
  obtain ⟨more, rfl⟩ := hstarts
  by_cases hs : i < s.names.length
  · have hname : s.names[i] = name := by rw [← hget, List.getElem_append_left hs]
    rw [if_pos (by rw [← hname]; exact List.getElem_mem _)]
    simp [propertyCells, List.getElem?_eq_getElem hs, hname]
  · have hnot : name ∉ s.names := by
      intro hmem
      rw [List.getElem_append_right (by omega)] at hget
      have hmore : name ∈ more := hget ▸ List.getElem_mem _
      exact (List.nodup_append.1 hnames).2.2 name hmem name hmore rfl
    rw [if_neg hnot]
    simp [propertyCells, List.getElem?_eq_none (Nat.le_of_not_lt hs)]

/-- A row that is put in line has the cells that it was written with. -/
theorem realign_record {kind : OutputKind} {label : Label} {r : WrittenRow}
    (hr : r.Fits kind label) {s file : LabelSchema} (hstarts : s.names <+: file.names)
    (canonical : LabelSchema) :
    realign (structuralColumns kind label).length (columnPositions kind label canonical file)
      (r.record s) = r.aligned canonical.names s := by
  have hlength : (structuralColumns kind label).length = r.structural.length := hr.symm
  unfold realign WrittenRow.record WrittenRow.aligned
  rw [hlength, map_getD_range]
  congr 1
  rw [columnPositions, List.map_map]
  refine List.map_congr_left fun name _ => ?_
  rw [Function.comp_apply, hlength]
  unfold WrittenRow.cellOf
  cases hi : file.names.idxOf? name with
  | none =>
    have hnot : name ∉ s.names := fun h => List.idxOf?_eq_none_iff.1 hi (hstarts.subset h)
    rw [if_neg hnot]
    rfl
  | some i =>
    rw [← getD_propertyCells r.properties file.nodup_names hstarts hi]
    simp [List.getElem?_append_right]

/-! ## All rows -/

namespace Book

def alignedFrom (kind : OutputKind) (columns : List String) :
    LabelSchema → List WrittenRow → List (List String)
  | _, [] => []
  | s, r :: rest =>
    r.aligned columns (r.grow kind s) :: alignedFrom kind columns (r.grow kind s) rest

/-- The rows under the columns of a master schema. -/
def alignedRecords (canonical : LabelSchema) (b : Book) : List (List String) :=
  alignedFrom b.kind canonical.names b.seed b.rows

theorem alignedFrom_eq_map (kind : OutputKind) (columns : List String) (rows : List WrittenRow)
    (s : LabelSchema) : alignedFrom kind columns s rows =
      rows.map (·.aligned columns (rows.foldl (WrittenRow.grow kind) s)) := by
  induction rows generalizing s with
  | nil => rfl
  | cons r rest ih =>
    rw [alignedFrom, ih, List.map_cons, List.foldl_cons, WrittenRow.aligned, WrittenRow.aligned,
      WrittenRow.cellOf_foldl_grow]

/-- The rows under the columns of a master schema, by the columns that the file has in the end. -/
theorem alignedRecords_eq_map (b : Book) (canonical : LabelSchema) :
    b.alignedRecords canonical = b.rows.map (·.aligned canonical.names b.schema) :=
  alignedFrom_eq_map b.kind canonical.names b.rows b.seed

/-- The text that the file should have under the columns of a master schema. -/
def alignedText (canonical : LabelSchema) (b : Book) : String :=
  String.join ((csvHeader b.kind b.label canonical :: b.alignedRecords canonical).map Csv.line)

theorem map_realign_recordsFrom {kind : OutputKind} {label : Label} {rows : List WrittenRow}
    (hrows : ∀ r ∈ rows, r.Fits kind label) {s file : LabelSchema}
    (hstarts : (rows.foldl (WrittenRow.grow kind) s).names <+: file.names)
    (canonical : LabelSchema) :
    (recordsFrom kind s rows).map (realign (structuralColumns kind label).length
        (columnPositions kind label canonical file)) =
      alignedFrom kind canonical.names s rows := by
  induction rows generalizing s with
  | nil => rfl
  | cons r rest ih =>
    have hfirst : (r.grow kind s).names <+: file.names :=
      (names_prefix_schema ⟨kind, label, r.grow kind s, rest⟩).trans hstarts
    rw [recordsFrom, alignedFrom, List.map_cons, realign_record (hrows r (by simp)) hfirst,
      ih (fun r' hr' => hrows r' (List.mem_cons_of_mem _ hr')) hstarts]

theorem map_realign_records {b : Book} (hb : b.Fits) (canonical : LabelSchema) :
    b.records.map (realign (structuralColumns b.kind b.label).length
        (columnPositions b.kind b.label canonical b.schema)) = b.alignedRecords canonical :=
  map_realign_recordsFrom hb (List.prefix_refl _) canonical

/-- The file had no columns from the start. -/
def Unseeded (b : Book) : Prop := b.seed.names = []

theorem header_of_unseeded {b : Book} (h : b.Unseeded) :
    b.header = structuralColumns b.kind b.label := by
  have : b.seed.columns.entries = [] := by
    have h : b.seed.columns.entries.map (·.1) = [] := h
    simpa using h
  simp [header, csvHeader, this]

theorem throughFirst_structural (kind : OutputKind) (label : Label) (rest : List Char) :
    Text.throughFirst '\n' ((Csv.line (structuralColumns kind label)).toList ++ rest) =
      ((Csv.line (structuralColumns kind label)).toList, rest) := by
  rw [Csv.throughFirst_of_mem (Csv.lineFeed_mem_line _)]
  have h : Text.throughFirst '\n' (Csv.line (structuralColumns kind label)).toList =
      ((Csv.line (structuralColumns kind label)).toList, []) := by
    cases kind with
    | nodes => simp only [structuralColumns]; decide +kernel
    | edges =>
      cases hl : label.hasEndpoints <;> simp only [structuralColumns, hl] <;> decide +kernel
    | results => simp only [structuralColumns]; decide +kernel
  rw [h]
  rfl

theorem toList_text (b : Book) :
    b.text.toList =
      (Csv.line b.header).toList ++ (String.join (b.records.map Csv.line)).toList := by
  simp [text]

theorem realigned?_of_unseeded {b : Book} (h : b.Unseeded) (canonical file : LabelSchema) :
    realigned? b.kind b.label canonical file b.text =
      if Csv.line (csvHeader b.kind b.label canonical) = Csv.line b.header then none
      else some (String.join ((csvHeader b.kind b.label canonical ::
        (Csv.records (String.join (b.records.map Csv.line)).toList).map
          (realign (structuralColumns b.kind b.label).length
            (columnPositions b.kind b.label canonical file))).map Csv.line)) := by
  have hne : (Csv.line b.header).toList.isEmpty = false :=
    List.isEmpty_eq_false_iff.2 (Csv.line_ne_nil b.header)
  have hsplit : Text.throughFirst '\n' b.text.toList =
      ((Csv.line b.header).toList, (String.join (b.records.map Csv.line)).toList) := by
    rw [toList_text, header_of_unseeded h, throughFirst_structural]
  have hiff :
      ((Csv.line b.header).toList = (Csv.line (csvHeader b.kind b.label canonical)).toList) ↔
      Csv.line (csvHeader b.kind b.label canonical) = Csv.line b.header := by
    rw [String.toList_inj, eq_comm]
  simp only [realigned?, hsplit, hne, Bool.false_or, decide_eq_true_eq, hiff, List.map_cons,
    List.map_map, Function.comp_def]

/-- The rewrite loses the byte order mark that the first row begins with: there is a rewrite, and it
takes the mark for one of the file. -/
def LosesMark (canonical : LabelSchema) (b : Book) : Prop :=
  Csv.line (csvHeader b.kind b.label canonical) ≠ Csv.line b.header ∧
    ∃ record rest, b.records = record :: rest ∧
      Csv.startsWithMark (Csv.line record).toList = true

/-- A row under the only columns that a header without columns agrees with. -/
theorem line_aligned_of_short {kind : OutputKind} {label : Label} {r : WrittenRow}
    (hr : r.Fits kind label) {s : LabelSchema} {columns : List String}
    (hshort : (structuralColumns kind label).length + columns.length ≤
      max (structuralColumns kind label).length 1) (hs : s.names ⊆ columns) :
    Csv.line (r.aligned columns s) = Csv.line (r.record s) := by
  rcases Nat.lt_or_ge 0 columns.length with hpos | hzero
  · have hstructural : r.structural = [] := by
      rw [← List.length_eq_zero_iff, hr]
      omega
    obtain ⟨name, rfl⟩ := List.length_eq_one_iff.1 (show columns.length = 1 by omega)
    apply Csv.line_eq_of_normal_eq
    cases hnames : s.names with
    | nil =>
      simp [WrittenRow.aligned, WrittenRow.record, WrittenRow.cellOf, propertyCells, hstructural,
        hnames, Csv.normal]
    | cons first more =>
      have hmore : more = [] := by
        have hnodup := s.nodup_names
        rw [hnames, List.nodup_cons] at hnodup
        apply List.eq_nil_iff_forall_not_mem.2
        intro other hother
        have h₁ := hs (hnames ▸ List.mem_cons_self)
        have h₂ := hs (hnames ▸ List.mem_cons_of_mem _ hother)
        rw [List.mem_singleton] at h₁ h₂
        rw [h₁, ← h₂] at hnodup
        exact hnodup.1 hother
      have hfirst : first = name := by
        have := hs (hnames ▸ List.mem_cons_self)
        simpa using this
      subst hmore hfirst
      simp [WrittenRow.aligned, WrittenRow.record, WrittenRow.cellOf, propertyCells, hstructural,
        hnames]
  · obtain rfl := List.length_eq_zero_iff.1 (Nat.le_zero.1 hzero)
    have hnames : s.names = [] := List.subset_nil.1 hs
    simp [WrittenRow.aligned, WrittenRow.record, propertyCells, hnames]

theorem lines_aligned_of_short {kind : OutputKind} {label : Label} {rows : List WrittenRow}
    (hrows : ∀ r ∈ rows, r.Fits kind label) {s : LabelSchema} {columns : List String}
    (hshort : (structuralColumns kind label).length + columns.length ≤
      max (structuralColumns kind label).length 1)
    (hs : (rows.foldl (WrittenRow.grow kind) s).names ⊆ columns) :
    (alignedFrom kind columns s rows).map Csv.line = (recordsFrom kind s rows).map Csv.line := by
  induction rows generalizing s with
  | nil => rfl
  | cons r rest ih =>
    have hfirst : (r.grow kind s).names ⊆ columns := fun name hname =>
      hs ((names_prefix_schema ⟨kind, label, r.grow kind s, rest⟩).subset hname)
    rw [alignedFrom, recordsFrom, List.map_cons, List.map_cons,
      line_aligned_of_short (hrows r (by simp)) hshort hfirst,
      ih (fun r' hr' => hrows r' (List.mem_cons_of_mem _ hr')) hs]

theorem alignedText_of_header {b : Book} (hb : b.Fits) (h : b.Unseeded) {canonical : LabelSchema}
    (hnames : b.schema.names ⊆ canonical.names)
    (hheader : Csv.line (csvHeader b.kind b.label canonical) = Csv.line b.header) :
    b.alignedText canonical = b.text := by
  have hlength := congrArg List.length (Csv.normal_eq_of_line_eq hheader)
  rw [Csv.length_normal, Csv.length_normal, length_csvHeader, header_of_unseeded h] at hlength
  have hshort : (structuralColumns b.kind b.label).length + canonical.names.length ≤
      max (structuralColumns b.kind b.label).length 1 := by omega
  have hlines := lines_aligned_of_short hb hshort hnames
  rw [alignedText, text, alignedRecords, records, List.map_cons, List.map_cons, hheader, hlines]

theorem eq_of_realign_eq {structural : Nat} {positions : List (Option Nat)}
    (h : 0 < structural ∨ some 0 ∈ positions) {a a' : String} {cells : List String}
    (heq : realign structural positions (a :: cells) = realign structural positions (a' :: cells)) :
    a = a' := by
  obtain ⟨hfirst, hrest⟩ := List.append_inj heq (by simp)
  rcases h with h | h
  · have := List.map_inj_left.1 hfirst 0 (List.mem_range.2 h)
    simpa using this
  · have := List.map_inj_left.1 hrest (some 0) h
    simpa using this

theorem realign_ne_nil {structural : Nat} {positions : List (Option Nat)}
    (h : 0 < structural ∨ some 0 ∈ positions) (record : List String) :
    realign structural positions record ≠ [] := by
  intro he
  rw [realign, List.append_eq_nil_iff, List.map_eq_nil_iff, List.map_eq_nil_iff,
    List.range_eq_nil] at he
  rcases h with h | h
  · omega
  · rw [he.2] at h
    cases h

/-- The first cell of a row that has one goes somewhere. -/
theorem first_position {b : Book} {record : List String} {rest : List (List String)}
    (hrecords : b.records = record :: rest) (hne : record ≠ []) (hb : b.Fits)
    {canonical : LabelSchema} (hnames : b.schema.names ⊆ canonical.names) :
    0 < (structuralColumns b.kind b.label).length ∨
      some 0 ∈ columnPositions b.kind b.label canonical b.schema := by
  rcases Nat.eq_zero_or_pos (structuralColumns b.kind b.label).length with hzero | hpos
  · right
    cases hrows : b.rows with
    | nil =>
      rw [records, hrows] at hrecords
      cases hrecords
    | cons r more =>
      have hrecord : r.record (r.grow b.kind b.seed) = record := by
        rw [records, hrows] at hrecords
        exact (List.cons.inj hrecords).1
      have hstructural : r.structural = [] := by
        have := hb r (by rw [hrows]; simp)
        rw [← List.length_eq_zero_iff, this, hzero]
      have hstarts : (r.grow b.kind b.seed).names <+: b.schema.names := by
        have := names_prefix_schema ⟨b.kind, b.label, r.grow b.kind b.seed, more⟩
        rwa [show b.schema = Book.schema ⟨b.kind, b.label, r.grow b.kind b.seed, more⟩ by
          rw [schema, hrows]; rfl]
      cases hfirst : (r.grow b.kind b.seed).names with
      | nil =>
        rw [WrittenRow.record, hstructural, propertyCells, hfirst] at hrecord
        exact absurd hrecord.symm hne
      | cons name others =>
        rw [hfirst] at hstarts
        obtain ⟨tail, htail⟩ := hstarts
        have hmem : name ∈ canonical.names := hnames (by rw [← htail]; simp)
        refine List.mem_map.2 ⟨name, hmem, ?_⟩
        rw [← htail, hzero, List.cons_append, List.idxOf?_cons]
        simp
  · exact .inl hpos

/-- A file that started without columns and is put in line has the text that its rows should have,
unless a byte order mark is lost. -/
theorem realigned_eq_aligned {b : Book} (hb : b.Fits) (h : b.Unseeded) {canonical : LabelSchema}
    (hnames : b.schema.names ⊆ canonical.names) :
    (realigned? b.kind b.label canonical b.schema b.text).getD b.text = b.alignedText canonical ↔
      ¬ b.LosesMark canonical := by
  rw [realigned?_of_unseeded h]
  by_cases hheader : Csv.line (csvHeader b.kind b.label canonical) = Csv.line b.header
  · rw [if_pos hheader, Option.getD_none, alignedText_of_header hb h hnames hheader]
    exact iff_of_true rfl fun hlost => hlost.1 hheader
  rw [if_neg hheader, Option.getD_some]
  cases hrecords : b.records with
  | nil =>
    have haligned : b.alignedRecords canonical = [] := by
      rw [← map_realign_records hb, hrecords]
      rfl
    refine iff_of_true ?_ fun hlost => ?_
    · rw [alignedText, haligned]
      rfl
    · obtain ⟨-, record, rest, hcons, -⟩ := hlost
      rw [hrecords] at hcons
      cases hcons
  | cons record rest =>
    by_cases hmark : Csv.startsWithMark (Csv.line record).toList = true
    · -- The mark is lost: texts of the same lines would have the same records.
      refine iff_of_false (fun heq => ?_) fun hlost =>
        hlost ⟨hheader, record, rest, hrecords, hmark⟩
      obtain ⟨s, cells, rfl, hread⟩ := Csv.records_marked_lines hmark rest
      have hfirst := first_position hrecords (by simp) hb hnames
      rw [hread, alignedText, ← map_realign_records hb, hrecords] at heq
      have hlines := Csv.normal_eq_of_lines_eq heq
      rw [List.map_cons, List.map_cons, List.cons.injEq] at hlines
      split at hlines
      · have := congrArg List.length hlines.2
        simp at this
      · rw [List.singleton_append, List.map_cons, List.map_cons, List.map_cons, List.map_cons,
          List.cons.injEq] at hlines
        have hcell := hlines.2.1
        rw [Csv.normal_of_ne_nil (realign_ne_nil hfirst _),
          Csv.normal_of_ne_nil (realign_ne_nil hfirst _)] at hcell
        have := congrArg String.toList (eq_of_realign_eq hfirst hcell)
        simp at this
    · refine iff_of_true ?_ fun hlost => ?_
      · have hbody : Csv.startsWithMark
            (String.join ((record :: rest).map Csv.line)).toList = false := by
          rw [Csv.startsWithMark_lines]
          simpa using hmark
        rw [Csv.records_lines hbody, alignedText, ← map_realign_records hb, hrecords]
        simp only [List.map_cons, List.map_map, Function.comp_def, realign_normal]
      · obtain ⟨-, record', rest', hcons, hmark'⟩ := hlost
        rw [hrecords] at hcons
        cases hcons
        exact hmark hmark'

end Book

end GraphExport
